import Mathlib.Order.Basic

/-!
# Layered values

A value comes from a base and a layer over it. What was never set stands at its default, so a rule has three inputs: the
default, the layer and the base.

* `pick`: the layer where it is not at the default. The other rules are compared with it: `pickBy` by a comparison of
  the caller's, `Option.or` and `pin` for a value that may be missing.
* `Keeps`: a rule that leaves the base alone for these inputs. `pick` does so exactly where the layer says nothing new
  (`pick_keeps_iff`), `pin` exactly where the base is set or the layer is not (`pin_keeps_iff`).
-/

namespace Overlay

variable {α : Type}

/-- The layer where it is not at the default. -/
def pick [DecidableEq α] (default layer base : α) : α := if layer ≠ default then layer else base

/-- The layer where it is judged to be away from the default. -/
def pickBy (away : α → α → Bool) (default layer base : α) : α := if away layer default then layer else base

/-- What the base has set stays. -/
def pin (layer base : Option α) : Option α := if base.isSome then base else layer.or base

section Pick

variable [DecidableEq α]

theorem pick_keeps_iff {default layer base : α} :
    pick default layer base = base ↔ layer = default ∨ layer = base := by
  unfold pick
  by_cases h : layer = default <;> simp [h]

/-- A missing value is one at its default. -/
theorem or_eq_pick (layer base : Option α) : layer.or base = pick none layer base := by
  cases layer <;> simp [pick]

theorem pickBy_eq_pick_iff {away : α → α → Bool} {default layer base : α} :
    pickBy away default layer base = pick default layer base ↔
      (away layer default = true ↔ layer ≠ default) ∨ layer = base := by
  unfold pickBy pick
  cases haway : away layer default <;> by_cases heq : layer = default <;> simp [heq, eq_comm]

end Pick

theorem pin_none (layer : Option α) : pin layer none = layer := by
  cases layer <;> rfl

theorem pin_keeps_iff {layer base : Option α} : pin layer base = base ↔ base.isSome ∨ layer = none := by
  cases base with
  | some b => simp [pin]
  | none => simp [pin_none]

end Overlay
