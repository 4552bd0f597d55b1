import Mathlib.Data.List.Basic

/-!
# Runs of a step function

A run takes one event after the other (`List.foldl step`). `Throughout step C s es` says that each event of `es`
meets the condition `C` in the state it is taken in.

* `Throughout.invariant`: what a step that meets `C` keeps, a run throughout which `C` holds keeps.
* `invariant`: the same where every step keeps it.
* `Throughout.mono`, `throughout_congr`: weaker conditions, and conditions that agree at every state.
* `view_foldl_filter`: a view that the events of others leave as it is, as if there were none of these.

A run is any list of events, so what is proved of where it ends holds of every state on the way.
-/

namespace Runs

variable {σ ε : Type}

/-- Each event meets `C` in the state it is taken in. -/
def Throughout (step : σ → ε → σ) (C : σ → ε → Prop) : σ → List ε → Prop
  | _, [] => True
  | s, e :: es => C s e ∧ Throughout step C (step s e) es

instance decidableThroughout (step : σ → ε → σ) (C : σ → ε → Prop) [h : ∀ s e, Decidable (C s e)] :
    ∀ (s : σ) (es : List ε), Decidable (Throughout step C s es)
  | _, [] => isTrue trivial
  | s, e :: es =>
    match h s e, decidableThroughout step C (step s e) es with
    | isTrue hc, isTrue ht => isTrue ⟨hc, ht⟩
    | isFalse hc, _ => isFalse fun h => hc h.1
    | _, isFalse ht => isFalse fun h => ht h.2

section Rules

variable {step : σ → ε → σ} {C : σ → ε → Prop}

/-- **What every step that meets `C` keeps, the run keeps.** -/
theorem Throughout.invariant {Inv : σ → Prop} (hstep : ∀ s e, Inv s → C s e → Inv (step s e))
    {s : σ} {es : List ε} (hC : Throughout step C s es) (hs : Inv s) : Inv (es.foldl step s) := by
  induction es generalizing s with
  | nil => exact hs
  | cons e es ih => exact ih hC.2 (hstep s e hs hC.1)

/-- Every step keeps it, so every run does. -/
theorem invariant {Inv : σ → Prop} (hstep : ∀ s e, Inv s → Inv (step s e)) {s : σ} (hs : Inv s)
    (es : List ε) : Inv (es.foldl step s) := by
  induction es generalizing s with
  | nil => exact hs
  | cons e es ih => exact ih (hstep s e hs)

theorem Throughout.mono {C' : σ → ε → Prop} (h : ∀ s e, C s e → C' s e) {s : σ} {es : List ε}
    (hC : Throughout step C s es) : Throughout step C' s es := by
  induction es generalizing s with
  | nil => trivial
  | cons e es ih => exact ⟨h s e hC.1, ih hC.2⟩

theorem throughout_congr {C' : σ → ε → Prop} (h : ∀ s e, C s e ↔ C' s e) (s : σ) (es : List ε) :
    Throughout step C s es ↔ Throughout step C' s es := by
  induction es generalizing s with
  | nil => exact Iff.rfl
  | cons e es ih => exact and_congr (h s e) (ih (step s e))

/-- **What sees only its own events sees them alone**: a view that other events leave as it is, and that its own events
change by what it sees. -/
theorem view_foldl_filter {α : Type} {f : σ → α} {mine : ε → Bool}
    (hother : ∀ s e, mine e = false → f (step s e) = f s)
    (hmine : ∀ s s' e, mine e = true → f s = f s' → f (step s e) = f (step s' e)) (es : List ε)
    {s s' : σ} (h : f s = f s') : f (es.foldl step s) = f ((es.filter mine).foldl step s') := by
  induction es generalizing s s' with
  | nil => exact h
  | cons e es ih =>
    cases he : mine e with
    | true =>
      rw [List.filter_cons_of_pos he]
      exact ih (hmine s s' e he h)
    | false =>
      rw [List.filter_cons_of_neg (by rw [he]; exact Bool.false_ne_true)]
      exact ih ((hother s e he).trans h)

end Rules

end Runs
