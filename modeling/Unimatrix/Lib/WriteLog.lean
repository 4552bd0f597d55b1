import Mathlib.Algebra.GroupWithZero.Nat
import Mathlib.Data.List.Basic
import Mathlib.Order.Interval.Finset.Nat

/-!
# Last writer wins: logs of positioned writes

A write places a list of values at an offset of an unbounded array. A log is a list of writes,
newest first, and `lastWrite log x` is the value the newest write covering `x` put at `x`, `none`
where no write of the log covers `x`.

A write that copies its values from a source list (`CopyOf`) reads as that source wherever it covers
(`CopyOf.at?_eq`), so of a log of copies only the set of written positions matters.

`footprint log` is the set of positions the log covers. The lengths of writes that never meet add up to
its size (`card_footprint`).
-/

namespace WriteLog

variable {β : Type}

/-- Values placed at an offset. -/
structure Write (β : Type) where
  offset : Nat
  values : List β
  deriving DecidableEq, Repr

namespace Write

/-- The first position past the write. -/
def stop (w : Write β) : Nat := w.offset + w.values.length

/-- The write covers `x`. -/
def Covers (w : Write β) (x : Nat) : Prop := w.offset ≤ x ∧ x < w.stop

instance (w : Write β) (x : Nat) : Decidable (w.Covers x) :=
  inferInstanceAs (Decidable (_ ∧ _))

/-- The value the write puts at `x`. -/
def at? (w : Write β) (x : Nat) : Option β :=
  if w.offset ≤ x then w.values[x - w.offset]? else none

theorem at?_eq_none_iff {w : Write β} {x : Nat} : w.at? x = none ↔ ¬ w.Covers x := by
  unfold at? Covers stop
  split
  · rename_i h
    rw [List.getElem?_eq_none_iff]
    omega
  · rename_i h
    exact ⟨fun _ hc => h hc.1, fun _ => rfl⟩

theorem Covers.values_ne_nil {w : Write β} {x : Nat} (h : w.Covers x) : w.values ≠ [] := by
  rintro hnil
  obtain ⟨h1, h2⟩ := h
  unfold stop at h2
  rw [hnil, List.length_nil] at h2
  omega

/-- An empty write covers nothing. -/
theorem at?_of_empty {w : Write β} (h : w.values = []) (x : Nat) : w.at? x = none :=
  at?_eq_none_iff.mpr fun hc => hc.values_ne_nil h

end Write

/-- The value the newest write of the log covering `x` put at `x`; the log is newest first. -/
def lastWrite : List (Write β) → Nat → Option β
  | [], _ => none
  | w :: ws, x => (w.at? x).or (lastWrite ws x)

/-- Some write of the log covers `x`. -/
def Written (log : List (Write β)) (x : Nat) : Prop := ∃ w ∈ log, w.Covers x

instance (log : List (Write β)) (x : Nat) : Decidable (Written log x) :=
  inferInstanceAs (Decidable (∃ w ∈ log, w.Covers x))

theorem lastWrite_cons (w : Write β) (ws : List (Write β)) (x : Nat) :
    lastWrite (w :: ws) x = (w.at? x).or (lastWrite ws x) := rfl

/-- The newest write decides the positions it covers. -/
theorem lastWrite_cons_of_covers {w : Write β} {x : Nat} (h : w.Covers x) (ws : List (Write β)) :
    lastWrite (w :: ws) x = w.at? x := by
  rw [lastWrite_cons]
  cases hw : w.at? x with
  | none => exact absurd h (Write.at?_eq_none_iff.mp hw)
  | some v => rfl

/-- A write changes nothing outside the positions it covers. -/
theorem lastWrite_cons_of_not_covers {w : Write β} {x : Nat} (h : ¬ w.Covers x)
    (ws : List (Write β)) : lastWrite (w :: ws) x = lastWrite ws x := by
  rw [lastWrite_cons, Write.at?_eq_none_iff.mpr h, Option.none_or]

/-- What is read was written there. -/
theorem exists_write_of_lastWrite {log : List (Write β)} {x : Nat} {v : β} (h : lastWrite log x = some v) :
    ∃ w ∈ log, w.at? x = some v := by
  induction log with
  | nil => cases h
  | cons w log ih =>
    rw [lastWrite_cons] at h
    rcases Option.or_eq_some_iff.mp h with hw | ⟨-, hlog⟩
    · exact ⟨w, List.mem_cons_self, hw⟩
    · obtain ⟨w', hmem, hw'⟩ := ih hlog
      exact ⟨w', List.mem_cons_of_mem _ hmem, hw'⟩

/-! ## Copies of one source -/

/-- The write copies the stretch of `src` it is placed at. -/
def CopyOf (src : List β) (w : Write β) : Prop :=
  w.stop ≤ src.length ∧ w.values = (src.drop w.offset).take w.values.length

instance [DecidableEq β] (src : List β) (w : Write β) : Decidable (CopyOf src w) :=
  inferInstanceAs (Decidable (_ ∧ _))

theorem CopyOf.at?_eq {src : List β} {w : Write β} (h : CopyOf src w) {x : Nat}
    (hx : w.Covers x) : w.at? x = src[x]? := by
  obtain ⟨h1, h2⟩ := hx
  unfold Write.stop at h2
  unfold Write.at?
  rw [if_pos h1, h.2, List.getElem?_take_of_lt (by omega), List.getElem?_drop]
  congr 1
  omega

/-! ## Writes that never meet -/

/-- No position is covered by both. -/
def Apart (w w' : Write β) : Prop := ∀ x, w.Covers x → ¬ w'.Covers x

theorem Apart.symm {w w' : Write β} (h : Apart w w') : Apart w' w := fun x hx hx' => h x hx' hx

/-- The values a log brings in all. -/
def volume (log : List (Write β)) : Nat := (log.map fun w => w.values.length).sum

/-- The positions the writes of a log cover. -/
def footprint : List (Write β) → Finset Nat
  | [] => ∅
  | w :: ws => Finset.Ico w.offset w.stop ∪ footprint ws

theorem mem_footprint {log : List (Write β)} {x : Nat} : x ∈ footprint log ↔ Written log x := by
  induction log with
  | nil => simp [footprint, Written]
  | cons w ws ih =>
    unfold Written at ih ⊢
    simp only [footprint, Finset.mem_union, Finset.mem_Ico, ih, List.mem_cons, exists_eq_or_imp]
    rfl

/-- **Writes that never meet fill their footprint.** -/
theorem card_footprint {log : List (Write β)} (h : log.Pairwise Apart) :
    (footprint log).card = volume log := by
  induction log with
  | nil => rfl
  | cons w ws ih =>
    obtain ⟨hw, hws⟩ := List.pairwise_cons.mp h
    have hapart : Disjoint (Finset.Ico w.offset w.stop) (footprint ws) := by
      rw [Finset.disjoint_left]
      intro x hx hmem
      obtain ⟨w', hw', hcov⟩ := mem_footprint.mp hmem
      exact hw w' hw' x (Finset.mem_Ico.mp hx) hcov
    have hlen : w.stop - w.offset = w.values.length := Nat.add_sub_cancel_left _ _
    unfold footprint volume
    rw [Finset.card_union_of_disjoint hapart, Nat.card_Ico, hlen, ih hws, List.map_cons,
      List.sum_cons]
    rfl

/-- Writes below `n` that never meet bring at most `n` values. -/
theorem volume_le {log : List (Write β)} (h : log.Pairwise Apart) {n : Nat}
    (hn : ∀ w ∈ log, w.stop ≤ n) : volume log ≤ n := by
  rw [← card_footprint h, ← Nat.sub_zero n, ← Nat.card_Ico 0 n]
  refine Finset.card_le_card fun x hx => ?_
  obtain ⟨w, hw, -, hlt⟩ := mem_footprint.mp hx
  exact Finset.mem_Ico.mpr ⟨Nat.zero_le x, lt_of_lt_of_le hlt (hn w hw)⟩

theorem volume_concat (log : List (Write β)) (w : Write β) :
    volume (log ++ [w]) = volume log + w.values.length := by
  unfold volume
  rw [List.map_append, List.sum_append, List.map_singleton, List.sum_singleton]

end WriteLog
