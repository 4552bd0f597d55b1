import Mathlib.Algebra.BigOperators.Group.Finset.Basic
import Mathlib.Data.Finset.Card

/-!
# Tallies where the last vote counts

A history of votes is a list of pairs, oldest first. `latest` is the last value a voter gave,
`supporters` who last gave a value, and `first` what a voter gave first.

* **`supporters_concat`**: one more vote adds its voter to the supporters of its value and takes it from
  the others; `card_supporters_gain` and `card_supporters_lose` count them.
* **`firstSum_concat`**: one more pair adds to the sum of first values only when its voter is new.
-/

namespace Tally

variable {A B : Type} [DecidableEq A]

/-! ## Last votes -/

/-- The last value of a voter. -/
def latest (history : List (A × B)) (a : A) : Option B :=
  history.foldl (fun found e => if e.1 = a then some e.2 else found) none

/-- The first value of a voter. -/
def first (history : List (A × B)) (a : A) : Option B :=
  (history.find? fun e => e.1 = a).map Prod.snd

/-- Everyone in the history. -/
def voters (history : List (A × B)) : Finset A := (history.map Prod.fst).toFinset

/-- Who last gave the value `v`. -/
def supporters [DecidableEq B] (history : List (A × B)) (v : B) : Finset A :=
  (voters history).filter fun a => latest history a = some v

theorem latest_concat (history : List (A × B)) (a b : A) (v : B) :
    latest (history ++ [(b, v)]) a = if b = a then some v else latest history a := by
  unfold latest
  rw [List.foldl_append]
  rfl

theorem mem_voters_of_latest {history : List (A × B)} {a : A} {v : B}
    (h : latest history a = some v) : a ∈ voters history := by
  induction history using List.reverseRecOn with
  | nil => cases h
  | append_singleton history e ih =>
    obtain ⟨b, w⟩ := e
    rw [latest_concat] at h
    unfold voters
    rw [List.map_append, List.toFinset_append, Finset.mem_union]
    split at h
    · rename_i hb
      right
      simp [hb]
    · exact .inl (ih h)

variable [DecidableEq B]

theorem mem_supporters {history : List (A × B)} {a : A} {v : B} :
    a ∈ supporters history v ↔ latest history a = some v := by
  unfold supporters
  rw [Finset.mem_filter]
  exact ⟨And.right, fun h => ⟨mem_voters_of_latest h, h⟩⟩

/-- **One more vote.** -/
theorem supporters_concat (history : List (A × B)) (a : A) (v w : B) :
    supporters (history ++ [(a, v)]) w =
      if w = v then insert a (supporters history w) else (supporters history w).erase a := by
  ext b
  rw [mem_supporters, latest_concat]
  split
  · rename_i hab
    subst hab
    split
    · rename_i hwv
      simp [hwv]
    · rename_i hwv
      simp [Ne.symm hwv]
  · rename_i hab
    split
    · rw [Finset.mem_insert, mem_supporters]
      exact ⟨.inr, fun h => h.resolve_left (Ne.symm hab)⟩
    · rw [Finset.mem_erase, mem_supporters]
      exact ⟨fun h => ⟨Ne.symm hab, h⟩, And.right⟩

/-- Who supports `v` already changes nothing by saying so again. -/
theorem supporters_concat_again {history : List (A × B)} {a : A} {v : B}
    (h : latest history a = some v) (w : B) :
    supporters (history ++ [(a, v)]) w = supporters history w := by
  rw [supporters_concat]
  split
  · rename_i hwv
    rw [hwv]
    exact Finset.insert_eq_of_mem (mem_supporters.mpr h)
  · rename_i hwv
    refine Finset.erase_eq_of_notMem fun hmem => hwv ?_
    rw [mem_supporters, h] at hmem
    exact (Option.some.inj hmem).symm

/-- The value a vote is for gains a supporter. -/
theorem card_supporters_gain {history : List (A × B)} {a : A} {v : B}
    (h : latest history a ≠ some v) :
    (supporters (history ++ [(a, v)]) v).card = (supporters history v).card + 1 := by
  rw [supporters_concat, if_pos rfl]
  exact Finset.card_insert_of_notMem fun hmem => h (mem_supporters.mp hmem)

/-- The value a vote leaves loses a supporter. -/
theorem card_supporters_lose {history : List (A × B)} {a : A} {v w : B} (hne : w ≠ v)
    (h : latest history a = some w) :
    (supporters (history ++ [(a, v)]) w).card + 1 = (supporters history w).card := by
  rw [supporters_concat, if_neg hne]
  exact Finset.card_erase_add_one (mem_supporters.mpr h)

/-- A value the voter did not give keeps its supporters. -/
theorem supporters_concat_other {history : List (A × B)} {a : A} {v w : B} (hne : w ≠ v)
    (h : latest history a ≠ some w) : supporters (history ++ [(a, v)]) w = supporters history w := by
  rw [supporters_concat, if_neg hne]
  exact Finset.erase_eq_of_notMem fun hmem => h (mem_supporters.mp hmem)

/-! ## First values -/

section First

variable (history : List (A × Nat)) (a : A) (n : Nat)

/-- The sum of the first values. -/
def firstSum (history : List (A × Nat)) : Nat :=
  ∑ a ∈ voters history, (first history a).getD 0

theorem first_concat (b : A) :
    first (history ++ [(a, n)]) b = if (first history b).isSome then first history b
      else if a = b then some n else none := by
  unfold first
  rw [List.find?_append]
  cases history.find? fun e => decide (e.1 = b) with
  | some e => rfl
  | none =>
    by_cases hab : a = b
    · simp [hab]
    · simp [hab]

theorem mem_voters_iff_first : a ∈ voters history ↔ (first history a).isSome := by
  unfold voters first
  simp [List.find?_isSome]

/-- **One more pair.** -/
theorem firstSum_concat :
    firstSum (history ++ [(a, n)]) =
      if (first history a).isSome then firstSum history else firstSum history + n := by
  have hvoters : voters (history ++ [(a, n)]) = insert a (voters history) := by
    unfold voters
    rw [List.map_append, List.toFinset_append]
    ext b
    simp
  have hsame : ∀ b ∈ voters history,
      (first (history ++ [(a, n)]) b).getD 0 = (first history b).getD 0 := by
    intro b hb
    rw [first_concat, if_pos ((mem_voters_iff_first history b).mp hb)]
  unfold firstSum
  rw [hvoters]
  split
  · rename_i hsome
    rw [Finset.insert_eq_of_mem ((mem_voters_iff_first history a).mpr hsome)]
    exact Finset.sum_congr rfl hsame
  · rename_i hnone
    have hnew : a ∉ voters history := fun h => hnone ((mem_voters_iff_first history a).mp h)
    rw [Finset.sum_insert hnew, Finset.sum_congr rfl hsame, first_concat, if_neg hnone, if_pos rfl]
    simp [Nat.add_comm]

end First

end Tally
