import Mathlib.Data.List.TakeWhile

/-!
# Splitting once

A list cut at the first element that equals a given one (`splitOnce`), or at the last (`rsplitOnce`).

**`splitOnce_eq_some`**, **`rsplitOnce_eq_some`**: the two parts are those around an element that does not occur in the
first, or in the second. Without the element there is nothing to cut.
-/

namespace SplitOnce

variable {α : Type} [DecidableEq α] {sep : α} {s a b : List α}

/-- Cut at the first `sep`. -/
def splitOnce (sep : α) (s : List α) : Option (List α × List α) :=
  match s.dropWhile (· != sep) with
  | [] => none
  | _ :: rest => some (s.takeWhile (· != sep), rest)

/-- Cut at the last `sep`. -/
def rsplitOnce (sep : α) (s : List α) : Option (List α × List α) :=
  (splitOnce sep s.reverse).map fun p => (p.2.reverse, p.1.reverse)

theorem splitOnce_eq_some : splitOnce sep s = some (a, b) ↔ s = a ++ sep :: b ∧ sep ∉ a := by
  constructor
  · intro h
    unfold splitOnce at h
    split at h
    · cases h
    · rename_i c rest hdrop
      cases h
      have hc : (c != sep) = false := by
        have hhead := List.head?_dropWhile_not (· != sep) s
        rwa [hdrop] at hhead
      refine ⟨?_, fun hmem => ?_⟩
      · have hsplit := List.takeWhile_append_dropWhile (p := (· != sep)) (l := s)
        rw [hdrop, bne_eq_false_iff_eq.mp hc] at hsplit
        exact hsplit.symm
      · have hsep : (sep != sep) = true := List.mem_takeWhile_imp (p := (· != sep)) hmem
        exact bne_iff_ne.mp hsep rfl
  · rintro ⟨rfl, ha⟩
    have hall : ∀ x ∈ a, (x != sep) = true := fun x hx => bne_iff_ne.mpr fun heq => ha (heq ▸ hx)
    have hsep : ¬ (sep != sep) = true := fun h => bne_iff_ne.mp h rfl
    unfold splitOnce
    rw [List.dropWhile_append_of_pos hall, List.takeWhile_append_of_pos hall,
      List.dropWhile_cons_of_neg (p := (· != sep)) hsep, List.takeWhile_cons_of_neg (p := (· != sep)) hsep,
      List.append_nil]

theorem splitOnce_eq_none : splitOnce sep s = none ↔ sep ∉ s := by
  rw [Option.eq_none_iff_forall_ne_some]
  constructor
  · intro h hmem
    obtain ⟨a, b, hs, ha⟩ := List.eq_append_cons_of_mem hmem
    exact h _ (splitOnce_eq_some.mpr ⟨hs, ha⟩)
  · rintro hnot ⟨a, b⟩ h
    obtain ⟨rfl, -⟩ := splitOnce_eq_some.mp h
    exact hnot (List.mem_append_right _ List.mem_cons_self)

theorem rsplitOnce_eq_some : rsplitOnce sep s = some (a, b) ↔ s = a ++ sep :: b ∧ sep ∉ b := by
  have hrev (x y : List α) : (x ++ sep :: y).reverse = y.reverse ++ sep :: x.reverse := by
    rw [List.reverse_append, List.reverse_cons, List.append_assoc]
    rfl
  unfold rsplitOnce
  rw [Option.map_eq_some_iff]
  constructor
  · rintro ⟨⟨x, y⟩, h, heq⟩
    obtain ⟨hs, hx⟩ := splitOnce_eq_some.mp h
    cases heq
    refine ⟨?_, fun hmem => hx (List.mem_reverse.mp hmem)⟩
    rw [← hrev, ← hs, List.reverse_reverse]
  · rintro ⟨rfl, hb⟩
    refine ⟨(b.reverse, a.reverse), splitOnce_eq_some.mpr ⟨hrev a b, fun hmem => hb (List.mem_reverse.mp hmem)⟩, ?_⟩
    simp only [List.reverse_reverse]

theorem rsplitOnce_eq_none : rsplitOnce sep s = none ↔ sep ∉ s := by
  unfold rsplitOnce
  rw [Option.map_eq_none_iff, splitOnce_eq_none, List.mem_reverse]

end SplitOnce
