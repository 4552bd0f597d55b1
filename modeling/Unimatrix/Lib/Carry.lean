import Mathlib.Data.List.Basic
import Mathlib.Data.List.Perm.Basic

/-!
# Labels that are carried forward

Some elements of a list name a label, and it holds until another is named. `carry signal last l` are the elements with the
label that holds at each, `last` being the one before the first (**`getElem?_carry`**).

Elements are parted by their labels: those of each label, label by label, are all that have one
(**`flatMap_filter_perm`**).
-/

namespace Carry

variable {α F : Type} (signal : α → Option F)

/-- The elements with the labels that hold at them. -/
def carry : Option F → List α → List (α × Option F)
  | _, [] => []
  | last, a :: l => (a, (signal a).or last) :: carry ((signal a).or last) l

/-- The label that holds after some elements. -/
def lastSignal (last : Option F) (l : List α) : Option F := l.foldl (fun last a => (signal a).or last) last

theorem carry_append (last : Option F) (l m : List α) :
    carry signal last (l ++ m) = carry signal last l ++ carry signal (lastSignal signal last l) m := by
  induction l generalizing last with
  | nil => rfl
  | cons a l ih =>
    rw [List.cons_append, carry, carry, ih, List.cons_append]
    rfl

theorem map_fst_carry (last : Option F) (l : List α) : (carry signal last l).map Prod.fst = l := by
  induction l generalizing last with
  | nil => rfl
  | cons a l ih => rw [carry, List.map_cons, ih]

/-- **The label at a position is the last that was named up to it.** -/
theorem getElem?_carry (last : Option F) (l : List α) (i : Nat) :
    (carry signal last l)[i]? = l[i]?.map fun a => (a, ((l.take (i + 1)).reverse.findSome? signal).or last) := by
  induction l generalizing last i with
  | nil => rfl
  | cons a l ih =>
    have hlast : ((a :: l).take (i + 1)).reverse.findSome? signal =
        ((l.take i).reverse.findSome? signal).or (signal a) := by
      rw [List.take_succ_cons, List.reverse_cons, List.findSome?_append, List.findSome?_singleton]
    rw [hlast, Option.or_assoc]
    cases i with
    | zero => rfl
    | succ i => rw [carry, List.getElem?_cons_succ, List.getElem?_cons_succ, ih]

/-- The first label there is, where none held before, is the first that is named. -/
theorem findSome?_carry (l : List α) : (carry signal none l).findSome? Prod.snd = l.findSome? signal := by
  induction l with
  | nil => rfl
  | cons a l ih =>
    rw [carry, List.findSome?_cons, List.findSome?_cons, Option.or_none]
    cases h : signal a with
    | none => exact ih
    | some f => rfl

/-- A label for what has none is one that holds from the start. -/
theorem carry_or (last d : Option F) (l : List α) :
    (carry signal last l).map (fun p => (p.1, p.2.or d)) = carry signal (last.or d) l := by
  induction l generalizing last with
  | nil => rfl
  | cons a l ih => rw [carry, List.map_cons, ih, carry, Option.or_assoc]

/-- What is carried was named, or held from the start. -/
theorem mem_carry {last : Option F} {l : List α} {p : α × Option F} (h : p ∈ carry signal last l) {f : F}
    (hf : p.2 = some f) : (∃ a ∈ l, signal a = some f) ∨ last = some f := by
  induction l generalizing last with
  | nil => cases h
  | cons a l ih =>
    have hor : (signal a).or last = some f → (∃ a' ∈ a :: l, signal a' = some f) ∨ last = some f := by
      intro hor
      cases ha : signal a with
      | none =>
        rw [ha] at hor
        exact .inr hor
      | some g =>
        rw [ha] at hor
        exact .inl ⟨a, List.mem_cons_self, ha.trans hor⟩
    rcases List.mem_cons.mp h with rfl | h
    · exact hor hf
    · rcases ih h with ⟨a', ha', hs⟩ | hlast
      · exact .inl ⟨a', List.mem_cons_of_mem _ ha', hs⟩
      · exact hor hlast

/-- Where a label held from the start, one holds at every element. -/
theorem isSome_of_mem_carry {last : Option F} {l : List α} (hlast : last.isSome) {p : α × Option F}
    (h : p ∈ carry signal last l) : p.2.isSome := by
  induction l generalizing last with
  | nil => cases h
  | cons a l ih =>
    have hor : ((signal a).or last).isSome := by
      rw [Option.isSome_or, hlast, Bool.or_true]
    rcases List.mem_cons.mp h with rfl | h
    · exact hor
    · exact ih hor h

/-! ## Parting by labels -/

section Parting

variable [DecidableEq F]

/-- The elements of a label are among those that have not another. -/
theorem filter_without {f g : F} (h : g ≠ f) (l : List (α × Option F)) :
    ((l.filter fun p => !decide (p.2 = some f)).filter fun p => p.2 = some g) = l.filter fun p => p.2 = some g := by
  rw [List.filter_filter]
  refine List.filter_congr fun p _ => ?_
  by_cases hpg : p.2 = some g
  · simp [hpg, h]
  · simp [hpg]

/-- The elements of one label, and those of the others. -/
theorem filter_append_filter_perm (f : F) (l : List (α × Option F)) :
    ((l.filter fun p => p.2 = some f) ++ (l.filter fun p => !decide (p.2 = some f)).filter fun p => p.2.isSome).Perm
      (l.filter fun p => p.2.isSome) := by
  have hparts := List.filter_append_perm (fun p : α × Option F => decide (p.2 = some f)) (l.filter fun p => p.2.isSome)
  rw [List.filter_filter, List.filter_filter] at hparts
  have hthis : (l.filter fun p => decide (p.2 = some f) && p.2.isSome) = l.filter fun p => p.2 = some f := by
    refine List.filter_congr fun p _ => ?_
    by_cases hpf : p.2 = some f
    · simp [hpf]
    · simp [hpf]
  have hothers : ((l.filter fun p => !decide (p.2 = some f)).filter fun p => p.2.isSome) =
      l.filter fun p => !decide (p.2 = some f) && p.2.isSome := by
    rw [List.filter_filter]
    exact List.filter_congr fun p _ => Bool.and_comm _ _
  rw [hothers]
  rwa [hthis] at hparts

/-- **The elements of each label together are all that have one.** -/
theorem flatMap_filter_perm {features : List F} (hnodup : features.Nodup) (l : List (α × Option F))
    (hall : ∀ p ∈ l, ∀ f, p.2 = some f → f ∈ features) :
    (features.flatMap fun f => l.filter fun p => p.2 = some f).Perm (l.filter fun p => p.2.isSome) := by
  induction features generalizing l with
  | nil =>
    have hnil : (l.filter fun p => p.2.isSome) = [] := List.filter_eq_nil_iff.mpr fun p hp hsome => by
      obtain ⟨f, hf⟩ := Option.isSome_iff_exists.mp hsome
      cases hall p hp f hf
    rw [hnil]
    exact List.Perm.refl []
  | cons f features ih =>
    obtain ⟨hf, hnodup⟩ := List.nodup_cons.mp hnodup
    -- what is left without the elements of `f`
    have hrest := ih hnodup (l.filter fun p => !decide (p.2 = some f)) fun p hp g hg => by
      obtain ⟨hp, hne⟩ := List.mem_filter.mp hp
      refine (List.mem_cons.mp (hall p hp g hg)).resolve_left fun hgf => ?_
      rw [hg, hgf] at hne
      simp at hne
    have hleft : (features.flatMap fun g => (l.filter fun p => !decide (p.2 = some f)).filter fun p => p.2 = some g) =
        features.flatMap fun g => l.filter fun p => p.2 = some g :=
      List.flatMap_congr fun g hg => filter_without (fun h : g = f => hf (h ▸ hg)) l
    rw [hleft] at hrest
    rw [List.flatMap_cons]
    exact (List.Perm.append_left _ hrest).trans (filter_append_filter_perm f l)

end Parting

end Carry
