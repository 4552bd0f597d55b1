import Mathlib.Data.List.Sort

/-!
# Sorting by a key

`sortBy key l` is `l` with the smallest keys first; elements with equal keys keep their order (`filter_sortBy`).

**`sortBy_eq_sortBy`**: lists that agree at every key are sorted to one list. So are concatenations of the same parts in
another order if each key is in one part (`filter_flatMap_perm`).
-/

namespace StableSort

variable {α K : Type} [LinearOrder K] (key : α → K)

/-- `sort_by_key`. -/
def sortBy (l : List α) : List α := l.insertionSort fun a b => key a ≤ key b

instance total_key : Std.Total fun a b : α => key a ≤ key b := ⟨fun a b => le_total (key a) (key b)⟩

instance trans_key : IsTrans α fun a b => key a ≤ key b := ⟨fun _ _ _ hab hbc => le_trans hab hbc⟩

theorem sortBy_perm (l : List α) : (sortBy key l).Perm l := List.perm_insertionSort _ l

theorem mem_sortBy {a : α} {l : List α} : a ∈ sortBy key l ↔ a ∈ l := (sortBy_perm key l).mem_iff

theorem sortBy_pairwise (l : List α) : (sortBy key l).Pairwise fun a b => key a ≤ key b :=
  List.pairwise_insertionSort _ l

theorem filter_orderedInsert (k : K) (a : α) (l : List α) :
    (l.orderedInsert (fun a b => key a ≤ key b) a).filter (fun b => key b = k) =
      (a :: l).filter fun b => key b = k := by
  induction l with
  | nil => rfl
  | cons b l ih =>
    rw [List.orderedInsert_cons]
    split
    · rfl
    · rename_i hle
      -- the keys differ, so at most one of the two is kept
      have hne : key a ≠ key b := fun h => hle h.le
      rw [List.filter_cons, ih]
      by_cases ha : key a = k
      · have hb : key b ≠ k := fun h => hne (ha.trans h.symm)
        simp [ha, hb]
      · simp [ha, List.filter_cons]

/-- **The sort is stable.** -/
theorem filter_sortBy (k : K) (l : List α) :
    (sortBy key l).filter (fun b => key b = k) = l.filter fun b => key b = k := by
  unfold sortBy
  induction l with
  | nil => rfl
  | cons a l ih => rw [List.insertionSort_cons, filter_orderedInsert, List.filter_cons, List.filter_cons, ih]

variable {key}

/-- Sorted lists that agree at every key are equal. -/
theorem eq_of_filter {l l' : List α} (hl : l.Pairwise fun a b => key a ≤ key b)
    (hl' : l'.Pairwise fun a b => key a ≤ key b)
    (h : ∀ k, l.filter (fun b => key b = k) = l'.filter fun b => key b = k) : l = l' := by
  have hmem : ∀ a, a ∈ l ↔ a ∈ l' := fun a => by
    have := congrArg (a ∈ ·) (h (key a))
    simpa using this
  induction l generalizing l' with
  | nil => exact (List.eq_nil_iff_forall_not_mem.mpr fun a ha => by simpa using (hmem a).mpr ha).symm
  | cons a l ih =>
    obtain ⟨b, m, rfl⟩ := List.exists_cons_of_ne_nil (List.ne_nil_of_mem ((hmem a).mp List.mem_cons_self))
    obtain ⟨ha, hsorted⟩ := List.pairwise_cons.mp hl
    obtain ⟨hb, hsorted'⟩ := List.pairwise_cons.mp hl'
    have hab : key a ≤ key b := by
      rcases List.mem_cons.mp ((hmem b).mpr List.mem_cons_self) with hba | hba
      · rw [hba]
      · exact ha b hba
    have hba : key b ≤ key a := by
      rcases List.mem_cons.mp ((hmem a).mp List.mem_cons_self) with hab | hab
      · rw [hab]
      · exact hb a hab
    have hkey := le_antisymm hab hba
    have hhead := h (key a)
    rw [List.filter_cons, List.filter_cons, if_pos (decide_eq_true rfl), if_pos (decide_eq_true hkey.symm)] at hhead
    obtain ⟨rfl, -⟩ := List.cons.inj hhead
    have htail : ∀ k, l.filter (fun b => key b = k) = m.filter fun b => key b = k := by
      intro k
      have := h k
      rw [List.filter_cons, List.filter_cons] at this
      split at this
      · exact (List.cons.inj this).2
      · exact this
    rw [ih hsorted hsorted' htail fun x => by
      have := congrArg (x ∈ ·) (htail (key x))
      simpa using this]

/-- The smaller keys of a sorted list are in front. -/
theorem prefix_filter_le {l : List α} (hl : l.Pairwise fun a b => key a ≤ key b) (k : K) :
    l.filter (fun b => key b ≤ k) <+: l := by
  induction l with
  | nil => exact List.prefix_rfl
  | cons a l ih =>
    obtain ⟨ha, hsorted⟩ := List.pairwise_cons.mp hl
    rw [List.filter_cons]
    split
    · exact List.cons_prefix_cons.mpr ⟨rfl, ih hsorted⟩
    · rename_i hk
      have hnil : l.filter (fun b => key b ≤ k) = [] :=
        List.filter_eq_nil_iff.mpr fun b hb hle =>
          hk (decide_eq_true ((ha b hb).trans (of_decide_eq_true hle)))
      rw [hnil]
      exact List.nil_prefix

/-- The last of the keys that are no larger than one of them is this key. -/
theorem exists_last_le {l : List α} (hl : l.Pairwise fun a b => key a ≤ key b) {a : α} (ha : a ∈ l) :
    ∃ init b rest, l = init ++ b :: rest ∧ l.filter (fun c => key c ≤ key a) = init ++ [b] ∧ key b = key a := by
  obtain ⟨rest, hrest⟩ := prefix_filter_le hl (key a)
  have hmem : a ∈ l.filter fun c => key c ≤ key a := List.mem_filter.mpr ⟨ha, decide_eq_true le_rfl⟩
  have hle : ∀ c ∈ l.filter (fun c => key c ≤ key a), key c ≤ key a :=
    fun c hc => of_decide_eq_true (List.mem_filter.mp hc).2
  have hearly := List.Pairwise.filter (fun c => key c ≤ key a) hl
  obtain ⟨init, b, hb⟩ := (List.eq_nil_or_concat' _).resolve_left (List.ne_nil_of_mem hmem)
  rw [hb] at hrest hmem hle hearly
  refine ⟨init, b, rest, by rw [← hrest, List.append_assoc, List.singleton_append], hb, ?_⟩
  refine le_antisymm (hle b (List.mem_append_right _ (List.mem_singleton_self b))) ?_
  rcases List.mem_append.mp hmem with hinit | hlast
  · exact (List.pairwise_append.mp hearly).2.2 a hinit b (List.mem_singleton_self b)
  · rw [List.mem_singleton.mp hlast]

/-- Parts in another order, of which one has what is kept. -/
theorem filter_flatMap_perm {β : Type} {parts parts' : List β} (hperm : parts.Perm parts') {f : β → List α}
    {p : α → Bool} (hone : parts.Pairwise fun s t => (f s).filter p = [] ∨ (f t).filter p = []) :
    (parts.flatMap f).filter p = (parts'.flatMap f).filter p := by
  induction hperm with
  | nil => rfl
  | cons s _ ih =>
    rw [List.flatMap_cons, List.flatMap_cons, List.filter_append, List.filter_append,
      ih (List.pairwise_cons.mp hone).2]
  | swap s t parts =>
    simp only [List.flatMap_cons, List.filter_append]
    rcases (List.pairwise_cons.mp hone).1 s List.mem_cons_self with ht | hs
    · rw [ht, List.nil_append, List.nil_append]
    · rw [hs, List.nil_append, List.nil_append]
  | trans h _ ih ih' => exact (ih hone).trans (ih' ((h.pairwise_iff fun hst => hst.symm).mp hone))

/-- **Lists that agree at every key are sorted to one list.** -/
theorem sortBy_eq_sortBy {l l' : List α} (h : ∀ k, l.filter (fun b => key b = k) = l'.filter fun b => key b = k) :
    sortBy key l = sortBy key l' := by
  refine eq_of_filter (sortBy_pairwise key l) (sortBy_pairwise key l') fun k => ?_
  rw [filter_sortBy, filter_sortBy, h]

/-- Sorting what is kept, and keeping some of what is sorted, are the same. -/
theorem sortBy_filter (p : α → Bool) (l : List α) : sortBy key (l.filter p) = (sortBy key l).filter p := by
  refine eq_of_filter (sortBy_pairwise key _) ((sortBy_pairwise key l).filter p) fun k => ?_
  rw [filter_sortBy, List.filter_comm _ p l, List.filter_comm _ p (sortBy key l), filter_sortBy]

/-! ## Lists that are sorted in front -/

section Front

variable {r : α → α → Prop} [DecidableRel r]

/-- What is sorted in front, and belongs there, stays. -/
theorem insertionSort_append {t d : List α} (ht : t.Pairwise r) (h : ∀ a ∈ t, ∀ b ∈ d, r a b) :
    (t ++ d).insertionSort r = t ++ d.insertionSort r := by
  induction t with
  | nil => rfl
  | cons a t ih =>
    obtain ⟨ha, ht⟩ := List.pairwise_cons.mp ht
    have hfirst : ∀ b ∈ t ++ d.insertionSort r, r a b := fun b hb => by
      rcases List.mem_append.mp hb with hb | hb
      · exact ha b hb
      · exact h a List.mem_cons_self b ((List.perm_insertionSort r d).mem_iff.mp hb)
    rw [List.cons_append, List.insertionSort_cons, ih ht fun a' ha' => h a' (List.mem_cons_of_mem a ha'),
      List.cons_append]
    cases hrest : t ++ d.insertionSort r with
    | nil => rfl
    | cons b rest =>
      rw [hrest] at hfirst
      rw [List.orderedInsert_cons, if_pos (hfirst b List.mem_cons_self)]

/-- **Sorting keeps the first `k` exactly if they are sorted, and none of the others comes before one of them.** -/
theorem take_insertionSort_eq_iff [Std.Total r] [IsTrans α r] (l : List α) (k : Nat) :
    (l.insertionSort r).take k = l.take k ↔
      (l.take k).Pairwise r ∧ ∀ a ∈ l.take k, ∀ b ∈ l.drop k, r a b := by
  constructor
  · intro h
    have hsorted := List.pairwise_insertionSort r l
    have hperm := List.perm_insertionSort r l
    rw [← List.take_append_drop k (l.insertionSort r), h] at hsorted hperm
    have hrest := (List.perm_append_left_iff _).mp (hperm.trans (.of_eq (List.take_append_drop k l).symm))
    obtain ⟨hfront, -, hcross⟩ := List.pairwise_append.mp hsorted
    exact ⟨hfront, fun a ha b hb => hcross a ha b (hrest.mem_iff.mpr hb)⟩
  · rintro ⟨hfront, hcross⟩
    have hsort := insertionSort_append hfront hcross
    rw [List.take_append_drop] at hsort
    rw [hsort]
    by_cases hk : k ≤ l.length
    · exact List.take_left' (List.length_take_of_le hk)
    · rw [List.drop_of_length_le (by omega), List.insertionSort_nil, List.append_nil, List.take_take, min_self]

end Front

end StableSort
