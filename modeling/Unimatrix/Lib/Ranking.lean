import Mathlib.Data.List.Count
import Mathlib.Data.Nat.Find
import Mathlib.Order.Lattice

/-!
# Positions in a list that was filtered

An element at position `j` that passes a filter is at position `(l.take j).countP p` of what the filter leaves.
In a list that descends by `f`, **`eq_iff_countP_le`** says when the element that was at that position before the
filter has the same value of `f`: when as many elements pass before `j` as have a greater value. **`countP_le_iff`**: that is so for every element that passes exactly when the
filter removes nothing that is above an element it leaves.
-/

namespace Ranking

variable {α : Type}

/-! ## Where a filter puts an element -/

section Filter

variable {p : α → Bool} {l : List α}

theorem getElem?_filter_of_getElem? {j : Nat} {a : α} (h : l[j]? = some a) (hp : p a = true) :
    (l.filter p)[(l.take j).countP p]? = some a := by
  induction l generalizing j with
  | nil => simp at h
  | cons b l ih =>
    cases j with
    | zero =>
      obtain rfl : b = a := by simpa using h
      simp [hp]
    | succ j =>
      have h' : l[j]? = some a := by simpa using h
      cases hb : p b with
      | true => simpa [hb] using ih h'
      | false => simpa [hb] using ih h'

theorem getElem?_of_getElem?_filter {i : Nat} {a : α} (h : (l.filter p)[i]? = some a) :
    ∃ j, l[j]? = some a ∧ (l.take j).countP p = i := by
  induction l generalizing i with
  | nil => simp at h
  | cons b l ih =>
    cases hb : p b with
    | true =>
      rw [List.filter_cons_of_pos hb] at h
      cases i with
      | zero => exact ⟨0, by simpa using h, rfl⟩
      | succ i =>
        obtain ⟨j, hj, hcount⟩ := ih (by simpa using h)
        exact ⟨j + 1, by simpa using hj, by simp [hb, hcount]⟩
    | false =>
      rw [List.filter_cons_of_neg (by simp [hb])] at h
      obtain ⟨j, hj, hcount⟩ := ih h
      exact ⟨j + 1, by simpa using hj, by simp [hb, hcount]⟩

theorem countP_take_le (j : Nat) : (l.take j).countP p ≤ j :=
  Nat.le_trans List.countP_le_length (List.length_take_le j l)

theorem countP_and_lt {q : α → Bool} {a : α} (ha : a ∈ l) (hq : q a = true) (hp : p a = false) :
    (l.countP fun c => p c && q c) < l.countP q := by
  rw [← List.countP_filter, List.countP_eq_length_filter (p := q), List.countP_lt_length_iff]
  exact ⟨a, List.mem_filter.mpr ⟨ha, hq⟩, hp⟩

end Filter

/-! ## Lists that descend -/

section Descending

variable {F : Type} [LinearOrder F] {f : α → F} {l : List α}

/-- The elements above a value come first. -/
theorem lt_iff_lt_countP (hl : l.Pairwise fun a b => f b ≤ f a) (x : F) {i : Nat} {a : α}
    (h : l[i]? = some a) : x < f a ↔ i < l.countP fun b => x < f b := by
  induction l generalizing i with
  | nil => simp at h
  | cons b l ih =>
    obtain ⟨hb, hl⟩ := List.pairwise_cons.mp hl
    by_cases hx : x < f b
    · rw [List.countP_cons_of_pos (by simpa using hx)]
      cases i with
      | zero =>
        obtain rfl : b = a := by simpa using h
        simp [hx]
      | succ i =>
        rw [ih hl (by simpa using h)]
        exact Nat.succ_lt_succ_iff.symm
    · -- nothing after `b` is above the value either
      have hnone : (b :: l).countP (fun b => x < f b) = 0 := by
        rw [List.countP_eq_zero]
        intro c hc
        rcases List.mem_cons.mp hc with rfl | hc
        · simpa using hx
        · simpa using le_trans (hb c hc) (le_of_not_gt hx)
      rw [hnone]
      refine iff_of_false (fun ha => hx ?_) (Nat.not_lt_zero i)
      rcases List.mem_cons.mp (List.mem_of_getElem? h) with rfl | hmem
      · exact ha
      · exact lt_of_lt_of_le ha (hb a hmem)

theorem le_of_getElem? (hl : l.Pairwise fun a b => f b ≤ f a) {i j : Nat} {a b : α} (hij : i ≤ j)
    (ha : l[i]? = some a) (hb : l[j]? = some b) : f b ≤ f a := by
  rcases Nat.eq_or_lt_of_le hij with rfl | hlt
  · rw [ha] at hb
    rw [Option.some.inj hb]
  · obtain ⟨hi, rfl⟩ := List.getElem?_eq_some_iff.mp ha
    obtain ⟨hj, rfl⟩ := List.getElem?_eq_some_iff.mp hb
    exact List.pairwise_iff_getElem.mp hl i j hi hj hlt

/-- **The element that was where a filter puts `b`** has the same value exactly when as many elements pass
before `b` as have a greater value than `b`. -/
theorem eq_iff_countP_le (hl : l.Pairwise fun a b => f b ≤ f a) (p : α → Bool) {j : Nat} {a b : α}
    (hb : l[j]? = some b) (ha : l[(l.take j).countP p]? = some a) :
    f a = f b ↔ (l.countP fun c => f b < f c) ≤ (l.take j).countP p := by
  have hle : f b ≤ f a := le_of_getElem? hl (countP_take_le j) ha hb
  rw [← Nat.not_lt, ← lt_iff_lt_countP hl (f b) ha, not_lt]
  exact ⟨fun heq => le_of_eq heq, fun h => le_antisymm h hle⟩

/-- **Where a filter keeps every value**: it removes nothing that has a greater value than an element it leaves. -/
theorem countP_le_iff (hl : l.Pairwise fun a b => f b ≤ f a) (p : α → Bool) :
    (∀ (j : Nat) (b : α), l[j]? = some b → p b = true →
      (l.countP fun c => f b < f c) ≤ (l.take j).countP p) ↔
      ∀ b ∈ l, p b = true → ∀ a ∈ l, f b < f a → p a = true := by
  constructor
  · intro h b hb hpb a ha hlt
    by_contra hpa
    -- the first element that passes below the one that was removed
    have hex : ∃ (j : Nat) (d : α), l[j]? = some d ∧ p d = true ∧ f d < f a := by
      obtain ⟨j, hj⟩ := List.mem_iff_getElem?.mp hb
      exact ⟨j, b, hj, hpb, hlt⟩
    classical
    obtain ⟨d, hd, hpd, hda⟩ := Nat.find_spec hex
    have habove : (l.take (Nat.find hex)).countP p ≤ l.countP fun c => p c && decide (f d < f c) := by
      refine Nat.le_trans (List.countP_mono_left fun c hc hpc => ?_) (List.take_sublist _ _).countP_le
      obtain ⟨i, hi⟩ := List.mem_iff_getElem?.mp hc
      rw [List.getElem?_take, Option.ite_none_right_eq_some] at hi
      have hge : ¬ f c < f a := fun hca => Nat.find_min hex hi.1 ⟨c, hi.2, hpc, hca⟩
      simp [hpc, lt_of_lt_of_le hda (not_lt.mp hge)]
    have hremoved : (l.countP fun c => p c && decide (f d < f c)) < l.countP fun c => f d < f c :=
      countP_and_lt ha (by simpa using hda) (by simpa using hpa)
    exact absurd (h _ d hd hpd) (Nat.not_le.mpr (Nat.lt_of_le_of_lt habove hremoved))
  · intro h j b hb hpb
    have hdrop : ((l.drop j).countP fun c => f b < f c) = 0 := by
      rw [List.countP_eq_zero]
      intro c hc
      obtain ⟨i, hi⟩ := List.mem_iff_getElem?.mp hc
      rw [List.getElem?_drop] at hi
      simpa using le_of_getElem? hl (Nat.le_add_right j i) hb hi
    calc (l.countP fun c => f b < f c)
        = ((l.take j).countP fun c => f b < f c) + ((l.drop j).countP fun c => f b < f c) := by
          rw [← List.countP_append, List.take_append_drop]
      _ = (l.take j).countP fun c => f b < f c := by rw [hdrop, Nat.add_zero]
      _ ≤ (l.take j).countP p := List.countP_mono_left fun c hc hlt =>
          h b (List.mem_of_getElem? hb) hpb c (List.mem_of_mem_take hc) (of_decide_eq_true hlt)

end Descending

end Ranking
