import Mathlib.Algebra.GroupWithZero.Nat
import Mathlib.Order.Interval.Finset.Nat
import Mathlib.Order.Basic
import Mathlib.Order.Lattice
import Mathlib.Data.List.Basic
import Mathlib.Data.List.Pairwise
import Mathlib.Tactic.Order

/-!
# Sorted lists of half-open intervals

A list of pairs `(s, e)` over a linear order, each read as `[s, e)`. `Covers l x` says that some
interval of `l` holds `x`. The **canonical** form (`Separated`) keeps the intervals non-empty,
ascending and never touching, so two canonical lists with the same points are equal (`ext`).

* `cut r s e`: what is left of `r` once `[s, e)` is taken out; `subtract` does it to every interval.
* `trimBelow b`: what is left above the bound `b`.

Both keep the form canonical and take exactly the named points away (`covers_subtract`,
`covers_trimBelow`). `card_covered` counts the points held within a range.
-/

namespace Intervals

variable {α : Type} [LinearOrder α]

/-- Some interval of `l` holds `x`. -/
def Covers (l : List (α × α)) (x : α) : Prop := ∃ r ∈ l, r.1 ≤ x ∧ x < r.2

instance (l : List (α × α)) (x : α) : Decidable (Covers l x) :=
  inferInstanceAs (Decidable (∃ r ∈ l, r.1 ≤ x ∧ x < r.2))

/-- Non-empty intervals, ascending, with a point between any two. -/
structure Separated (l : List (α × α)) : Prop where
  apart : l.Pairwise fun a b => a.2 < b.1
  proper : ∀ r ∈ l, r.1 < r.2

/-- What is left of `r` once `[s, e)` is taken out: nothing, one end, or both. -/
def cut (r : α × α) (s e : α) : List (α × α) :=
  if r.2 ≤ s ∨ e ≤ r.1 then [r]
  else if s ≤ r.1 ∧ r.2 ≤ e then []
  else if s ≤ r.1 then [(e, r.2)]
  else if r.2 ≤ e then [(r.1, s)]
  else [(r.1, s), (e, r.2)]

/-- Take `[s, e)` out of every interval. -/
def subtract (l : List (α × α)) (s e : α) : List (α × α) := l.flatMap fun r => cut r s e

/-- Drop what lies below `b`, and start a straddling interval at `b`. -/
def trimBelow (b : α) (l : List (α × α)) : List (α × α) :=
  l.filterMap fun r => if r.2 ≤ b then none else some (max r.1 b, r.2)

/-! ## Points -/

@[simp] theorem covers_nil (x : α) : ¬ Covers ([] : List (α × α)) x := by
  rintro ⟨r, hr, -⟩
  exact absurd hr List.not_mem_nil

@[simp] theorem covers_cons {r : α × α} {l : List (α × α)} {x : α} :
    Covers (r :: l) x ↔ (r.1 ≤ x ∧ x < r.2) ∨ Covers l x := by
  unfold Covers
  simp only [List.mem_cons, exists_eq_or_imp]

@[simp] theorem covers_append {l m : List (α × α)} {x : α} :
    Covers (l ++ m) x ↔ Covers l x ∨ Covers m x := by
  unfold Covers
  simp only [List.mem_append, or_and_right, exists_or]

/-- The points of `cut r s e` are the points of `r` outside `[s, e)`. -/
theorem covers_cut {r : α × α} {s e x : α} :
    Covers (cut r s e) x ↔ (r.1 ≤ x ∧ x < r.2) ∧ ¬ (s ≤ x ∧ x < e) := by
  unfold cut
  split_ifs with h1 h2 h3 h4 <;> simp only [covers_cons, covers_nil, or_false, false_iff]
  · refine ⟨fun hx => ⟨hx, fun hs => ?_⟩, fun hx => hx.1⟩
    rcases h1 with h | h
    · exact absurd (lt_of_lt_of_le hx.2 h) (not_lt.mpr hs.1)
    · exact absurd (lt_of_lt_of_le hs.2 h) (not_lt.mpr hx.1)
  · rintro ⟨hx, hn⟩
    exact hn ⟨le_trans h2.1 hx.1, lt_of_lt_of_le hx.2 h2.2⟩
  · constructor
    · rintro ⟨hx, hx2⟩
      have he : r.1 ≤ e := le_of_lt (not_le.mp fun h => h1 (Or.inr h))
      exact ⟨⟨le_trans he hx, hx2⟩, fun hs => absurd hs.2 (not_lt.mpr hx)⟩
    · rintro ⟨hx, hn⟩
      exact ⟨not_lt.mp fun h => hn ⟨le_trans h3 hx.1, h⟩, hx.2⟩
  · constructor
    · rintro ⟨hx, hx2⟩
      have hs : s < r.2 := not_le.mp fun h => h1 (Or.inl h)
      exact ⟨⟨hx, lt_trans hx2 hs⟩, fun h => absurd hx2 (not_lt.mpr h.1)⟩
    · rintro ⟨hx, hn⟩
      exact ⟨hx.1, not_le.mp fun h => hn ⟨h, lt_of_lt_of_le hx.2 h4⟩⟩
  · have hs : s < r.2 := not_le.mp fun h => h1 (Or.inl h)
    have he : r.1 < e := not_le.mp fun h => h1 (Or.inr h)
    constructor
    · rintro (⟨hx, hx2⟩ | ⟨hx, hx2⟩)
      · exact ⟨⟨hx, lt_trans hx2 hs⟩, fun h => absurd hx2 (not_lt.mpr h.1)⟩
      · exact ⟨⟨le_trans (le_of_lt he) hx, hx2⟩, fun h => absurd h.2 (not_lt.mpr hx)⟩
    · rintro ⟨hx, hn⟩
      by_cases h : x < s
      · exact Or.inl ⟨hx.1, h⟩
      · exact Or.inr ⟨not_lt.mp fun h' => hn ⟨not_lt.mp h, h'⟩, hx.2⟩

/-- **`subtract` takes exactly `[s, e)` away.** -/
theorem covers_subtract {l : List (α × α)} {s e x : α} :
    Covers (subtract l s e) x ↔ Covers l x ∧ ¬ (s ≤ x ∧ x < e) := by
  induction l with
  | nil => simp [subtract]
  | cons r l ih =>
    unfold subtract at ih ⊢
    rw [List.flatMap_cons, covers_append, covers_cut, ih, covers_cons, or_and_right]

/-- **`trimBelow b` keeps exactly the points from `b` on.** -/
theorem covers_trimBelow {l : List (α × α)} {b x : α} :
    Covers (trimBelow b l) x ↔ Covers l x ∧ b ≤ x := by
  unfold Covers trimBelow
  simp only [List.mem_filterMap]
  constructor
  · rintro ⟨_, ⟨r, hr, hif⟩, hx⟩
    split at hif
    · exact absurd hif (by simp)
    · obtain rfl := Option.some.inj hif
      exact ⟨⟨r, hr, le_trans (le_max_left _ _) hx.1, hx.2⟩, le_trans (le_max_right _ _) hx.1⟩
  · rintro ⟨⟨r, hr, hx⟩, hb⟩
    refine ⟨(max r.1 b, r.2), ⟨r, hr, if_neg (not_le.mpr (lt_of_le_of_lt hb hx.2))⟩, ?_⟩
    exact ⟨max_le hx.1 hb, hx.2⟩

/-! ## The canonical form -/

theorem separated_nil : Separated ([] : List (α × α)) :=
  ⟨List.Pairwise.nil, fun _ h => absurd h List.not_mem_nil⟩

theorem separated_cons {r : α × α} {l : List (α × α)} :
    Separated (r :: l) ↔ (∀ q ∈ l, r.2 < q.1) ∧ r.1 < r.2 ∧ Separated l := by
  constructor
  · rintro ⟨ha, hp⟩
    obtain ⟨h1, h2⟩ := List.pairwise_cons.mp ha
    exact ⟨h1, hp r List.mem_cons_self, h2, fun q hq => hp q (List.mem_cons_of_mem _ hq)⟩
  · rintro ⟨h1, h2, h3⟩
    exact ⟨List.pairwise_cons.mpr ⟨h1, h3.apart⟩, List.forall_mem_cons.mpr ⟨h2, h3.proper⟩⟩

theorem Separated.append {l m : List (α × α)} (hl : Separated l) (hm : Separated m)
    (h : ∀ r ∈ l, ∀ q ∈ m, r.2 < q.1) : Separated (l ++ m) :=
  ⟨List.pairwise_append.mpr ⟨hl.apart, hm.apart, h⟩, fun r hr => by
    rcases List.mem_append.mp hr with hr | hr
    · exact hl.proper r hr
    · exact hm.proper r hr⟩

theorem separated_singleton {s e : α} (h : s < e) : Separated [(s, e)] :=
  separated_cons.mpr ⟨fun _ h => absurd h List.not_mem_nil, h, separated_nil⟩

/-- Every interval of `cut r s e` lies within `r`. -/
theorem mem_cut {r q : α × α} {s e : α} (h : q ∈ cut r s e) : r.1 ≤ q.1 ∧ q.2 ≤ r.2 := by
  unfold cut at h
  split_ifs at h with h1 h2 h3 h4 <;>
    simp only [List.mem_cons, List.not_mem_nil, or_false] at h
  · rw [h]; exact ⟨le_refl _, le_refl _⟩
  · rw [h]; exact ⟨le_of_lt (not_le.mp fun h => h1 (Or.inr h)), le_refl _⟩
  · rw [h]; exact ⟨le_refl _, le_of_lt (not_le.mp fun h => h1 (Or.inl h))⟩
  · rcases h with rfl | rfl
    · exact ⟨le_refl _, le_of_lt (not_le.mp fun h => h1 (Or.inl h))⟩
    · exact ⟨le_of_lt (not_le.mp fun h => h1 (Or.inr h)), le_refl _⟩

theorem separated_cut {r : α × α} {s e : α} (hr : r.1 < r.2) (hse : s < e) :
    Separated (cut r s e) := by
  unfold cut
  split_ifs with h1 h2 h3 h4
  · exact separated_singleton hr
  · exact separated_nil
  · exact separated_singleton (not_le.mp fun h => h2 ⟨h3, h⟩)
  · exact separated_singleton (not_le.mp h3)
  · refine separated_cons.mpr ⟨?_, not_le.mp h3, separated_singleton (not_le.mp h4)⟩
    intro q hq
    obtain rfl := List.mem_singleton.mp hq
    exact hse

theorem mem_subtract {l : List (α × α)} {q : α × α} {s e : α} (h : q ∈ subtract l s e) :
    ∃ r ∈ l, r.1 ≤ q.1 ∧ q.2 ≤ r.2 := by
  obtain ⟨r, hr, hq⟩ := List.mem_flatMap.mp h
  exact ⟨r, hr, mem_cut hq⟩

theorem Separated.subtract {l : List (α × α)} {s e : α} (hl : Separated l) (hse : s < e) :
    Separated (subtract l s e) := by
  induction l with
  | nil => exact separated_nil
  | cons r l ih =>
    obtain ⟨hlt, hr, hsep⟩ := separated_cons.mp hl
    refine (separated_cut hr hse).append (ih hsep) ?_
    intro p hp q hq
    obtain ⟨r', hr', hle, -⟩ := mem_subtract hq
    exact lt_of_le_of_lt (mem_cut hp).2 (lt_of_lt_of_le (hlt r' hr') hle)

theorem mem_trimBelow {l : List (α × α)} {q : α × α} {b : α} (h : q ∈ trimBelow b l) :
    b < q.2 ∧ ∃ r ∈ l, q = (max r.1 b, r.2) := by
  obtain ⟨r, hr, hif⟩ := List.mem_filterMap.mp h
  split at hif
  · exact absurd hif (by simp)
  · rename_i hb
    obtain rfl := Option.some.inj hif
    exact ⟨not_le.mp hb, r, hr, rfl⟩

theorem Separated.trimBelow {l : List (α × α)} (hl : Separated l) (b : α) :
    Separated (trimBelow b l) := by
  induction l with
  | nil => exact separated_nil
  | cons r l ih =>
    obtain ⟨hlt, hr, hsep⟩ := separated_cons.mp hl
    unfold Intervals.trimBelow
    rw [List.filterMap_cons]
    split
    · exact ih hsep
    · rename_i hif
      split at hif
      · exact absurd hif (by simp)
      · rename_i hb
        obtain rfl := Option.some.inj hif
        refine separated_cons.mpr ⟨fun q hq => ?_, max_lt hr (not_le.mp hb), ih hsep⟩
        obtain ⟨-, p, hp, rfl⟩ := mem_trimBelow hq
        exact lt_of_lt_of_le (hlt p hp) (le_max_left _ _)

/-! ### Extensionality -/

/-- The points of a separated tail lie beyond the head. -/
theorem lt_of_covers_tail {r : α × α} {l : List (α × α)} (hl : Separated (r :: l)) {x : α}
    (hx : Covers l x) : r.2 < x := by
  obtain ⟨q, hq, hx1, -⟩ := hx
  exact lt_of_lt_of_le ((separated_cons.mp hl).1 q hq) hx1

theorem covers_tail_iff {r : α × α} {l : List (α × α)} (hl : Separated (r :: l)) {x : α} :
    Covers l x ↔ Covers (r :: l) x ∧ r.2 ≤ x := by
  rw [covers_cons]
  constructor
  · exact fun hx => ⟨Or.inr hx, le_of_lt (lt_of_covers_tail hl hx)⟩
  · rintro ⟨hx | hx, hle⟩
    · exact absurd hx.2 (not_lt.mpr hle)
    · exact hx

private theorem covers_head {r : α × α} {l : List (α × α)} (hl : Separated (r :: l)) :
    Covers (r :: l) r.1 :=
  covers_cons.mpr (Or.inl ⟨le_refl _, (separated_cons.mp hl).2.1⟩)

/-- No point of a separated list lies before its first interval. -/
theorem head_le_of_covers {r : α × α} {l : List (α × α)} (hl : Separated (r :: l)) {x : α}
    (hx : Covers (r :: l) x) : r.1 ≤ x := by
  rcases covers_cons.mp hx with hx | hx
  · exact hx.1
  · exact le_of_lt (lt_trans (separated_cons.mp hl).2.1 (lt_of_covers_tail hl hx))

private theorem head_end_le {r q : α × α} {l m : List (α × α)} (hl : Separated (r :: l))
    (h : ∀ x, Covers (q :: m) x → Covers (r :: l) x) (hs : r.1 = q.1) : q.2 ≤ r.2 := by
  by_contra hc
  have hlt : r.2 < q.2 := not_le.mp hc
  have hin : Covers (q :: m) r.2 :=
    covers_cons.mpr (Or.inl ⟨hs ▸ le_of_lt (separated_cons.mp hl).2.1, hlt⟩)
  rcases covers_cons.mp (h _ hin) with hx | hx
  · exact absurd hx.2 (lt_irrefl _)
  · exact absurd (lt_of_covers_tail hl hx) (lt_irrefl _)

/-- **Separated lists are equal iff they hold the same points.** -/
theorem ext : ∀ {l m : List (α × α)}, Separated l → Separated m →
    (∀ x, Covers l x ↔ Covers m x) → l = m
  | [], [], _, _, _ => rfl
  | [], q :: m, _, hm, h => absurd ((h q.1).mpr (covers_head hm)) (covers_nil _)
  | r :: l, [], hl, _, h => absurd ((h r.1).mp (covers_head hl)) (covers_nil _)
  | r :: l, q :: m, hl, hm, h => by
    have hs : r.1 = q.1 := le_antisymm (head_le_of_covers hl ((h q.1).mpr (covers_head hm)))
      (head_le_of_covers hm ((h r.1).mp (covers_head hl)))
    have he : r.2 = q.2 := le_antisymm (head_end_le hm (fun x => (h x).mp) hs.symm)
      (head_end_le hl (fun x => (h x).mpr) hs)
    have ht : ∀ x, Covers l x ↔ Covers m x := fun x => by
      rw [covers_tail_iff hl, covers_tail_iff hm, h x, he]
    rw [Prod.ext hs he, ext (separated_cons.mp hl).2.2 (separated_cons.mp hm).2.2 ht]

/-! ### How many intervals -/

theorem length_trimBelow_le (b : α) (l : List (α × α)) : (trimBelow b l).length ≤ l.length :=
  List.length_filterMap_le _ l

/-! ### The length held, over the natural numbers -/

/-- The summed length of the intervals. -/
def total (l : List (Nat × Nat)) : Nat := (l.map fun r => r.2 - r.1).sum

/-- Separated intervals within `[a, b)` hold at most `b - a` points. -/
theorem total_le {l : List (Nat × Nat)} (hl : Separated l) {a b : Nat}
    (hin : ∀ r ∈ l, a ≤ r.1 ∧ r.2 ≤ b) : total l ≤ b - a := by
  induction l generalizing a with
  | nil => exact Nat.zero_le _
  | cons r l ih =>
    obtain ⟨hlt, hr, hsep⟩ := separated_cons.mp hl
    obtain ⟨hrin, hlin⟩ := List.forall_mem_cons.mp hin
    have := ih (a := r.2) hsep fun q hq => ⟨le_of_lt (hlt q hq), (hlin q hq).2⟩
    unfold total at this ⊢
    rw [List.map_cons, List.sum_cons]
    omega

/-- **The points of `[a, b)` that separated intervals cover, counted.** -/
theorem card_covered {l : List (Nat × Nat)} (hl : Separated l) (a b : Nat) :
    ((Finset.Ico a b).filter (Covers l)).card = (l.map fun r => min r.2 b - max r.1 a).sum := by
  induction l with
  | nil =>
    rw [Finset.filter_false_of_mem fun x _ => covers_nil x]
    rfl
  | cons r l ih =>
    have hhead : (Finset.Ico a b).filter (fun x => r.1 ≤ x ∧ x < r.2) =
        Finset.Ico (max r.1 a) (min r.2 b) := by
      ext x
      simp only [Finset.mem_filter, Finset.mem_Ico]
      omega
    have hapart : Disjoint ((Finset.Ico a b).filter fun x => r.1 ≤ x ∧ x < r.2)
        ((Finset.Ico a b).filter (Covers l)) := by
      rw [Finset.disjoint_filter]
      exact fun x _ hx hc => absurd (lt_of_covers_tail hl hc) (not_lt.mpr (le_of_lt hx.2))
    rw [List.map_cons, List.sum_cons, ← ih (separated_cons.mp hl).2.2, ← Nat.card_Ico, ← hhead,
      ← Finset.card_union_of_disjoint hapart, ← Finset.filter_or]
    congr 1
    exact Finset.filter_congr fun x _ => covers_cons

end Intervals
