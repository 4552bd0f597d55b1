import Mathlib.Data.List.DropRight

/-!
# Splitting and trimming

`trim p l` is `l` without the elements at its two ends that satisfy `p`. Splitting is `List.splitOnP`.

* `exists_trim`, `trim_append`: what is cut off at the ends satisfies `p`, and more of it changes nothing.
* `splitOnP_splitOnP`: splitting at some of the separators first and then at all of them is splitting at all.
* `splitOnP_around`: what holds no separator lies in one of the pieces.
-/

namespace Words

variable {α β : Type} {p q : α → Bool}

/-! ## Trimming -/

/-- Cut off what satisfies `p` at both ends. -/
def trim (p : α → Bool) (l : List α) : List α := (l.dropWhile p).rdropWhile p

theorem exists_trim (p : α → Bool) (l : List α) :
    ∃ a b, l = a ++ trim p l ++ b ∧ (∀ x ∈ a, p x) ∧ ∀ x ∈ b, p x := by
  refine ⟨l.takeWhile p, (l.dropWhile p).rtakeWhile p, ?_, fun x => List.mem_takeWhile_imp,
    fun x => List.mem_rtakeWhile_imp⟩
  unfold trim
  rw [List.append_assoc, List.rdropWhile_append_rtakeWhile, List.takeWhile_append_dropWhile]

theorem trim_eq_nil {l : List α} (h : ∀ x ∈ l, p x) : trim p l = [] := by
  unfold trim
  rw [List.dropWhile_eq_nil_iff.mpr h]
  rfl

theorem dropWhile_append_of_all {a l : List α} (h : ∀ x ∈ a, p x) :
    (a ++ l).dropWhile p = l.dropWhile p := by
  induction a with
  | nil => rfl
  | cons x a ih =>
    obtain ⟨hx, ha⟩ := List.forall_mem_cons.mp h
    rw [List.cons_append, List.dropWhile_cons_of_pos hx, ih ha]

theorem rdropWhile_append_of_all {l b : List α} (h : ∀ x ∈ b, p x) :
    (l ++ b).rdropWhile p = l.rdropWhile p := by
  unfold List.rdropWhile
  rw [List.reverse_append, dropWhile_append_of_all fun x hx => h x (List.mem_reverse.mp hx)]

/-- More of what is cut off changes nothing. -/
theorem trim_append {a l b : List α} (ha : ∀ x ∈ a, p x) (hb : ∀ x ∈ b, p x) :
    trim p (a ++ l ++ b) = trim p l := by
  unfold trim
  rw [List.append_assoc, dropWhile_append_of_all ha, List.dropWhile_append]
  split
  · rename_i h
    have hnil : l.dropWhile p = [] := List.isEmpty_iff.mp h
    rw [hnil, List.dropWhile_eq_nil_iff.mpr hb]
  · exact rdropWhile_append_of_all hb

theorem trim_congr {l : List α} (h : ∀ x ∈ l, p x = q x) : trim p l = trim q l := by
  have hd : ∀ m : List α, (∀ x ∈ m, p x = q x) → m.dropWhile p = m.dropWhile q := by
    intro m hm
    induction m with
    | nil => rfl
    | cons x m ih =>
      obtain ⟨hx, hm⟩ := List.forall_mem_cons.mp hm
      rw [List.dropWhile_cons, List.dropWhile_cons, hx, ih hm]
  unfold trim List.rdropWhile
  rw [hd l h, hd]
  exact fun x hx => h x ((List.dropWhile_sublist q).mem (List.mem_reverse.mp hx))

theorem trim_eq_self {l : List α} (h : ∀ x ∈ l, p x = false) : trim p l = l := by
  have hd : ∀ m : List α, m.dropWhile (fun _ => false) = m := fun m => by cases m <;> rfl
  rw [trim_congr (q := fun _ => false) h]
  unfold trim List.rdropWhile
  rw [hd, hd, List.reverse_reverse]

/-- Between ends that stay nothing is cut off. -/
theorem trim_ends {x y : α} (hx : p x = false) (hy : p y = false) (l : List α) :
    trim p (x :: (l ++ [y])) = x :: (l ++ [y]) := by
  unfold trim
  rw [List.dropWhile_cons_of_neg (by rw [hx]; exact Bool.false_ne_true), ← List.cons_append,
    List.rdropWhile_concat_neg _ _ _ (by rw [hy]; exact Bool.false_ne_true)]

theorem trim_trim (l : List α) : trim p (trim p l) = trim p l := by
  obtain ⟨a, b, hl, ha, hb⟩ := exists_trim p l
  conv_rhs => rw [hl]
  exact (trim_append ha hb).symm

/-! ## Splitting -/

/-- Splitting at some separators first and then at all of them is splitting at all of them. -/
theorem splitOnP_splitOnP (h : ∀ x, p x → q x) (l : List α) :
    (l.splitOnP p).flatMap (List.splitOnP q) = l.splitOnP q := by
  induction l with
  | nil => rfl
  | cons x l ih =>
    rw [List.splitOnP_cons_eq_if_modifyHead, List.splitOnP_cons_eq_if_modifyHead (p := q)]
    by_cases hp : p x
    · rw [if_pos hp, if_pos (h x hp), List.flatMap_cons, ih]
      rfl
    · rw [if_neg hp]
      obtain ⟨w, ws, hw⟩ := List.exists_cons_of_ne_nil (List.splitOnP_ne_nil p l)
      rw [hw, List.flatMap_cons] at ih
      rw [hw, List.modifyHead_cons, List.flatMap_cons, List.splitOnP_cons_eq_if_modifyHead]
      by_cases hq : q x
      · rw [if_pos hq, if_pos hq, List.cons_append, ih]
      · rw [if_neg hq, if_neg hq, ← ih]
        obtain ⟨v, vs, hv⟩ := List.exists_cons_of_ne_nil (List.splitOnP_ne_nil q w)
        rw [hv]
        rfl

theorem findSome?_flatMap {γ : Type} (f : α → Option γ) (g : β → List α) (l : List β) :
    (l.flatMap g).findSome? f = l.findSome? fun x => (g x).findSome? f := by
  induction l with
  | nil => rfl
  | cons x l ih =>
    rw [List.flatMap_cons, List.findSome?_append, List.findSome?_cons, ih]
    cases (g x).findSome? f <;> rfl

/-- A piece holds elements of the list, and no separator. -/
theorem mem_of_mem_splitOnP {l w : List α} (h : w ∈ l.splitOnP p) :
    ∀ x ∈ w, x ∈ l ∧ p x = false := by
  induction l generalizing w with
  | nil =>
    rw [List.splitOnP_nil, List.mem_singleton] at h
    subst h
    exact fun x hx => by cases hx
  | cons y l ih =>
    rw [List.splitOnP_cons_eq_if_modifyHead] at h
    have tail : ∀ {v}, v ∈ l.splitOnP p → ∀ x ∈ v, x ∈ y :: l ∧ p x = false := fun hv x hx =>
      ⟨List.mem_cons_of_mem y (ih hv x hx).1, (ih hv x hx).2⟩
    by_cases hp : p y
    · rw [if_pos hp] at h
      rcases List.mem_cons.mp h with rfl | h
      · exact fun x hx => by cases hx
      · exact tail h
    · rw [if_neg hp] at h
      obtain ⟨v, vs, hv⟩ := List.exists_cons_of_ne_nil (List.splitOnP_ne_nil p l)
      rw [hv, List.modifyHead_cons] at h
      rcases List.mem_cons.mp h with rfl | h
      · intro x hx
        rcases List.mem_cons.mp hx with rfl | hx
        · exact ⟨List.mem_cons_self, Bool.eq_false_iff.mpr hp⟩
        · exact tail (by rw [hv]; exact List.mem_cons_self) x hx
      · exact tail (by rw [hv]; exact List.mem_cons_of_mem v h)

/-- A list holds no separator, or there is a first one. -/
theorem first_separator (q : α → Bool) (l : List α) :
    (∀ x ∈ l, q x = false) ∨ ∃ a s b, l = a ++ s :: b ∧ q s ∧ ∀ x ∈ a, q x = false := by
  induction l with
  | nil => exact .inl fun x hx => by cases hx
  | cons y l ih =>
    by_cases hq : q y
    · exact .inr ⟨[], y, l, rfl, hq, fun x hx => by cases hx⟩
    · have hy : q y = false := Bool.eq_false_iff.mpr hq
      rcases ih with h | ⟨a, s, b, rfl, hs, ha⟩
      · exact .inl (List.forall_mem_cons.mpr ⟨hy, h⟩)
      · exact .inr ⟨y :: a, s, b, rfl, hs, List.forall_mem_cons.mpr ⟨hy, ha⟩⟩

/-- A list holds no separator, or there is a last one. -/
theorem last_separator (q : α → Bool) (l : List α) :
    (∀ x ∈ l, q x = false) ∨ ∃ a s b, l = a ++ s :: b ∧ q s ∧ ∀ x ∈ b, q x = false := by
  rcases first_separator q l.reverse with h | ⟨a, s, b, hl, hs, ha⟩
  · exact .inl fun x hx => h x (List.mem_reverse.mpr hx)
  · refine .inr ⟨b.reverse, s, a.reverse, ?_, hs, fun x hx => ha x (List.mem_reverse.mp hx)⟩
    rw [← List.reverse_reverse l, hl, List.reverse_append, List.reverse_cons, List.append_assoc]
    rfl

/-- **What holds no separator lies in one piece**; the pieces before and after it come from what is before and
after it. -/
theorem splitOnP_around {a m b : List α} (hm : ∀ x ∈ m, q x = false) :
    ∃ pre a' b' post, (a ++ m ++ b).splitOnP q = pre ++ (a' ++ m ++ b') :: post ∧ a' ⊆ a ∧ b' ⊆ b ∧
      (∀ w ∈ pre, w ⊆ a) ∧ ∀ w ∈ post, w ⊆ b := by
  -- behind the last separator before `m`
  have right : ∀ a' : List α, (∀ x ∈ a', q x = false) → ∃ b' post,
      (a' ++ m ++ b).splitOnP q = (a' ++ m ++ b') :: post ∧ b' ⊆ b ∧ ∀ w ∈ post, w ⊆ b := by
    intro a' ha'
    have hleft : ∀ x ∈ a' ++ m, q x = false := List.forall_mem_append.mpr ⟨ha', hm⟩
    rcases first_separator q b with hb | ⟨b₁, s, b₂, rfl, hs, hb₁⟩
    · exact ⟨b, [], List.splitOnP_eq_singleton (List.forall_mem_append.mpr ⟨hleft, hb⟩),
        List.Subset.refl b, fun w hw => by cases hw⟩
    · refine ⟨b₁, b₂.splitOnP q, ?_, List.subset_append_left b₁ _, fun w hw x hx => ?_⟩
      · rw [← List.append_assoc]
        exact List.splitOnP_append_cons_of_forall_mem (List.forall_mem_append.mpr ⟨hleft, hb₁⟩) s hs b₂
      · exact List.mem_append_right b₁ (List.mem_cons_of_mem s (mem_of_mem_splitOnP hw x hx).1)
  rcases last_separator q a with ha | ⟨a₁, s, a₂, rfl, hs, ha₂⟩
  · obtain ⟨b', post, h, hb', hpost⟩ := right a ha
    exact ⟨[], a, b', post, h, List.Subset.refl a, hb', fun w hw => absurd hw List.not_mem_nil, hpost⟩
  · obtain ⟨b', post, h, hb', hpost⟩ := right a₂ ha₂
    refine ⟨a₁.splitOnP q, a₂, b', post, ?_, ?_, hb', fun w hw x hx => ?_, hpost⟩
    · rw [List.append_assoc, List.append_assoc, List.cons_append, List.splitOnP_append_cons _ _ hs,
        ← List.append_assoc, h]
    · exact List.subset_append_of_subset_right a₁ (List.subset_cons_self s a₂)
    · exact List.mem_append_left _ (mem_of_mem_splitOnP hw x hx).1

end Words
