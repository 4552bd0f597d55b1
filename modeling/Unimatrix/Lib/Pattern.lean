import Mathlib.Computability.Language

/-!
# Patterns

Regular expressions over classes of letters: `\s`, `[^"]` and a letter alike are a test. What a pattern stands for is a
language (`language`); `matchPrefix` and `search` read a text with derivatives, one letter at a time.

* `nullable_iff`, `mem_derive`: the two laws of derivatives.
* **`matchPrefix_iff`**, **`search_iff`**: a pattern is found exactly if a part of the text, from its start or from
  anywhere, is in the language.
-/

/-- A regular expression. -/
inductive Pattern (α : Type) where
  | never
  | empty
  | letter (p : α → Bool)
  | seq (r s : Pattern α)
  | alt (r s : Pattern α)
  | star (r : Pattern α)

namespace Pattern

variable {α : Type}

/-- `r+`. -/
def plus (r : Pattern α) : Pattern α := .seq r (.star r)

/-- `r?`. -/
def optional (r : Pattern α) : Pattern α := .alt .empty r

/-- These letters. -/
def word [DecidableEq α] (w : List α) : Pattern α := w.foldr (fun a r => .seq (.letter (· == a)) r) .empty

/-- The texts it stands for. -/
def language : Pattern α → Language α
  | .never => 0
  | .empty => 1
  | .letter p => {w | ∃ a, p a = true ∧ w = [a]}
  | .seq r s => r.language * s.language
  | .alt r s => r.language + s.language
  | .star r => KStar.kstar r.language

/-! ## Members -/

theorem mem_letter {p : α → Bool} {a : α} (h : p a = true) : [a] ∈ (letter p).language := ⟨a, h, rfl⟩

theorem append_mem_seq {r s : Pattern α} {u v : List α} (hu : u ∈ r.language) (hv : v ∈ s.language) :
    u ++ v ∈ (seq r s).language := Language.append_mem_mul hu hv

theorem mem_alt {r s : Pattern α} {w : List α} : w ∈ (alt r s).language ↔ w ∈ r.language ∨ w ∈ s.language :=
  Language.mem_add _ _ w

theorem nil_mem_optional (r : Pattern α) : [] ∈ (optional r).language := mem_alt.mpr (.inl rfl)

theorem mem_word [DecidableEq α] (w : List α) : w ∈ (word w).language := by
  induction w with
  | nil => rfl
  | cons a w ih =>
    have hsplit : a :: w = [a] ++ w := rfl
    rw [hsplit]
    exact append_mem_seq (mem_letter (beq_self_eq_true a)) ih

theorem mem_star_letter {p : α → Bool} {w : List α} (h : ∀ a ∈ w, p a = true) :
    w ∈ (star (letter p)).language := by
  refine Language.mem_kstar.mpr ⟨w.map fun a => [a], ?_, fun y hy => ?_⟩
  · rw [← List.flatMap_def, List.flatMap_singleton']
  · obtain ⟨a, ha, rfl⟩ := List.mem_map.mp hy
    exact mem_letter (h a ha)

theorem mem_plus_letter {p : α → Bool} {w : List α} (hne : w ≠ []) (h : ∀ a ∈ w, p a = true) :
    w ∈ (plus (letter p)).language := by
  obtain ⟨a, w, rfl⟩ := List.exists_cons_of_ne_nil hne
  obtain ⟨ha, hw⟩ := List.forall_mem_cons.mp h
  exact append_mem_seq (u := [a]) (mem_letter ha) (mem_star_letter hw)

/-! ## Derivatives -/

/-- Whether the empty text is in the language. -/
def nullable : Pattern α → Bool
  | .never => false
  | .empty => true
  | .letter _ => false
  | .seq r s => r.nullable && s.nullable
  | .alt r s => r.nullable || s.nullable
  | .star _ => true

/-- What is left of the pattern behind a letter. -/
def derive (a : α) : Pattern α → Pattern α
  | .never => .never
  | .empty => .never
  | .letter p => if p a then .empty else .never
  | .seq r s => if r.nullable then .alt (.seq (r.derive a) s) (s.derive a) else .seq (r.derive a) s
  | .alt r s => .alt (r.derive a) (s.derive a)
  | .star r => .seq (r.derive a) (.star r)

theorem nullable_iff (r : Pattern α) : r.nullable = true ↔ [] ∈ r.language := by
  induction r with
  | never => exact ⟨fun h => absurd h Bool.false_ne_true, fun h => absurd h (Language.notMem_zero _)⟩
  | empty => exact ⟨fun _ => rfl, fun _ => rfl⟩
  | letter p =>
    constructor
    · exact fun h => absurd h Bool.false_ne_true
    · rintro ⟨a, -, h⟩
      cases h
  | seq r s ihr ihs =>
    rw [nullable, Bool.and_eq_true, ihr, ihs, language, Language.mem_mul]
    constructor
    · exact fun ⟨hr, hs⟩ => ⟨[], hr, [], hs, rfl⟩
    · rintro ⟨u, hu, v, hv, huv⟩
      obtain ⟨rfl, rfl⟩ := List.append_eq_nil_iff.mp huv
      exact ⟨hu, hv⟩
  | alt r s ihr ihs => rw [nullable, Bool.or_eq_true, ihr, ihs, mem_alt]
  | star r => exact ⟨fun _ => Language.nil_mem_kstar _, fun _ => rfl⟩

theorem cons_mem_mul {l m : Language α} {a : α} {w : List α} :
    a :: w ∈ l * m ↔ (∃ u v, w = u ++ v ∧ a :: u ∈ l ∧ v ∈ m) ∨ [] ∈ l ∧ a :: w ∈ m := by
  rw [Language.mem_mul]
  constructor
  · rintro ⟨u, hu, v, hv, huv⟩
    cases u with
    | nil => exact .inr ⟨hu, huv ▸ hv⟩
    | cons b u =>
      obtain ⟨rfl, rfl⟩ := List.cons.inj huv
      exact .inl ⟨u, v, rfl, hu, hv⟩
  · rintro (⟨u, v, rfl, hu, hv⟩ | ⟨hnil, hw⟩)
    · exact ⟨a :: u, hu, v, hv, rfl⟩
    · exact ⟨[], hnil, a :: w, hw, rfl⟩

theorem cons_mem_kstar {l : Language α} {a : α} {w : List α} :
    a :: w ∈ KStar.kstar l ↔ ∃ u v, w = u ++ v ∧ a :: u ∈ l ∧ v ∈ KStar.kstar l := by
  constructor
  · intro h
    obtain ⟨pieces, hw, hpieces⟩ := Language.mem_kstar_iff_exists_nonempty.mp h
    cases pieces with
    | nil => cases hw
    | cons piece pieces =>
      obtain ⟨hpiece, hrest⟩ := List.forall_mem_cons.mp hpieces
      obtain ⟨b, u, rfl⟩ := List.exists_cons_of_ne_nil hpiece.2
      rw [List.flatten_cons, List.cons_append] at hw
      obtain ⟨rfl, rfl⟩ := List.cons.inj hw
      exact ⟨u, pieces.flatten, rfl, hpiece.1, Language.mem_kstar.mpr ⟨pieces, rfl, fun y hy => (hrest y hy).1⟩⟩
  · rintro ⟨u, v, rfl, hu, hv⟩
    obtain ⟨pieces, rfl, hpieces⟩ := Language.mem_kstar.mp hv
    exact Language.mem_kstar.mpr ⟨(a :: u) :: pieces, rfl, List.forall_mem_cons.mpr ⟨hu, hpieces⟩⟩

theorem mem_derive (a : α) (r : Pattern α) (w : List α) :
    w ∈ (r.derive a).language ↔ a :: w ∈ r.language := by
  induction r generalizing w with
  | never => exact ⟨fun h => absurd h (Language.notMem_zero _), fun h => absurd h (Language.notMem_zero _)⟩
  | empty =>
    constructor
    · exact fun h => absurd h (Language.notMem_zero _)
    · intro h
      cases h
  | letter p =>
    rw [derive]
    split
    · rename_i ha
      constructor
      · intro h
        obtain rfl : w = [] := h
        exact mem_letter ha
      · rintro ⟨b, -, hw⟩
        exact (List.cons.inj hw).2
    · rename_i ha
      constructor
      · exact fun h => absurd h (Language.notMem_zero _)
      · rintro ⟨b, hb, hw⟩
        exact absurd ((List.cons.inj hw).1 ▸ hb) ha
  | seq r s ihr ihs =>
    have hleft : w ∈ (seq (r.derive a) s).language ↔
        ∃ u v, w = u ++ v ∧ a :: u ∈ r.language ∧ v ∈ s.language := by
      rw [language, Language.mem_mul]
      constructor
      · rintro ⟨u, hu, v, hv, rfl⟩
        exact ⟨u, v, rfl, (ihr u).mp hu, hv⟩
      · rintro ⟨u, v, rfl, hu, hv⟩
        exact ⟨u, (ihr u).mpr hu, v, hv, rfl⟩
    rw [derive, language, cons_mem_mul]
    split
    · rename_i hnull
      rw [mem_alt, hleft, ihs]
      exact or_congr_right ⟨fun h => ⟨(nullable_iff r).mp hnull, h⟩, fun h => h.2⟩
    · rename_i hnull
      rw [hleft]
      exact ⟨.inl, fun h => h.resolve_right fun hr => hnull ((nullable_iff r).mpr hr.1)⟩
  | alt r s ihr ihs => rw [derive, mem_alt, mem_alt, ihr, ihs]
  | star r ih =>
    rw [derive, language, language, cons_mem_kstar, Language.mem_mul]
    constructor
    · rintro ⟨u, hu, v, hv, rfl⟩
      exact ⟨u, v, rfl, (ih u).mp hu, hv⟩
    · rintro ⟨u, v, rfl, hu, hv⟩
      exact ⟨u, (ih u).mpr hu, v, hv, rfl⟩

/-! ## Reading a text -/

/-- Whether a text begins with one of the language. -/
def matchPrefix : Pattern α → List α → Bool
  | r, [] => r.nullable
  | r, a :: w => r.nullable || matchPrefix (r.derive a) w

/-- Whether one of the language is somewhere in a text. -/
def search (r : Pattern α) : List α → Bool
  | [] => matchPrefix r []
  | a :: w => matchPrefix r (a :: w) || search r w

theorem matchPrefix_iff {r : Pattern α} {w : List α} :
    matchPrefix r w = true ↔ ∃ u v, w = u ++ v ∧ u ∈ r.language := by
  induction w generalizing r with
  | nil =>
    rw [matchPrefix, nullable_iff]
    constructor
    · exact fun h => ⟨[], [], rfl, h⟩
    · rintro ⟨u, v, huv, hu⟩
      obtain ⟨rfl, -⟩ := List.append_eq_nil_iff.mp huv.symm
      exact hu
  | cons a w ih =>
    rw [matchPrefix, Bool.or_eq_true, nullable_iff, ih]
    constructor
    · rintro (hnil | ⟨u, v, rfl, hu⟩)
      · exact ⟨[], a :: w, rfl, hnil⟩
      · exact ⟨a :: u, v, rfl, (mem_derive a r u).mp hu⟩
    · rintro ⟨u, v, huv, hu⟩
      cases u with
      | nil => exact .inl hu
      | cons b u =>
        obtain ⟨rfl, rfl⟩ := List.cons.inj huv
        exact .inr ⟨u, v, rfl, (mem_derive a r u).mpr hu⟩

theorem search_iff {r : Pattern α} {w : List α} :
    search r w = true ↔ ∃ before u after, w = before ++ u ++ after ∧ u ∈ r.language := by
  induction w with
  | nil =>
    rw [search, matchPrefix_iff]
    constructor
    · rintro ⟨u, v, huv, hu⟩
      exact ⟨[], u, v, huv, hu⟩
    · rintro ⟨before, u, after, hw, hu⟩
      obtain ⟨hbefore, rfl⟩ := List.append_eq_nil_iff.mp hw.symm
      obtain ⟨-, rfl⟩ := List.append_eq_nil_iff.mp hbefore
      exact ⟨[], [], rfl, hu⟩
  | cons a w ih =>
    rw [search, Bool.or_eq_true, matchPrefix_iff, ih]
    constructor
    · rintro (⟨u, v, hw, hu⟩ | ⟨before, u, after, rfl, hu⟩)
      · exact ⟨[], u, v, hw, hu⟩
      · exact ⟨a :: before, u, after, rfl, hu⟩
    · rintro ⟨before, u, after, hw, hu⟩
      cases before with
      | nil => exact .inl ⟨u, after, hw, hu⟩
      | cons b before =>
        obtain ⟨-, rfl⟩ := List.cons.inj hw
        exact .inr ⟨before, u, after, rfl, hu⟩

end Pattern
