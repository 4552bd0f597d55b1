/-!
# Computations that may fail

When a computation in `Except` is a success: both of its parts are.

A fold whose step `f` may refuse, and otherwise does what `g` does, ends where the fold of `g` ends
(`foldlM_eq_foldl`), and it gets there if and only if each element is accepted where those before it lead
(`foldlM_isOk_iff`).
-/

namespace Except

variable {ε ε' α β : Type}

theorem bind_eq_ok_iff {x : Except ε α} {f : α → Except ε β} {b : β} :
    x.bind f = .ok b ↔ ∃ a, x = .ok a ∧ f a = .ok b := by
  cases x with
  | error e =>
    refine iff_of_false (fun h => by cases h) ?_
    rintro ⟨a, h, -⟩
    cases h
  | ok a =>
    constructor
    · exact fun h => ⟨a, rfl, h⟩
    · rintro ⟨a', h, hf⟩
      cases h
      exact hf

theorem bind_eq_ok {x : Except ε α} {f : α → Except ε β} {b : β} :
    x >>= f = .ok b ↔ ∃ a, x = .ok a ∧ f a = .ok b :=
  bind_eq_ok_iff

theorem andThen_eq_ok {x y : Except ε Unit} : (do x; y) = .ok () ↔ x = .ok () ∧ y = .ok () := by
  refine bind_eq_ok.trans ?_
  constructor
  · rintro ⟨_, hx, hy⟩
    exact ⟨hx, hy⟩
  · rintro ⟨hx, hy⟩
    exact ⟨(), hx, hy⟩

theorem mapError_eq_ok_iff {x : Except ε α} {f : ε → ε'} {a : α} : x.mapError f = .ok a ↔ x = .ok a := by
  cases x with
  | error e => exact iff_of_false (fun h => by cases h) fun h => by cases h
  | ok b =>
    change Except.ok b = Except.ok a ↔ Except.ok b = Except.ok a
    simp only [Except.ok.injEq]

theorem discard_eq_ok_iff {x : Except ε α} : discard x = .ok () ↔ ∃ a, x = .ok a := by
  cases x with
  | error e => exact iff_of_false (fun h => by cases h) fun ⟨_, h⟩ => by cases h
  | ok a => exact iff_of_true rfl ⟨a, rfl⟩

section Folds

variable {σ : Type} {f : σ → α → Except ε σ} {g : σ → α → σ}

theorem foldlM_eq_foldl (hf : ∀ s a s', f s a = .ok s' → s' = g s a) {l : List α} {s s' : σ}
    (h : l.foldlM f s = .ok s') : s' = l.foldl g s := by
  induction l generalizing s with
  | nil =>
    cases h
    rfl
  | cons a l ih =>
    rw [List.foldlM_cons] at h
    obtain ⟨s₁, hs₁, h⟩ := bind_eq_ok.mp h
    rw [ih h, hf s a s₁ hs₁, List.foldl_cons]

/-- **A fold goes through if and only if every element is accepted in its place.** -/
theorem foldlM_isOk_iff (hf : ∀ s a s', f s a = .ok s' → s' = g s a) {l : List α} {s : σ} :
    (∃ s', l.foldlM f s = .ok s') ↔
      ∀ pre a post, l = pre ++ a :: post → ∃ s', f (pre.foldl g s) a = .ok s' := by
  induction l generalizing s with
  | nil =>
    refine iff_of_true ⟨s, rfl⟩ fun pre a post h => ?_
    cases List.append_eq_nil_iff.mp h.symm |>.2
  | cons b l ih =>
    rw [List.foldlM_cons]
    constructor
    · rintro ⟨s', h⟩ pre a post hl
      obtain ⟨s₁, hs₁, h⟩ := bind_eq_ok.mp h
      cases pre with
      | nil =>
        cases hl
        exact ⟨s₁, hs₁⟩
      | cons c pre =>
        rw [List.cons_append, List.cons.injEq] at hl
        obtain ⟨rfl, rfl⟩ := hl
        rw [List.foldl_cons, ← hf s b s₁ hs₁]
        exact ih.mp ⟨s', h⟩ pre a post rfl
    · intro h
      obtain ⟨s₁, hs₁⟩ := h [] b l rfl
      have hrest : ∃ s', l.foldlM f s₁ = .ok s' := by
        refine ih.mpr fun pre a post hl => ?_
        have hp := h (b :: pre) a post (by rw [hl]; rfl)
        rw [List.foldl_cons, ← hf s b s₁ hs₁] at hp
        exact hp
      obtain ⟨s', hs'⟩ := hrest
      exact ⟨s', bind_eq_ok.mpr ⟨s₁, hs₁, hs'⟩⟩

end Folds

end Except
