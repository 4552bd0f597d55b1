import Mathlib.Data.List.Basic
import Mathlib.Data.List.Induction
import Mathlib.Data.List.TakeWhile

/-!
# Streaks

`streak p l` is how many elements at the end of `l` satisfy `p`, one after the other. **`le_streak_iff`**: it is at least `n`
exactly if `l` has `n` elements at its end, and they all satisfy `p`.
-/

namespace Streak

variable {α : Type} (p : α → Prop) [DecidablePred p]

/-- The length of the streak at the end. -/
def streak (l : List α) : Nat := (l.reverse.takeWhile fun a => p a).length

@[simp] theorem streak_nil : streak p [] = 0 := rfl

theorem streak_concat (l : List α) (a : α) : streak p (l ++ [a]) = if p a then streak p l + 1 else 0 := by
  unfold streak
  rw [List.reverse_concat, List.takeWhile_cons]
  by_cases ha : p a
  · rw [if_pos (decide_eq_true ha), if_pos ha, List.length_cons]
  · rw [if_neg (by simpa using ha), if_neg ha, List.length_nil]

variable {p}

/-- **A streak is at least `n` long exactly if the last `n` elements are there and satisfy `p`.** -/
theorem le_streak_iff {n : Nat} {l : List α} :
    n ≤ streak p l ↔ ∃ front back, l = front ++ back ∧ back.length = n ∧ ∀ a ∈ back, p a := by
  induction l using List.reverseRecOn generalizing n with
  | nil =>
    constructor
    · intro h
      exact ⟨[], [], rfl, (Nat.le_zero.mp h).symm, fun a ha => absurd ha List.not_mem_nil⟩
    · rintro ⟨front, back, heq, rfl, -⟩
      rw [(List.append_eq_nil_iff.mp heq.symm).2]
      exact le_rfl
  | append_singleton l a ih =>
    rw [streak_concat]
    cases n with
    | zero => exact iff_of_true (Nat.zero_le _) ⟨l ++ [a], [], (List.append_nil _).symm, rfl, fun b hb => absurd hb List.not_mem_nil⟩
    | succ n =>
      constructor
      · intro h
        by_cases ha : p a
        · rw [if_pos ha] at h
          obtain ⟨front, back, rfl, hlength, hall⟩ := ih.mp (Nat.le_of_succ_le_succ h)
          refine ⟨front, back ++ [a], List.append_assoc .., by rw [List.length_append, hlength]; rfl, fun b hb => ?_⟩
          rcases List.mem_append.mp hb with hb | hb
          · exact hall b hb
          · exact List.mem_singleton.mp hb ▸ ha
        · rw [if_neg ha] at h
          exact absurd h (Nat.not_succ_le_zero n)
      · rintro ⟨front, back, heq, hlength, hall⟩
        obtain ⟨back, b, rfl⟩ := (List.eq_nil_or_concat' back).resolve_left (List.ne_nil_of_length_eq_add_one hlength)
        rw [← List.append_assoc] at heq
        obtain ⟨rfl, hb⟩ := List.append_inj' heq rfl
        obtain rfl := List.singleton_inj.mp hb
        rw [if_pos (hall a (List.mem_append_right _ (List.mem_singleton_self a)))]
        rw [List.length_append, List.length_singleton] at hlength
        exact Nat.succ_le_succ (ih.mpr ⟨front, back, rfl, Nat.succ.inj hlength, fun b hb =>
          hall b (List.mem_append_left _ hb)⟩)

end Streak
