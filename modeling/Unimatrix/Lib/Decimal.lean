import Mathlib.Data.Char
import Mathlib.Data.List.Lex
import Mathlib.Order.Basic
import Mathlib.Tactic.Ring

/-!
# Padded decimals

`pad n w` writes `n` in decimal with zeros in front up to `w` digits. Numbers of at most `w` digits are written in
the same width, and then their texts sort as they do: **`pad_append_lt`**, whatever follows the digits.
-/

namespace Decimal

/-- `n` in decimal, padded with zeros to `w` digits. -/
def pad (n w : Nat) : List Char :=
  let s := Nat.toDigits 10 n
  if w ≤ s.length then s else List.replicate (w - s.length) '0' ++ s

theorem ofDigitChars_pad (n w : Nat) : Nat.ofDigitChars 10 (pad n w) 0 = n := by
  unfold pad
  simp only
  split
  · exact Nat.ofDigitChars_ten_toDigits
  · rw [Nat.ofDigitChars_append, Nat.ofDigitChars_replicate_zero, Nat.mul_zero,
      Nat.ofDigitChars_ten_toDigits]

theorem isDigit_of_mem_pad {n w : Nat} {c : Char} (h : c ∈ pad n w) : c.isDigit := by
  unfold pad at h
  simp only at h
  split at h
  · exact Nat.isDigit_of_mem_toDigits (by decide) (by decide) h
  · rcases List.mem_append.mp h with h | h
    · rw [List.eq_of_mem_replicate h]
      rfl
    · exact Nat.isDigit_of_mem_toDigits (by decide) (by decide) h

/-- A number of at most `w` digits takes `w` characters. -/
theorem length_pad {n w : Nat} (hw : 0 < w) (h : n < 10 ^ w) : (pad n w).length = w := by
  have hle : (Nat.toDigits 10 n).length ≤ w := (Nat.length_toDigits_le_iff (by decide) hw).mpr h
  unfold pad
  simp only
  split
  · omega
  · rw [List.length_append, List.length_replicate]
    omega

/-- The value of a digit is below ten. -/
theorem digit_lt {c : Char} (h : c.isDigit) : c.toNat - '0'.toNat < 10 ∧ '0'.toNat ≤ c.toNat := by
  unfold Char.isDigit at h
  simp only [ge_iff_le, Bool.and_eq_true, decide_eq_true_eq, UInt32.le_iff_toNat_le] at h
  have h' : 48 ≤ c.toNat ∧ c.toNat ≤ 57 := h
  change c.toNat - 48 < 10 ∧ 48 ≤ c.toNat
  omega

theorem ofDigitChars_lt {l : List Char} (h : ∀ c ∈ l, c.isDigit) :
    Nat.ofDigitChars 10 l 0 < 10 ^ l.length := by
  induction l with
  | nil => exact Nat.one_pos
  | cons c l ih =>
    obtain ⟨hc, hl⟩ := List.forall_mem_cons.mp h
    have hlt := ih hl
    have hd := (digit_lt hc).1
    rw [Nat.ofDigitChars_cons, Nat.ofDigitChars_eq_ofDigitChars_zero, List.length_cons, Nat.pow_succ]
    calc 10 ^ l.length * (10 * 0 + (c.toNat - '0'.toNat)) + Nat.ofDigitChars 10 l 0
        < 10 ^ l.length * (10 * 0 + (c.toNat - '0'.toNat)) + 10 ^ l.length := Nat.add_lt_add_left hlt _
      _ = 10 ^ l.length * ((c.toNat - '0'.toNat) + 1) := by ring
      _ ≤ 10 ^ l.length * 10 := Nat.mul_le_mul_left _ (by omega)

/-- Two digit texts of one length with one value are equal. -/
theorem eq_of_ofDigitChars_eq {l m : List Char} (hl : ∀ c ∈ l, c.isDigit) (hm : ∀ c ∈ m, c.isDigit)
    (hlen : l.length = m.length) (h : Nat.ofDigitChars 10 l 0 = Nat.ofDigitChars 10 m 0) : l = m := by
  induction l generalizing m with
  | nil => exact (List.length_eq_zero_iff.mp hlen.symm).symm
  | cons c l ih =>
    cases m with
    | nil => cases hlen
    | cons d m =>
      obtain ⟨hc, hl⟩ := List.forall_mem_cons.mp hl
      obtain ⟨hd, hm⟩ := List.forall_mem_cons.mp hm
      have hlen' : l.length = m.length := Nat.succ.inj hlen
      rw [Nat.ofDigitChars_cons, Nat.ofDigitChars_eq_ofDigitChars_zero, Nat.ofDigitChars_cons,
        Nat.ofDigitChars_eq_ofDigitChars_zero (l := m), hlen', Nat.mul_zero, Nat.zero_add, Nat.zero_add] at h
      have hvl := ofDigitChars_lt hl
      have hvm := ofDigitChars_lt hm
      rw [hlen'] at hvl
      -- the first digits are the quotients by the weight of their place, the rests the remainders
      have hdiv := congrArg (· / 10 ^ m.length) h
      have hmod := congrArg (· % 10 ^ m.length) h
      simp only [Nat.mul_add_div (Nat.pow_pos (by decide : 0 < 10)), Nat.div_eq_of_lt hvl, Nat.div_eq_of_lt hvm,
        Nat.add_zero] at hdiv
      simp only [Nat.mul_add_mod, Nat.mod_eq_of_lt hvl, Nat.mod_eq_of_lt hvm] at hmod
      have hc' := digit_lt hc
      have hd' := digit_lt hd
      have hcd : c.toNat = d.toNat := by omega
      rw [Char.toNat_inj.mp hcd, ih hl hm hlen' hmod]

/-- The digits of a number are the digits of its quotient and of its remainder by a power of ten. -/
theorem pad_mul_add {x y w k : Nat} (hw : 0 < w) (hk : 0 < k) (hx : x < 10 ^ w) (hy : y < 10 ^ k) :
    pad (x * 10 ^ k + y) (w + k) = pad x w ++ pad y k := by
  have hlt : x * 10 ^ k + y < 10 ^ (w + k) := by
    rw [Nat.pow_add]
    calc x * 10 ^ k + y < x * 10 ^ k + 10 ^ k := Nat.add_lt_add_left hy _
      _ = (x + 1) * 10 ^ k := by ring
      _ ≤ 10 ^ w * 10 ^ k := Nat.mul_le_mul_right _ hx
  refine eq_of_ofDigitChars_eq (fun c => isDigit_of_mem_pad) (fun c hc => ?_) ?_ ?_
  · rcases List.mem_append.mp hc with h | h <;> exact isDigit_of_mem_pad h
  · rw [List.length_append, length_pad (by omega) hlt, length_pad hw hx, length_pad hk hy]
  · rw [ofDigitChars_pad, Nat.ofDigitChars_append, Nat.ofDigitChars_eq_ofDigitChars_zero, ofDigitChars_pad,
      ofDigitChars_pad, length_pad hk hy, Nat.mul_comm]

theorem pad_one {n : Nat} (h : n < 10) : pad n 1 = [n.digitChar] := by
  simp [pad, Nat.toDigits_of_lt_base h]

/-- Of two digit texts of one length the one with the smaller value sorts first, whatever follows. -/
theorem append_lt_of_ofDigitChars_lt {l m s t : List Char} (hl : ∀ c ∈ l, c.isDigit)
    (hm : ∀ c ∈ m, c.isDigit) (hlen : l.length = m.length)
    (h : Nat.ofDigitChars 10 l 0 < Nat.ofDigitChars 10 m 0) : l ++ s < m ++ t := by
  induction l generalizing m with
  | nil =>
    cases m with
    | nil => exact absurd h (lt_irrefl _)
    | cons d m => cases hlen
  | cons c l ih =>
    cases m with
    | nil => cases hlen
    | cons d m =>
      obtain ⟨hc, hl⟩ := List.forall_mem_cons.mp hl
      obtain ⟨hd, hm⟩ := List.forall_mem_cons.mp hm
      have hlen' : l.length = m.length := Nat.succ.inj hlen
      rw [Nat.ofDigitChars_cons, Nat.ofDigitChars_eq_ofDigitChars_zero, Nat.ofDigitChars_cons,
        Nat.ofDigitChars_eq_ofDigitChars_zero (l := m), hlen'] at h
      have hvl := ofDigitChars_lt hl
      have hvm := ofDigitChars_lt hm
      rw [hlen'] at hvl
      have hc' := digit_lt hc
      have hd' := digit_lt hd
      rw [List.cons_append, List.cons_append, List.cons_lt_cons_iff]
      rcases lt_trichotomy c d with hcd | hcd | hcd
      · exact .inl hcd
      · refine .inr ⟨hcd, ih hl hm hlen' ?_⟩
        rw [hcd] at h
        omega
      · -- a larger first digit outweighs the rest
        exfalso
        have hval : d.toNat < c.toNat := hcd
        have hmul : 10 ^ m.length * (10 * 0 + (d.toNat - '0'.toNat)) + 10 ^ m.length ≤
            10 ^ m.length * (10 * 0 + (c.toNat - '0'.toNat)) := by
          rw [← Nat.mul_succ]
          exact Nat.mul_le_mul_left _ (by omega)
        omega

/-- **Numbers of at most `w` digits sort as their padded texts do.** -/
theorem pad_append_lt {n m w : Nat} (hw : 0 < w) (h : n < m) (hm : m < 10 ^ w) (s t : List Char) :
    pad n w ++ s < pad m w ++ t := by
  refine append_lt_of_ofDigitChars_lt (fun c => isDigit_of_mem_pad) (fun c => isDigit_of_mem_pad) ?_ ?_
  · rw [length_pad hw (h.trans hm), length_pad hw hm]
  · rw [ofDigitChars_pad, ofDigitChars_pad]
    exact h

end Decimal
