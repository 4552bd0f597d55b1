import Mathlib.Algebra.Order.Ring.Rat
import Mathlib.Data.Rat.Sqrt

/-!
# Numbers with the operations of `f64`

What programs do with an `f64` that is no NaN: they compare, add, multiply, and read numbers of other types.

* The order is linear: the two zeros are one number. Nothing is assumed of the operations, so what is proved
  holds however they round.
* `ℚ` is an instance, with exact arithmetic. A pattern of bits is the number it stands for (`Ieee.value`).
-/

/-- `f64` without its NaNs. -/
class F64 (F : Type) extends LinearOrder F, Add F, Sub F, Mul F, Div F, Neg F, Zero F, One F, NatCast F,
    OfScientific F where
  sqrt : F → F
  powi : F → Nat → F
  /-- The number with these bits. -/
  ofBits : UInt64 → F
  /-- An `f32` with these bits, as an `f64`. -/
  ofF32 : UInt32 → F

namespace F64

variable {F : Type} [F64 F]

/-- `f64::clamp`. -/
def clamp (x lo hi : F) : F := if x < lo then lo else if hi < x then hi else x

theorem clamp_le (x : F) {lo hi : F} (h : lo ≤ hi) : clamp x lo hi ≤ hi := by
  unfold clamp
  split_ifs with hlo hhi
  · exact h
  · exact le_refl _
  · exact le_of_not_gt hhi

theorem le_clamp (x : F) {lo hi : F} (h : lo ≤ hi) : lo ≤ clamp x lo hi := by
  unfold clamp
  split_ifs with hlo hhi
  · exact le_refl _
  · exact h
  · exact le_of_not_gt hlo

theorem clamp_le_clamp {x y lo hi : F} (h : lo ≤ hi) (hxy : x ≤ y) : clamp x lo hi ≤ clamp y lo hi := by
  by_cases hx : x < lo
  · have hlow : clamp x lo hi = lo := if_pos hx
    rw [hlow]
    exact le_clamp y h
  · by_cases hy : hi < y
    · have hhigh : clamp y lo hi = hi := by
        unfold clamp
        rw [if_neg (h.trans hy.le).not_gt, if_pos hy]
      rw [hhigh]
      exact clamp_le x h
    · unfold clamp
      rw [if_neg hx, if_neg (hxy.trans (le_of_not_gt hy)).not_gt,
        if_neg ((le_of_not_gt hx).trans hxy).not_gt, if_neg hy]
      exact hxy

/-- The order of `sort_by(|a, b| f(b).partial_cmp(&f(a)))`: the largest first. -/
def descending {α : Type} (f : α → F) (a b : α) : Prop := f b ≤ f a

instance {α : Type} (f : α → F) : DecidableRel (descending f) := fun a b =>
  inferInstanceAs (Decidable (f b ≤ f a))

instance {α : Type} (f : α → F) : Std.Total (descending f) := ⟨fun a b => le_total (f b) (f a)⟩

instance {α : Type} (f : α → F) : IsTrans α (descending f) := ⟨fun _ _ _ hab hbc => le_trans hbc hab⟩

end F64

/-! ## Bits -/

namespace Ieee

/-- The number a pattern of bits stands for: a sign, `e` bits of exponent and `m` bits of fraction. -/
def value (e m : Nat) (bits : Nat) : Rat :=
  let fraction := bits % 2 ^ m
  let exponent := bits / 2 ^ m % 2 ^ e
  let bias := 2 ^ (e - 1) - 1
  let sign : Rat := if bits / 2 ^ (e + m) = 0 then 1 else -1
  if exponent = 0 then sign * (fraction : Rat) / 2 ^ (bias + m - 1)
  else sign * ((2 ^ m + fraction : Nat) : Rat) * 2 ^ exponent / 2 ^ (bias + m)

/-- `f32::is_nan` on the bits. -/
def isNan32 (bits : UInt32) : Bool := bits.toNat / 2 ^ 23 % 2 ^ 8 = 255 && bits.toNat % 2 ^ 23 ≠ 0

end Ieee

instance : F64 Rat where
  zero := 0
  one := 1
  sqrt := Rat.sqrt
  powi x n := Nat.repeat (fun y => y * x) n 1
  ofBits bits := Ieee.value 11 52 bits.toNat
  ofF32 bits := Ieee.value 8 23 bits.toNat

theorem F64.powi_rat (x : Rat) (n : Nat) : F64.powi x n = x ^ n := by
  induction n with
  | zero => exact (pow_zero x).symm
  | succ n ih =>
    rw [pow_succ, ← ih]
    rfl

example : (F64.ofBits 0x3FE0000000000000 : Rat) = 1 / 2 ∧ (F64.ofF32 0x3F800000 : Rat) = 1 := by decide +kernel
