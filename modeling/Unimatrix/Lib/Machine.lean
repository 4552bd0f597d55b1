import Mathlib.Data.List.Basic
import Mathlib.Order.Lattice

/-!
# Machine arithmetic and slices as partial functions

Unsigned machine integers are natural numbers. An operation that panics out of range returns an
`Option`, and `none` is the panic: `subOr` (plain `-`), `drainTo` (`Vec::drain(0..n)`),
`sliceFrom` (`&v[n..]`), `copyInto` (`v[at..at + len].copy_from_slice(..)`). The saturating and
checked additions of a 64-bit integer are total.

Each partial operation has one lemma saying what it returns inside its range.
-/

namespace Machine

/-- `u64::MAX`. -/
def u64Max : Nat := 18446744073709551615

/-- `u32::MAX`. -/
def u32Max : Nat := 4294967295

/-- `u64::checked_add`. -/
def checkedAdd (a b : Nat) : Option Nat := if a + b ≤ u64Max then some (a + b) else none

/-- `u64::saturating_add`. -/
def satAdd (a b : Nat) : Nat := min (a + b) u64Max

/-- `u32::saturating_add`. -/
def satAdd32 (a b : Nat) : Nat := min (a + b) u32Max

/-- `a - b` on an unsigned integer. -/
def subOr (a b : Nat) : Option Nat := if b ≤ a then some (a - b) else none

theorem satAdd_eq {a b : Nat} (h : a + b ≤ u64Max) : satAdd a b = a + b := min_eq_left h

@[simp] theorem satAdd_zero {a : Nat} (h : a ≤ u64Max) : satAdd a 0 = a := satAdd_eq h

theorem subOr_eq {a b : Nat} (h : b ≤ a) : subOr a b = some (a - b) := if_pos h

section Slices

variable {β : Type}

/-- `Vec::drain(0..n)`: what is left. -/
def drainTo (v : List β) (n : Nat) : Option (List β) :=
  if n ≤ v.length then some (v.drop n) else none

/-- `&v[n..]`. -/
def sliceFrom (v : List β) (n : Nat) : Option (List β) :=
  if n ≤ v.length then some (v.drop n) else none

/-- `v[n..n + bytes.len()].copy_from_slice(bytes)`. -/
def copyInto (v : List β) (n : Nat) (bytes : List β) : Option (List β) :=
  if n + bytes.length ≤ v.length then
    some (v.take n ++ bytes ++ v.drop (n + bytes.length))
  else none

/-- `Vec::resize(n, fill)`. -/
def resize (v : List β) (n : Nat) (fill : β) : List β :=
  v.take n ++ List.replicate (n - v.length) fill

theorem drainTo_eq {v : List β} {n : Nat} (h : n ≤ v.length) : drainTo v n = some (v.drop n) :=
  if_pos h

theorem sliceFrom_eq {v : List β} {n : Nat} (h : n ≤ v.length) :
    sliceFrom v n = some (v.drop n) := if_pos h

theorem copyInto_eq {v : List β} {n : Nat} {bytes : List β} (h : n + bytes.length ≤ v.length) :
    copyInto v n bytes = some (v.take n ++ bytes ++ v.drop (n + bytes.length)) := if_pos h

@[simp] theorem length_resize (v : List β) (n : Nat) (fill : β) :
    (resize v n fill).length = n := by
  unfold resize
  rw [List.length_append, List.length_take, List.length_replicate]
  omega

/-- Growing keeps what was there. -/
theorem getElem?_resize_of_lt {v : List β} {n i : Nat} (fill : β) (hn : v.length ≤ n)
    (hi : i < v.length) : (resize v n fill)[i]? = v[i]? := by
  unfold resize
  rw [List.take_of_length_le hn, List.getElem?_append_left hi]

/-- Growing fills with `fill`. -/
theorem getElem?_resize_of_ge {v : List β} {n i : Nat} (fill : β) (hi : v.length ≤ i)
    (hn : i < n) : (resize v n fill)[i]? = some fill := by
  unfold resize
  rw [List.take_of_length_le (by omega), List.getElem?_append_right hi,
    List.getElem?_replicate_of_lt (by omega)]

/-- Reading after a copy: the copied values in their stretch, the old ones elsewhere. -/
theorem getElem?_copied {v bytes : List β} {n : Nat} (h : n + bytes.length ≤ v.length) (i : Nat) :
    (v.take n ++ bytes ++ v.drop (n + bytes.length))[i]? =
      if n ≤ i ∧ i < n + bytes.length then bytes[i - n]? else v[i]? := by
  have ht : (v.take n).length = n := List.length_take_of_le (by omega)
  have htb : (v.take n ++ bytes).length = n + bytes.length := by rw [List.length_append, ht]
  by_cases h1 : i < n
  · rw [if_neg (by omega), List.append_assoc, List.getElem?_append_left (by omega),
      List.getElem?_take_of_lt h1]
  · by_cases h2 : i < n + bytes.length
    · rw [if_pos ⟨by omega, h2⟩, List.getElem?_append_left (by omega),
        List.getElem?_append_right (by omega), ht]
    · rw [if_neg (by omega), List.getElem?_append_right (by omega), htb, List.getElem?_drop]
      congr 1
      omega

end Slices

end Machine
