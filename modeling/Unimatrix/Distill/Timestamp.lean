import Mathlib.Data.Int.DivMod
import Unimatrix.Lib.Encode

/-!
# Timestamps of transcript records

Model of `parse_iso8601_to_epoch_ms` and `days_from_civil` of `distill_scope.rs`.

The parser reads the bytes of a string by index and stops early in two ways: `return None`, and a panic where an index is
out of range (`Stop`). **`parse_inRange`**: the second does not happen, so `candidateEpochMs` may forget the difference.

A string is its code points. The `i64` arithmetic is on dates of the years 0 to 9999 and is exact.
-/

namespace Unimatrix.Distill

/-- A string. -/
abbrev Str : Type := List Char

/-- How a function stops before its end. -/
inductive Stop where
  | none
  | outOfRange
  deriving DecidableEq, Repr

/-- A function that may stop early. -/
abbrev Read : Type → Type := Except Stop

/-- `bytes[i]`. -/
def index (bytes : List UInt8) (i : Nat) : Read UInt8 :=
  match bytes[i]? with
  | some b => .ok b
  | none => .error .outOfRange

/-- The byte of an ASCII character. -/
def byte (c : Char) : UInt8 := UInt8.ofNat c.toNat

/-- `digit(b)?`. -/
def digit (b : UInt8) : Read Nat := if 0x30 ≤ b ∧ b ≤ 0x39 then .ok (b.toNat - 0x30) else .error .none

/-- `two(i)?`. -/
def two (bytes : List UInt8) (i : Nat) : Read Nat := do
  let tens ← digit (← index bytes i)
  let ones ← digit (← index bytes (i + 1))
  .ok (tens * 10 + ones)

/-- `four(i)?`. -/
def four (bytes : List UInt8) (i : Nat) : Read Nat := do
  let high ← two bytes i
  let low ← two bytes (i + 2)
  .ok (high * 100 + low)

/-- The loop over the digits of the fraction: `idx`, `frac_digits` and `frac_val` behind it. -/
def fractionFrom : List UInt8 → Nat → Nat → Nat → Nat × Nat × Nat
  | [], idx, fracDigits, fracVal => (idx, fracDigits, fracVal)
  | b :: rest, idx, fracDigits, fracVal =>
    if 0x30 ≤ b ∧ b ≤ 0x39 then
      if fracDigits < 3 then fractionFrom rest (idx + 1) (fracDigits + 1) (fracVal * 10 + (b.toNat - 0x30))
      else fractionFrom rest (idx + 1) fracDigits fracVal
    else (idx, fracDigits, fracVal)

/-- The optional fraction: where it ends, and its milliseconds. -/
def fraction (bytes : List UInt8) : Nat × Nat :=
  if bytes[19]? = some (byte '.') then
    let (idx, fracDigits, fracVal) := fractionFrom (bytes.drop 20) 20 0 0
    (idx, fracVal * 10 ^ (3 - fracDigits))
  else (19, 0)

/-- The optional time zone at `idx`, in seconds. -/
def tzOffsetSecs (bytes : List UInt8) (idx : Nat) : Read Int := do
  if idx < bytes.length then
    let b ← index bytes idx
    if b = byte 'Z' ∨ b = byte 'z' then .ok 0
    else if b = byte '+' ∨ b = byte '-' then
      let sign : Int := if b = byte '-' then -1 else 1
      if bytes.length < idx + 3 then .error .none
      else
        let oh ← two bytes (idx + 1)
        let mstart := if bytes[idx + 3]? = some (byte ':') then idx + 4 else idx + 3
        let om ← if idx + 5 ≤ bytes.length ∧ mstart + 2 ≤ bytes.length then two bytes mstart else .ok 0
        .ok (sign * (oh * 3600 + om * 60))
    else .error .none
  else .ok 0

/-- `days_from_civil`. -/
def daysFromCivil (y : Int) (m d : Nat) : Int :=
  let y := if m ≤ 2 then y - 1 else y
  let era := (if 0 ≤ y then y else y - 399).tdiv 400
  let yoe := y - era * 400
  let doy := (153 * (if 2 < m then (m : Int) - 3 else m + 9) + 2).tdiv 5 + d - 1
  let doe := yoe * 365 + yoe.tdiv 4 - yoe.tdiv 100 + doy
  era * 146097 + doe - 719468

/-- `parse_iso8601_to_epoch_ms`, on the bytes of the string. -/
def parseIso8601ToEpochMs (bytes : List UInt8) : Read Nat := do
  if bytes.length < 19 then .error .none
  else if (← index bytes 4) ≠ byte '-' ∨ (← index bytes 7) ≠ byte '-' ∨ (← index bytes 13) ≠ byte ':' ∨
      (← index bytes 16) ≠ byte ':' then .error .none
  else if (← index bytes 10) ∉ [byte 'T', byte 't', byte ' '] then .error .none
  else
    let year ← four bytes 0
    let month ← two bytes 5
    let day ← two bytes 8
    let hour ← two bytes 11
    let min ← two bytes 14
    let sec ← two bytes 17
    if month < 1 ∨ 12 < month ∨ day < 1 ∨ 31 < day ∨ 23 < hour ∨ 59 < min ∨ 60 < sec then .error .none
    else
      let (idx, millis) := fraction bytes
      let tz ← tzOffsetSecs bytes idx
      let days := daysFromCivil year month day
      let secs : Int := days * 86400 + hour * 3600 + min * 60 + sec - tz
      let epochMs := secs * 1000 + millis
      if epochMs < 0 then .error .none else .ok epochMs.toNat

/-- `candidate_epoch_ms`. -/
def candidateEpochMs (ts : Option Str) : Option Nat :=
  ts.bind fun s => (parseIso8601ToEpochMs (Utf8.encode s)).toOption

example : candidateEpochMs (some "2026-02-28T23:59:60.25+05:30".toList) = some 1772303400250 := by decide

/-! ## Indices -/

/-- No index is out of range. -/
def InRange {α : Type} (r : Read α) : Prop := r ≠ .error .outOfRange

theorem inRange_ok {α : Type} (a : α) : InRange (.ok a : Read α) := fun h => by cases h

theorem inRange_none {α : Type} : InRange (.error .none : Read α) := fun h => by cases h

theorem InRange.bind {α β : Type} {r : Read α} {f : α → Read β} (hr : InRange r) (hf : ∀ a, InRange (f a)) :
    InRange (r >>= f) := by
  cases r with
  | error e => exact fun h => hr (by cases h; rfl)
  | ok a => exact hf a

theorem index_inRange {bytes : List UInt8} {i : Nat} (h : i < bytes.length) : InRange (index bytes i) := by
  unfold index
  rw [List.getElem?_eq_getElem h]
  exact inRange_ok _

theorem digit_inRange (b : UInt8) : InRange (digit b) := by
  unfold digit
  split
  · exact inRange_ok _
  · exact inRange_none

theorem two_inRange {bytes : List UInt8} {i : Nat} (h : i + 1 < bytes.length) : InRange (two bytes i) :=
  (index_inRange (by omega)).bind fun _ => (digit_inRange _).bind fun _ => (index_inRange h).bind fun _ =>
    (digit_inRange _).bind fun _ => inRange_ok _

theorem four_inRange {bytes : List UInt8} {i : Nat} (h : i + 3 < bytes.length) : InRange (four bytes i) :=
  (two_inRange (by omega)).bind fun _ => (two_inRange (by omega)).bind fun _ => inRange_ok _

theorem tzOffsetSecs_inRange (bytes : List UInt8) (idx : Nat) : InRange (tzOffsetSecs bytes idx) := by
  unfold tzOffsetSecs
  split
  · rename_i hidx
    refine (index_inRange hidx).bind fun b => ?_
    split
    · exact inRange_ok _
    · split
      · dsimp only
        split
        · exact inRange_none
        · refine (two_inRange (by omega)).bind fun oh => ?_
          generalize (if bytes[idx + 3]? = some (byte ':') then idx + 4 else idx + 3) = mstart
          split
          · exact (two_inRange (by omega)).bind fun om => inRange_ok _
          · exact inRange_ok _
      · exact inRange_none
  · exact inRange_ok _

/-- **The parser indexes within the string.** -/
theorem parse_inRange (bytes : List UInt8) : InRange (parseIso8601ToEpochMs bytes) := by
  unfold parseIso8601ToEpochMs
  split
  · exact inRange_none
  · refine (index_inRange (by omega)).bind fun _ => (index_inRange (by omega)).bind fun _ =>
      (index_inRange (by omega)).bind fun _ => (index_inRange (by omega)).bind fun _ => ?_
    split
    · exact inRange_none
    · refine (index_inRange (by omega)).bind fun _ => ?_
      split
      · exact inRange_none
      · refine (four_inRange (by omega)).bind fun _ => (two_inRange (by omega)).bind fun _ =>
          (two_inRange (by omega)).bind fun _ => (two_inRange (by omega)).bind fun _ =>
          (two_inRange (by omega)).bind fun _ => (two_inRange (by omega)).bind fun _ => ?_
        split
        · exact inRange_none
        · refine (tzOffsetSecs_inRange bytes _).bind fun _ => ?_
          dsimp only
          split
          · exact inRange_none
          · exact inRange_ok _

end Unimatrix.Distill
