import Mathlib.Tactic.IntervalCases
import Mathlib.Tactic.Linarith

/-!
# Civil dates

The Gregorian calendar, carried back to the year 0: which years are leap years, how long the months are, and the number
of a day, counted from the first of January of the year 0. `dayNumber` adds up the years and the months that are over;
`daysBeforeYear_add` and `daysUpToMonth_eq` are the closed forms that day arithmetic uses in its place.

A day number is also defined for days past the end of a month: those are days of the next month. `IsDate` are the dates
that exist.
-/

namespace Civil

/-- A leap year. -/
def IsLeap (y : Nat) : Prop := y % 4 = 0 ∧ (y % 100 ≠ 0 ∨ y % 400 = 0)

instance : DecidablePred IsLeap := fun y => inferInstanceAs (Decidable (y % 4 = 0 ∧ (y % 100 ≠ 0 ∨ y % 400 = 0)))

/-- The days of February. -/
def februaryDays (y : Nat) : Nat := if IsLeap y then 29 else 28

/-- The days of the month `m` of the year `y`. -/
def monthDays (y m : Nat) : Nat :=
  if m = 2 then februaryDays y else if m = 4 ∨ m = 6 ∨ m = 9 ∨ m = 11 then 30 else 31

/-- The days of the months up to `m`. -/
def daysUpToMonth (y : Nat) : Nat → Nat
  | 0 => 0
  | m + 1 => daysUpToMonth y m + monthDays y (m + 1)

/-- The days of the year `y`. -/
def yearDays (y : Nat) : Nat := daysUpToMonth y 12

/-- The days of the years before `y`. -/
def daysBeforeYear : Nat → Nat
  | 0 => 0
  | y + 1 => daysBeforeYear y + yearDays y

/-- The days before a date. -/
def dayNumber (y m d : Nat) : Nat := daysBeforeYear y + daysUpToMonth y (m - 1) + (d - 1)

/-- A date that exists. -/
def IsDate (y m d : Nat) : Prop := 1 ≤ m ∧ m ≤ 12 ∧ 1 ≤ d ∧ d ≤ monthDays y m

theorem yearDays_eq (y : Nat) : yearDays y = 337 + februaryDays y := by
  simp [yearDays, daysUpToMonth, monthDays]
  omega

/-- Every fourth year is leap, but for the centuries, but for every fourth of those. -/
theorem leap_count (y : Nat) : (if IsLeap y then 1 else 0) + (if y % 100 = 0 then 1 else 0) =
    (if y % 4 = 0 then 1 else 0) + if y % 400 = 0 then 1 else 0 := by
  by_cases hy400 : y % 400 = 0
  · have hy100 : y % 100 = 0 := by omega
    have hy4 : y % 4 = 0 := by omega
    have hleap : IsLeap y := ⟨hy4, .inr hy400⟩
    simp only [hleap, hy100, hy4, hy400, if_true]
  · by_cases hy100 : y % 100 = 0
    · have hy4 : y % 4 = 0 := by omega
      have hleap : ¬ IsLeap y := fun h => h.2.elim (fun h => h hy100) hy400
      simp only [hleap, hy100, hy4, hy400, if_true, if_false]
    · by_cases hy4 : y % 4 = 0
      · have hleap : IsLeap y := ⟨hy4, .inl hy100⟩
        simp only [hleap, hy100, hy4, hy400, if_true, if_false]
      · have hleap : ¬ IsLeap y := fun h => hy4 h.1
        simp only [hleap, hy100, hy4, hy400, if_false]

/-- The days before a year, with the leap years before it counted. -/
theorem daysBeforeYear_add (y : Nat) :
    daysBeforeYear y + (y + 99) / 100 = 365 * y + (y + 3) / 4 + (y + 399) / 400 := by
  induction y with
  | zero => rfl
  | succ y ih =>
    have hdays : yearDays y = 365 + if IsLeap y then 1 else 0 := by
      rw [yearDays_eq, februaryDays]
      split <;> rfl
    have h4 : (y + 1 + 3) / 4 = (y + 3) / 4 + if y % 4 = 0 then 1 else 0 := by split <;> omega
    have h100 : (y + 1 + 99) / 100 = (y + 99) / 100 + if y % 100 = 0 then 1 else 0 := by split <;> omega
    have h400 : (y + 1 + 399) / 400 = (y + 399) / 400 + if y % 400 = 0 then 1 else 0 := by split <;> omega
    have hleap := leap_count y
    rw [daysBeforeYear, hdays, h4, h100, h400]
    linarith only [ih, hleap]

/-- The same up to the end of February: with the leap day of the year itself. -/
theorem daysBeforeYear_leap (y : Nat) :
    daysBeforeYear y + (if IsLeap y then 1 else 0) + y / 100 = 365 * y + y / 4 + y / 400 + 1 := by
  have hdays := daysBeforeYear_add y
  have h4 : (y + 3) / 4 + (if y % 4 = 0 then 1 else 0) = y / 4 + 1 := by split <;> omega
  have h100 : (y + 99) / 100 + (if y % 100 = 0 then 1 else 0) = y / 100 + 1 := by split <;> omega
  have h400 : (y + 399) / 400 + (if y % 400 = 0 then 1 else 0) = y / 400 + 1 := by split <;> omega
  have hleap := leap_count y
  linarith only [hdays, h4, h100, h400, hleap]

/-- From March on the months before come to thirty days and three fifths each. -/
theorem daysUpToMonth_eq (y : Nat) {m : Nat} (h : m ≤ 9) :
    daysUpToMonth y (m + 2) = 31 + februaryDays y + (153 * m + 2) / 5 := by
  interval_cases m <;> simp [daysUpToMonth, monthDays]

theorem dayNumber_newYear (y : Nat) : dayNumber y 1 1 = daysBeforeYear y := rfl

/-- The first of January 1970. -/
theorem dayNumber_epoch : dayNumber 1970 1 1 = 719528 := by
  have h := daysBeforeYear_add 1970
  rw [dayNumber_newYear]
  omega

end Civil
