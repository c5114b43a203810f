import Mathlib.Data.Int.Order.Basic
import Mathlib.Data.List.GetD

/-!
# The Gregorian calendar

Days counted from 1 January 1970, for any year.  Months count from zero, and
days of a month from one; a day past the end of its month counts on into the
next one.
-/

namespace Newsbaoter
namespace Support

def isLeap (y : ℤ) : Bool :=
  y % 4 == 0 && (y % 100 != 0 || y % 400 == 0)

def daysInMonth (y : ℤ) (m : ℕ) : ℕ :=
  if m = 1 ∧ isLeap y then 29 else [31, 28, 31, 30, 31, 30, 31, 31, 30, 31, 30, 31].getD m 0

/-- The days of a year before its month `m`. -/
def daysBeforeMonth (y : ℤ) (m : ℕ) : ℕ :=
  [0, 31, 59, 90, 120, 151, 181, 212, 243, 273, 304, 334].getD m 365 +
    if 2 ≤ m ∧ isLeap y then 1 else 0

/-- The leap years before `y`, from some year on. -/
def leapsBefore (y : ℤ) : ℤ :=
  (y - 1) / 4 - (y - 1) / 100 + (y - 1) / 400

/-- The first day of a year. -/
def yearStart (y : ℤ) : ℤ :=
  365 * (y - 1970) + (leapsBefore y - leapsBefore 1970)

def days (y : ℤ) (m : ℕ) (d : ℤ) : ℤ :=
  yearStart y + daysBeforeMonth y m + (d - 1)

theorem daysBeforeMonth_le (y : ℤ) (m : ℕ) : daysBeforeMonth y m ≤ 366 := by
  have htable : [0, 31, 59, 90, 120, 151, 181, 212, 243, 273, 304, 334].getD m 365 ≤ 365 := by
    rcases Nat.lt_or_ge m 12 with hlt | hge
    · have hall : ∀ m < 12,
          [0, 31, 59, 90, 120, 151, 181, 212, 243, 273, 304, 334].getD m 365 ≤ 365 := by
        decide
      exact hall m hlt
    · exact Nat.le_of_eq (List.getD_eq_default _ _ hge)
  rw [daysBeforeMonth]
  split
  · omega
  · omega

/-- The day after the last day of a month is the first of the next one. -/
theorem days_month_end
    (y : ℤ) {m : ℕ} (hm : m < 11) :
    days y m (daysInMonth y m + 1) = days y (m + 1) 1 := by
  have hlengths : ∀ leap : Bool, ∀ m < 11,
      [0, 31, 59, 90, 120, 151, 181, 212, 243, 273, 304, 334].getD m 365 +
          (if 2 ≤ m ∧ leap then 1 else 0) +
        (if m = 1 ∧ leap then 29
          else [31, 28, 31, 30, 31, 30, 31, 31, 30, 31, 30, 31].getD m 0) =
        [0, 31, 59, 90, 120, 151, 181, 212, 243, 273, 304, 334].getD (m + 1) 365 +
          if 2 ≤ m + 1 ∧ leap then 1 else 0 := by
    decide
  have hmonth : daysBeforeMonth y m + daysInMonth y m = daysBeforeMonth y (m + 1) :=
    hlengths (isLeap y) m hm
  rw [days, days, ← hmonth]
  omega

theorem leapsBefore_succ (y : ℤ) :
    leapsBefore (y + 1) = leapsBefore y + if isLeap y then 1 else 0 := by
  simp only [leapsBefore, isLeap, Bool.and_eq_true, Bool.or_eq_true, beq_iff_eq, bne_iff_ne]
  split
  · omega
  · omega

/-- The day after the last of December is the first of the next year. -/
theorem days_year_end (y : ℤ) : days y 11 (daysInMonth y 11 + 1) = days (y + 1) 0 1 := by
  have hlength : daysInMonth y 11 = 31 := by
    simp [daysInMonth]
  have hleaps := leapsBefore_succ y
  have hdecember : daysBeforeMonth y 11 = 334 + if isLeap y then 1 else 0 := by
    simp [daysBeforeMonth]
  have hjanuary : daysBeforeMonth (y + 1) 0 = 0 := by
    simp [daysBeforeMonth]
  rw [days, days, hlength, hdecember, hjanuary, yearStart, yearStart, hleaps]
  split
  · omega
  · omega

example : days 1970 0 1 = 0 ∧ days 2000 1 29 = 11016 := by decide

end Support
end Newsbaoter
