import Mathlib.Algebra.Order.Group.Int
import Mathlib.Data.Nat.Find
import Mathlib.Logic.Equiv.Defs
import Newsbaoter.Support.Calendar

/-!
# Dates by their day numbers

A year goes on until the next one begins, and so does a month in it.  The last of
them that begins no later than a day is the one that the day is in, so every day
has one date.
-/

namespace Newsbaoter
namespace Support

/-! ## The year of a day -/

theorem yearStart_succ (y : ℤ) :
    yearStart (y + 1) = yearStart y + 365 + if isLeap y then 1 else 0 := by
  rw [yearStart, yearStart, leapsBefore_succ]
  split
  · omega
  · omega

theorem yearStart_lt_iff {x y : ℤ} : yearStart x < yearStart y ↔ x < y := by
  refine StrictMono.lt_iff_lt (strictMono_int_of_lt_succ fun y => ?_)
  rw [yearStart_succ]
  split
  · omega
  · omega

/-- By the mean length of a year in 400; it is one off at most. -/
def guessedYear (n : ℤ) : ℤ :=
  1970 + 400 * n / 146097

def yearOf (n : ℤ) : ℤ :=
  if n < yearStart (guessedYear n) then guessedYear n - 1
  else if n < yearStart (guessedYear n + 1) then guessedYear n
  else guessedYear n + 1

theorem yearStart_guessedYear_pred_le (n : ℤ) : yearStart (guessedYear n - 1) ≤ n := by
  simp only [yearStart, leapsBefore, guessedYear]
  omega

theorem lt_yearStart_guessedYear (n : ℤ) : n < yearStart (guessedYear n + 2) := by
  simp only [yearStart, leapsBefore, guessedYear]
  omega

theorem yearOf_spec (n : ℤ) : yearStart (yearOf n) ≤ n ∧ n < yearStart (yearOf n + 1) := by
  rw [yearOf]
  split
  · next hbefore =>
      rw [Int.sub_add_cancel]
      exact ⟨yearStart_guessedYear_pred_le n, hbefore⟩
  · next hfrom =>
      split
      · next hbefore => exact ⟨Int.not_lt.mp hfrom, hbefore⟩
      · next hlater =>
          rw [Int.add_assoc]
          exact ⟨Int.not_lt.mp hlater, lt_yearStart_guessedYear n⟩

theorem le_yearOf_iff {y n : ℤ} : y ≤ yearOf n ↔ yearStart y ≤ n := by
  obtain ⟨hle, hlt⟩ := yearOf_spec n
  constructor
  · intro hy
    exact Int.le_trans (Int.not_lt.mp fun hlt => hy.not_gt (yearStart_lt_iff.mp hlt)) hle
  · intro hy
    have hbefore : y < yearOf n + 1 := yearStart_lt_iff.mp (Int.lt_of_le_of_lt hy hlt)
    omega

theorem yearOf_lt_iff {y n : ℤ} : yearOf n < y ↔ n < yearStart y := by
  rw [← Int.not_le, ← Int.not_le, le_yearOf_iff]

theorem yearOf_eq {n y : ℤ} (hle : yearStart y ≤ n) (hlt : n < yearStart (y + 1)) :
    yearOf n = y := by
  have hfrom : y ≤ yearOf n := le_yearOf_iff.mpr hle
  have hbefore : yearOf n < y + 1 := yearOf_lt_iff.mpr hlt
  omega

/-! ## The month of a day -/

theorem daysBeforeMonth_zero (y : ℤ) : daysBeforeMonth y 0 = 0 := by
  simp [daysBeforeMonth]

theorem daysBeforeMonth_succ (y : ℤ) {m : ℕ} (hm : m < 12) :
    daysBeforeMonth y (m + 1) = daysBeforeMonth y m + daysInMonth y m := by
  have htable : ∀ leap : Bool, ∀ m < 12,
      [0, 31, 59, 90, 120, 151, 181, 212, 243, 273, 304, 334].getD (m + 1) 365 +
          (if 2 ≤ m + 1 ∧ leap then 1 else 0) =
        [0, 31, 59, 90, 120, 151, 181, 212, 243, 273, 304, 334].getD m 365 +
            (if 2 ≤ m ∧ leap then 1 else 0) +
          if m = 1 ∧ leap then 29
          else [31, 28, 31, 30, 31, 30, 31, 31, 30, 31, 30, 31].getD m 0 := by
    decide
  exact htable (isLeap y) m hm

/-- The end of December is the end of the year. -/
theorem yearStart_add_daysBeforeMonth (y : ℤ) :
    yearStart y + daysBeforeMonth y 12 = yearStart (y + 1) := by
  have htwelve : daysBeforeMonth y 12 = 365 + if isLeap y then 1 else 0 := by
    simp [daysBeforeMonth]
  rw [yearStart_succ, htwelve]
  split
  · omega
  · omega

theorem daysBeforeMonth_mono (y : ℤ) {m m' : ℕ} (hle : m ≤ m') (hm' : m' ≤ 12) :
    daysBeforeMonth y m ≤ daysBeforeMonth y m' := by
  induction m', hle using Nat.le_induction with
  | base => exact Nat.le_refl _
  | succ m' hle ih =>
      rw [daysBeforeMonth_succ y hm']
      exact Nat.le_add_right_of_le (ih (Nat.le_of_succ_le hm'))

/-- The month of the day that `r` days of the year are before. -/
def monthOf (y : ℤ) (r : ℕ) : ℕ :=
  Nat.findGreatest (fun m => daysBeforeMonth y m ≤ r) 11

theorem monthOf_lt (y : ℤ) (r : ℕ) : monthOf y r < 12 :=
  Nat.lt_succ_of_le (Nat.findGreatest_le 11)

theorem daysBeforeMonth_monthOf_le (y : ℤ) (r : ℕ) : daysBeforeMonth y (monthOf y r) ≤ r := by
  have hjanuary : daysBeforeMonth y 0 ≤ r := by
    rw [daysBeforeMonth_zero]
    exact Nat.zero_le r
  exact Nat.findGreatest_spec (P := fun m => daysBeforeMonth y m ≤ r) (Nat.zero_le 11) hjanuary

theorem lt_daysBeforeMonth_monthOf_succ {y : ℤ} {r : ℕ} (hr : r < daysBeforeMonth y 12) :
    r < daysBeforeMonth y (monthOf y r + 1) := by
  rcases Nat.lt_or_ge (monthOf y r) 11 with hlt | hge
  · exact Nat.not_le.mp (Nat.findGreatest_is_greatest (P := fun m => daysBeforeMonth y m ≤ r)
      (Nat.lt_succ_self (monthOf y r)) hlt)
  · have hdecember : monthOf y r = 11 := Nat.le_antisymm (Nat.findGreatest_le 11) hge
    rw [hdecember]
    exact hr

theorem monthOf_eq {y : ℤ} {r m : ℕ} (hm : m < 12) (hle : daysBeforeMonth y m ≤ r)
    (hlt : r < daysBeforeMonth y (m + 1)) :
    monthOf y r = m := by
  refine Nat.findGreatest_eq_iff.mpr ⟨Nat.le_of_lt_succ hm, fun _ => hle, fun m' hm' hm'le => ?_⟩
  have hmono : daysBeforeMonth y (m + 1) ≤ daysBeforeMonth y m' :=
    daysBeforeMonth_mono y hm' (Nat.le_succ_of_le hm'le)
  omega

/-! ## Dates -/

@[ext] structure Date where
  year : ℤ
  month : ℕ
  day : ℕ
  month_lt : month < 12
  day_mem : 1 ≤ day ∧ day ≤ daysInMonth year month

def Date.number (d : Date) : ℤ :=
  days d.year d.month d.day

/-- The days of its year before a day. -/
def dayOfYear (n : ℤ) : ℕ :=
  (n - yearStart (yearOf n)).toNat

theorem yearStart_add_dayOfYear (n : ℤ) : yearStart (yearOf n) + dayOfYear n = n := by
  have hspec := yearOf_spec n
  rw [dayOfYear]
  omega

theorem dayOfYear_lt (n : ℤ) : dayOfYear n < daysBeforeMonth (yearOf n) 12 := by
  have hspec := yearOf_spec n
  have hend := yearStart_add_daysBeforeMonth (yearOf n)
  have hday := yearStart_add_dayOfYear n
  omega

def dateOf (n : ℤ) : Date where
  year := yearOf n
  month := monthOf (yearOf n) (dayOfYear n)
  day := dayOfYear n - daysBeforeMonth (yearOf n) (monthOf (yearOf n) (dayOfYear n)) + 1
  month_lt := monthOf_lt _ _
  day_mem := by
    have hle := daysBeforeMonth_monthOf_le (yearOf n) (dayOfYear n)
    have hlt := lt_daysBeforeMonth_monthOf_succ (dayOfYear_lt n)
    rw [daysBeforeMonth_succ _ (monthOf_lt _ _)] at hlt
    omega

theorem number_dateOf (n : ℤ) : (dateOf n).number = n := by
  have hle := daysBeforeMonth_monthOf_le (yearOf n) (dayOfYear n)
  have hday := yearStart_add_dayOfYear n
  rw [Date.number, days]
  simp only [dateOf]
  omega

theorem Date.dateOf_number (d : Date) : dateOf d.number = d := by
  have hday := d.day_mem
  have hsucc := daysBeforeMonth_succ d.year d.month_lt
  have hend := yearStart_add_daysBeforeMonth d.year
  have hmono : daysBeforeMonth d.year (d.month + 1) ≤ daysBeforeMonth d.year 12 :=
    daysBeforeMonth_mono d.year d.month_lt (Nat.le_refl 12)
  have hnumber :
      d.number = yearStart d.year + (daysBeforeMonth d.year d.month + (d.day - 1) : ℕ) := by
    rw [Date.number, days]
    omega
  have hyear : yearOf d.number = d.year := yearOf_eq (by omega) (by omega)
  have hdayOfYear : dayOfYear d.number = daysBeforeMonth d.year d.month + (d.day - 1) := by
    rw [dayOfYear, hyear, hnumber]
    omega
  have hmonth : monthOf (yearOf d.number) (dayOfYear d.number) = d.month := by
    rw [hyear]
    exact monthOf_eq d.month_lt (by omega) (by omega)
  refine Date.ext hyear hmonth ?_
  simp only [dateOf]
  rw [hmonth, hyear]
  omega

/-- The dates of the calendar are the day numbers. -/
def dates : Date ≃ ℤ where
  toFun := Date.number
  invFun := dateOf
  left_inv := Date.dateOf_number
  right_inv := number_dateOf

end Support
end Newsbaoter
