import Mathlib.Data.List.TakeWhile
import Newsbaoter.Cache.Repeat
import Newsbaoter.Dates.Glibc
import Newsbaoter.View.Painted

/-!
# From a date text to a stored date

A text with a complete date and time settles the civil time, whatever the
`struct tm` held before; any other leaves the hour as it was.  The number that
`%s` writes comes back from `strtol`, and `sqlite3_bind_int` keeps 32 bits of it.
-/

namespace Newsbaoter
namespace Dates

open Newsbaoter.Cache (Tm bindDate blankTm)
open Newsbaoter.Support
open Newsbaoter.View (decimal decimalLong)

/-! ## Numbers as texts -/

theorem digitsValue_map
    {cs : List Char} (h : ∀ c ∈ cs, c.isDigit = true) :
    digitsValue (cs.map fun c => c.toNat.toUInt8) = Nat.ofDigitChars 10 cs 0 := by
  have hacc : ∀ acc : ℕ, (cs.map fun c => c.toNat.toUInt8).foldl
      (fun acc d => acc * 10 + ((d.toNat : ℤ) - 48)) acc = Nat.ofDigitChars 10 cs acc := by
    induction cs with
    | nil => exact fun _ => rfl
    | cons c cs ih =>
        intro acc
        have hdigit := h c List.mem_cons_self
        simp only [Char.isDigit, Bool.and_eq_true, decide_eq_true_eq] at hdigit
        have hlow : 48 ≤ c.toNat := UInt32.le_iff_toNat_le.mp hdigit.1
        have hhigh : c.toNat ≤ 57 := UInt32.le_iff_toNat_le.mp hdigit.2
        have hbyte : c.toNat.toUInt8.toNat = c.toNat := by
          rw [Nat.toUInt8_eq, UInt8.toNat_ofNat']
          omega
        have hstep : (acc : ℤ) * 10 + ((c.toNat.toUInt8.toNat : ℤ) - 48) =
            (10 * acc + (c.toNat - 48) : ℕ) := by
          rw [hbyte]
          omega
        rw [List.map_cons, List.foldl_cons, hstep, ih fun d hd => h d (List.mem_cons_of_mem c hd)]
        rfl
  exact hacc 0

theorem digitsValue_decimal (n : ℕ) : digitsValue (decimal n) = n := by
  rw [decimal, digitsValue_map, Nat.ofDigitChars_toDigits (by decide) (by decide)]
  intro c hc
  exact Nat.isDigit_of_mem_toDigits (by decide) (by decide) hc

theorem isDigit_of_mem_decimal {n : ℕ} {b : UInt8} (hb : b ∈ decimal n) : isDigit b = true := by
  obtain ⟨hlow, hhigh⟩ := View.digits_of_mem_decimal hb
  have hle : b ≤ 57 := UInt8.le_iff_toNat_le.mpr (Nat.lt_succ_iff.mp (UInt8.lt_iff_toNat_lt.mp hhigh))
  simp [isDigit, hlow, hle]

theorem takeWhile_decimal (n : ℕ) : (decimal n).takeWhile isDigit = decimal n := by
  rw [List.takeWhile_eq_self_iff]
  exact fun b hb => isDigit_of_mem_decimal hb

theorem not_isSpace_of_le {b : UInt8} (hlow : 33 ≤ b) : isSpace b = false := by
  have hnumber : 33 ≤ b.toNat := UInt8.le_iff_toNat_le.mp hlow
  by_contra hspace
  rw [Bool.not_eq_false, isSpace, Bool.or_eq_true, Bool.and_eq_true, beq_iff_eq, decide_eq_true_eq,
    decide_eq_true_eq, UInt8.le_iff_toNat_le, UInt8.le_iff_toNat_le] at hspace
  rcases hspace with rfl | ⟨-, hhigh⟩
  · exact absurd hnumber (by decide)
  · exact absurd (Nat.le_trans hnumber hhigh) (by decide)

theorem strtol_decimal (n : ℕ) : strtol (decimal n) = clampLong n := by
  have hpos := View.length_decimal_pos n
  obtain ⟨b, bs, hdecimal⟩ := List.exists_cons_of_length_pos hpos
  have hlow : 48 ≤ b := (View.digits_of_mem_decimal (n := n) (by rw [hdecimal]; simp)).1
  have hspace := not_isSpace_of_le (UInt8.le_trans (by decide) hlow)
  have hminus : (decimal n).head? ≠ some 45 := by
    rw [hdecimal]
    rintro ⟨⟩
    exact absurd hlow (by decide)
  have hplus : (decimal n).head? ≠ some 43 := by
    rw [hdecimal]
    rintro ⟨⟩
    exact absurd hlow (by decide)
  have hskip : (decimal n).dropWhile isSpace = decimal n := by
    rw [hdecimal, List.dropWhile_cons, hspace]
    rfl
  rw [strtol]
  simp only [hskip]
  rw [if_neg hminus, if_neg hplus, takeWhile_decimal, digitsValue_decimal]

/-- A number that a `long` can hold is read back. -/
theorem strtol_decimalLong {n : ℤ} (h : n.natAbs < 2 ^ 63) : strtol (decimalLong n) = n := by
  have hclamp : clampLong n = n := by
    rw [clampLong]
    omega
  rw [decimalLong]
  split
  · have hvalue : -(n.natAbs : ℤ) = n := by omega
    have hspace : isSpace 45 = false := by decide
    rw [strtol, List.dropWhile_cons, hspace]
    simp only [Bool.false_eq_true, if_false, List.head?_cons, if_true, List.tail_cons]
    rw [takeWhile_decimal, digitsValue_decimal, hvalue, hclamp]
  · have hvalue : (n.natAbs : ℤ) = n := by omega
    rw [strtol_decimal, hvalue, hclamp]

theorem length_decimalLong_lt {n : ℤ} (h : n.natAbs < 10 ^ 18) : (decimalLong n).length < 20 := by
  have hlength : (decimal n.natAbs).length ≤ 18 := by
    rw [decimal, List.length_map, Nat.length_toDigits_le_iff (by decide) (by decide)]
    exact h
  rw [decimalLong]
  split
  · rw [List.length_cons]
    omega
  · omega

/-- What is stored of a time that is not too far off. -/
theorem bindDate_strftime
    {zone : Zone} {tp : Tm} (h : (mktime zone tp).natAbs < 10 ^ 18) :
    bindDate (some (strftime zone tp)) = toInt (mktime zone tp) := by
  rw [strftime, if_pos (length_decimalLong_lt h), bindDate, Option.map_some, Option.getD_some,
    strtol_decimalLong (Nat.lt_trans h (by decide))]

/-- Numbers that are not far apart are told apart by 32 bits. -/
theorem eq_of_toInt_eq {a b : ℤ} (hclose : (a - b).natAbs < 2 ^ 32) (h : toInt a = toInt b) :
    a = b := by
  have hmod := Int.bmod_eq_bmod_iff_bmod_sub_eq_zero.mp h
  obtain ⟨k, hk⟩ := Int.dvd_of_bmod_eq_zero hmod
  omega

/-- A number is kept just if it fits. -/
theorem toInt_eq_iff {a b : ℤ} (hclose : (a - b).natAbs < 2 ^ 32) :
    toInt a = b ↔ (-2 ^ 31 ≤ b ∧ b < 2 ^ 31) ∧ a = b := by
  constructor
  · rintro rfl
    have hlow : -((2 ^ 32 : ℕ) / 2 : ℤ) ≤ toInt a := Int.le_bmod (by decide)
    have hhigh : toInt a < ((2 ^ 32 : ℕ) + 1) / 2 := Int.bmod_lt (by decide)
    have hfits : -2 ^ 31 ≤ toInt a ∧ toInt a < 2 ^ 31 := ⟨by omega, by omega⟩
    exact ⟨hfits, eq_of_toInt_eq hclose (toInt_of_fits hfits.1 hfits.2).symm⟩
  · rintro ⟨⟨hlow, hhigh⟩, rfl⟩
    exact toInt_of_fits hlow hhigh

/-! ## Texts with a complete date and time -/

/-- The civil time of a text with a complete date and time. -/
def readCivil (s : CStr) : Option ℤ := do
  let ((year, month, day), rp) ← readDate s
  let ((hour, minute, second), _) ← readTime (rp.dropWhile isSpace)
  return 86400 * days year (month - 1) day + 3600 * hour + 60 * minute + second

theorem getNumber_bounds
    {lo hi n : ℕ} {rp : CStr} {r : ℕ × CStr} (h : getNumber lo hi n rp = some r) :
    lo ≤ r.1 ∧ r.1 ≤ hi := by
  simp only [getNumber, Option.ite_none_right_eq_some] at h
  obtain ⟨-, hbounds, heq⟩ := h
  rw [← Option.some.inj heq]
  exact hbounds

theorem readDate_bounds
    {s rp : CStr} {year month day : ℕ} (h : readDate s = some ((year, month, day), rp)) :
    year ≤ 9999 ∧ (1 ≤ month ∧ month ≤ 12) ∧ 1 ≤ day ∧ day ≤ 31 := by
  simp only [readDate, Option.bind_eq_bind, Option.bind_eq_some_iff, Option.pure_def,
    Option.some.injEq] at h
  obtain ⟨⟨y, _⟩, hyear, _, -, ⟨m, _⟩, hmonth, _, -, ⟨d, _⟩, hday, heq⟩ := h
  cases heq
  exact ⟨(getNumber_bounds hyear).2, getNumber_bounds hmonth, getNumber_bounds hday⟩

theorem readTime_bounds
    {s rp : CStr} {hour minute second : ℕ}
    (h : readTime s = some ((hour, minute, second), rp)) :
    hour ≤ 23 ∧ minute ≤ 59 ∧ second ≤ 61 := by
  simp only [readTime, Option.bind_eq_bind, Option.bind_eq_some_iff, Option.pure_def,
    Option.some.injEq] at h
  obtain ⟨⟨y, _⟩, hhour, _, -, ⟨m, _⟩, hminute, _, -, ⟨d, _⟩, hsecond, heq⟩ := h
  cases heq
  exact ⟨(getNumber_bounds hhour).2, (getNumber_bounds hminute).2, (getNumber_bounds hsecond).2⟩

/-- Nothing sets `tm_isdst`. -/
@[simp] theorem strptime_isdst (s : CStr) (tp : Tm) : (strptime s tp).1.isdst = tp.isdst := by
  rw [strptime]
  split
  · rfl
  · dsimp only
    split
    · rfl
    · split
      · rfl
      · rfl

theorem civil_strptime
    {s : CStr} {c : ℤ} (h : readCivil s = some c) (tp : Tm) :
    civil (strptime s tp).1 = c := by
  simp only [readCivil, Option.bind_eq_bind, Option.bind_eq_some_iff, Option.pure_def,
    Option.some.injEq] at h
  obtain ⟨⟨⟨year, month, day⟩, rp⟩, hdate, ⟨⟨hour, minute, second⟩, rp'⟩, htime, rfl⟩ := h
  obtain ⟨-, ⟨hlow, hhigh⟩, -⟩ := readDate_bounds hdate
  have hyear : (year : ℤ) - 1900 + 1900 + ((month : ℤ) - 1) / 12 = year := by omega
  have hmonth : (((month : ℤ) - 1) % 12).toNat = month - 1 := by omega
  simp only [strptime, hdate, htime]
  cases readOffset (rp'.dropWhile isSpace) with
  | none => simp only [civil, hyear, hmonth]
  | some gmtoff => simp only [civil, hyear, hmonth]

def atHour (tp : Tm) (n : ℤ) : Tm :=
  { tp with hour := n }

/-- Without a complete time the hour stays, and NULL is returned. -/
theorem strptime_atHour
    {s : CStr} (h : readCivil s = none) (tp : Tm) (n : ℤ) :
    strptime s (atHour tp n) = (atHour (strptime s tp).1 n, false) := by
  cases hdate : readDate s with
  | none => simp only [strptime, hdate]
  | some r =>
      obtain ⟨⟨year, month, day⟩, rp⟩ := r
      cases htime : readTime (rp.dropWhile isSpace) with
      | none => simp only [strptime, hdate, htime, atHour]
      | some time => simp [readCivil, hdate, htime] at h

theorem civil_atHour (tp : Tm) (n : ℤ) : civil (atHour tp n) = civil (atHour tp 0) + 3600 * n := by
  simp only [civil, atHour]
  omega

/-! ## Times that are not too far off -/

/-- Fields that are in range, or nearly so. -/
structure Near (tp : Tm) : Prop where
  year : tp.year.natAbs ≤ 9999
  mon : 0 ≤ tp.mon ∧ tp.mon ≤ 11
  mday : 0 ≤ tp.mday ∧ tp.mday ≤ 31
  hour : tp.hour.natAbs ≤ 1000
  min : 0 ≤ tp.min ∧ tp.min ≤ 59
  sec : 0 ≤ tp.sec ∧ tp.sec ≤ 61

theorem near_blankTm : Near blankTm where
  year := by decide
  mon := by decide
  mday := by decide
  hour := by decide
  min := by decide
  sec := by decide

theorem Near.atHour
    {tp : Tm} (h : Near tp) {n : ℤ} (hn : n.natAbs ≤ 1000) :
    Near (atHour tp n) :=
  { h with hour := hn }

theorem Near.strptime
    {tp : Tm} (h : Near tp) (s : CStr) :
    Near (strptime s tp).1 := by
  rw [Dates.strptime]
  split
  · exact h
  · next year month day rp hdate =>
      obtain ⟨hyear, hmonth, hday⟩ := readDate_bounds hdate
      dsimp only
      split
      · exact ⟨by dsimp only; omega, by dsimp only; omega, by dsimp only; omega,
          h.hour, h.min, h.sec⟩
      · next hour minute second rp' htime =>
          obtain ⟨hhour, hminute, hsecond⟩ := readTime_bounds htime
          split
          · exact ⟨by dsimp only; omega, by dsimp only; omega, by dsimp only; omega,
              by dsimp only; omega, by dsimp only; omega, by dsimp only; omega⟩
          · exact ⟨by dsimp only; omega, by dsimp only; omega, by dsimp only; omega,
              by dsimp only; omega, by dsimp only; omega, by dsimp only; omega⟩

theorem Near.natAbs_civil_lt {tp : Tm} (h : Near tp) : (civil tp).natAbs < 10 ^ 12 := by
  obtain ⟨hyear, hmon, hmday, hhour, hmin, hsec⟩ := h
  have hmonth := daysBeforeMonth_le (tp.year + 1900 + tp.mon / 12) (tp.mon % 12).toNat
  have hstart : (yearStart (tp.year + 1900 + tp.mon / 12)).natAbs < 10 ^ 7 := by
    simp only [yearStart, leapsBefore]
    omega
  rw [civil, days]
  omega

theorem mktime_natAbs_lt
    (zone : Zone) {tp : Tm} (h : (civil tp).natAbs < 10 ^ 12) :
    (mktime zone tp).natAbs < 10 ^ 18 := by
  have hoffset := zone.bound (civil tp) tp.isdst
  rw [mktime]
  omega

theorem natAbs_readCivil_lt {s : CStr} {c : ℤ} (h : readCivil s = some c) : c.natAbs < 10 ^ 12 := by
  rw [← civil_strptime h blankTm]
  exact (near_blankTm.strptime s).natAbs_civil_lt

/-- What a date field stores for its text. -/
def storedDate (zone : Zone) (s : CStr) (tp : Tm) : ℤ :=
  bindDate (some (strftime zone (strptime s tp).1))

/-- What is stored for a complete text depends on the `struct tm` in its
`tm_isdst` alone. -/
theorem storedDate_of_readCivil
    {s : CStr} {c : ℤ} (h : readCivil s = some c) (zone : Zone) (tp : Tm) :
    storedDate zone s tp = toInt (c - zone.offset c tp.isdst) := by
  have hcivil := civil_strptime h tp
  have hnear := mktime_natAbs_lt zone (by rw [hcivil]; exact natAbs_readCivil_lt h)
  rw [storedDate, bindDate_strftime hnear, mktime, hcivil, strptime_isdst]

end Dates
end Newsbaoter
