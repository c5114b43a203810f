import Newsbaoter.Support.Calendar
import Newsbaoter.View.Listing

/-!
# The date functions of glibc

`strptime` with the format `"%F %T %z"` and `strftime` with `"%s"`, as glibc has
them.  `%F` and `%T` are read into a copy that is taken over as a whole, `%z`
sets `tm_gmtoff` alone, and nothing sets `tm_isdst`; `%s` is `mktime`, which goes
by the local zone and by `tm_isdst`.
-/

namespace Newsbaoter
namespace Dates

open Newsbaoter.Cache (TimeLib Tm)
open Newsbaoter.Support
open Newsbaoter.View (decimalLong)

/-! ## `strptime` -/

/-- The digits `get_number` goes on to read, `n` at most, while the number can
stay within `hi`. -/
def readDigits (hi : ℕ) : ℕ → ℕ → CStr → ℕ × CStr
  | n + 1, val, b :: rp =>
      if isDigit b ∧ val * 10 ≤ hi then readDigits hi n (val * 10 + (b.toNat - 48)) rp
      else (val, b :: rp)
  | _, val, rp => (val, rp)

/-- `get_number(lo,hi,n)` -/
def getNumber (lo hi n : ℕ) (rp : CStr) : Option (ℕ × CStr) :=
  let rp := rp.dropWhile isSpace
  if (rp.head?.map isDigit).getD false then
    let r := readDigits hi n 0 rp
    if lo ≤ r.1 ∧ r.1 ≤ hi then some r else none
  else none

/-- `match_char` -/
def matchChar (b : UInt8) : CStr → Option CStr
  | c :: rp => if c = b then some rp else none
  | [] => none

/-- `%F`, that is `"%Y-%m-%d"`. -/
def readDate (rp : CStr) : Option ((ℕ × ℕ × ℕ) × CStr) := do
  let (year, rp) ← getNumber 0 9999 4 rp
  let rp ← matchChar 45 rp
  let (month, rp) ← getNumber 1 12 2 rp
  let rp ← matchChar 45 rp
  let (day, rp) ← getNumber 1 31 2 rp
  return ((year, month, day), rp)

/-- `%T`, that is `"%H:%M:%S"`. -/
def readTime (rp : CStr) : Option ((ℕ × ℕ × ℕ) × CStr) := do
  let (hour, rp) ← getNumber 0 23 2 rp
  let rp ← matchChar 58 rp
  let (minute, rp) ← getNumber 0 59 2 rp
  let rp ← matchChar 58 rp
  let (second, rp) ← getNumber 0 61 2 rp
  return ((hour, minute, second), rp)

/-- A colon between the hours and the minutes of an offset is passed over. -/
def skipColon (n : ℕ) : CStr → CStr
  | 58 :: b :: rp => if n = 2 ∧ isDigit b then b :: rp else 58 :: b :: rp
  | rp => rp

/-- How many digits an offset has, four at most, and their number; `n` of them
are read and `k` may follow. -/
def offsetDigits : ℕ → ℕ → ℕ → CStr → ℕ × ℕ
  | k + 1, n, val, b :: rp =>
      if isDigit b then
        offsetDigits k (n + 1) (val * 10 + (b.toNat - 48)) (skipColon (n + 1) rp)
      else (n, val)
  | _, n, val, _ => (n, val)

/-- `%z` -/
def readOffset (rp : CStr) : Option ℤ :=
  match rp.dropWhile isSpace with
  | [] => none
  | b :: rp =>
      if b = 90 then some 0
      else if b = 43 ∨ b = 45 then
        let sign : ℤ := if b = 45 then -1 else 1
        let seconds := fun val => sign * ((val / 100) * 3600 + (val % 100) * 60 : ℕ)
        match offsetDigits 4 0 0 rp with
        | (2, val) => some (seconds (val * 100))
        | (4, val) => if 60 ≤ val % 100 then none else some (seconds val)
        | _ => none
      else none

/-- `strptime(s,"%F %T %z",&tp)`; the flag says that it does not return NULL. -/
def strptime (s : CStr) (tp : Tm) : Tm × Bool :=
  match readDate s with
  | none => (tp, false)
  | some ((year, month, day), rp) =>
      let tp := { tp with year := year - 1900, mon := month - 1, mday := day }
      match readTime (rp.dropWhile isSpace) with
      | none => (tp, false)
      | some ((hour, minute, second), rp) =>
          let tp := { tp with hour := hour, min := minute, sec := second }
          match readOffset (rp.dropWhile isSpace) with
          | none => (tp, false)
          | some gmtoff =>
              let start := yearStart year
              let today := days year (month - 1) day
              ({ tp with gmtoff := gmtoff, wday := (today + 4) % 7, yday := today - start }, true)

/-! ## `strftime` -/

/-- A local time zone, as `mktime` applies it: what it takes from the seconds of
a civil time for a value of `tm_isdst`.  An offset is less than a week. -/
structure Zone where
  offset : ℤ → ℤ → ℤ
  bound : ∀ civil isdst, (offset civil isdst).natAbs < 604800

/-- The seconds of a broken-down time, whose fields need not be in range. -/
def civil (tp : Tm) : ℤ :=
  86400 * days (tp.year + 1900 + tp.mon / 12) (tp.mon % 12).toNat tp.mday +
    3600 * tp.hour + 60 * tp.min + tp.sec

def mktime (zone : Zone) (tp : Tm) : ℤ :=
  civil tp - zone.offset (civil tp) tp.isdst

/-- `strftime(dst,20,"%s",&tp)`; what does not fit leaves the empty text that was
there. -/
def strftime (zone : Zone) (tp : Tm) : CStr :=
  let s := decimalLong (mktime zone tp)
  if s.length < 20 then s else []

def glibc (zone : Zone) : TimeLib where
  strptime s tp := (strptime s tp).1
  strftime := strftime zone

/-- A zone that is always `seconds` ahead. -/
def fixedZone (seconds : ℤ) (h : seconds.natAbs < 604800) : Zone where
  offset _ _ := seconds
  bound _ _ := h

end Dates
end Newsbaoter
