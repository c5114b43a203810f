import Mathlib.Algebra.Ring.Int.Defs
import Mathlib.Algebra.Ring.Nat
import Mathlib.Data.Int.Order.Basic
import Mathlib.Data.List.Basic

/-!
# C strings and C numbers

Byte strings as the program handles them, the decimal conversion it applies to
them, and the narrowing of a `long` to an `int`.
-/

namespace Newsbaoter

/-- The bytes of a C string, without the terminating NUL. -/
abbrev CStr := List UInt8

/-- The bytes of an ASCII literal of the source. -/
def ascii (s : String) : CStr :=
  s.toList.map fun c => c.toNat.toUInt8

/-- `isspace` in the C locale. -/
def isSpace (b : UInt8) : Bool :=
  b == 32 || (9 ≤ b && b ≤ 13)

def isDigit (b : UInt8) : Bool :=
  48 ≤ b && b ≤ 57

def digitsValue (ds : CStr) : ℤ :=
  ds.foldl (fun acc d => acc * 10 + ((d.toNat : ℤ) - 48)) 0

/-- A mathematical result clamped to the range of a 64-bit `long`. -/
def clampLong (n : ℤ) : ℤ :=
  max (-2 ^ 63) (min (2 ^ 63 - 1) n)

/-- `strtol(s,NULL,10)`: leading white space, an optional sign, then the
longest run of digits; no digits give `0`. -/
def strtol (s : CStr) : ℤ :=
  let t := s.dropWhile isSpace
  if t.head? = some 45 then
    clampLong (-digitsValue (t.tail.takeWhile isDigit))
  else if t.head? = some 43 then
    clampLong (digitsValue (t.tail.takeWhile isDigit))
  else
    clampLong (digitsValue (t.takeWhile isDigit))

/-- Assignment of a `long` to a 32-bit `int`. -/
def toInt (n : ℤ) : ℤ :=
  n.bmod (2 ^ 32)

example : toInt (strtol (ascii " -12x")) = -12 := by decide

/-- A number that fits is kept. -/
theorem toInt_of_fits {n : ℤ} (hlow : -2 ^ 31 ≤ n) (hhigh : n < 2 ^ 31) : toInt n = n :=
  Int.bmod_eq_of_le (by omega) (by omega)

/-- The order of two `int`s is that of their places behind the smallest `int`. -/
theorem toInt_lt_iff (a b : ℤ) :
    toInt a < toInt b ↔ (a + 2 ^ 31) % 2 ^ 32 < (b + 2 ^ 31) % 2 ^ 32 := by
  have hplace : ∀ n, toInt n = (n + 2 ^ 31) % 2 ^ 32 - 2 ^ 31 := by
    intro n
    rw [toInt, Int.bmod_def]
    split
    · omega
    · omega
  rw [hplace, hplace]
  omega

/-- Whether one of two steps raises an `int` does not depend on their order,
even if they overrun it: if neither does, the two of them go down together. -/
theorem rises_comm (n a b : ℤ) :
    (toInt n < toInt (n + a) ∨ toInt (n + a) < toInt (n + a + b)) ↔
      (toInt n < toInt (n + b) ∨ toInt (n + b) < toInt (n + b + a)) := by
  simp only [toInt_lt_iff]
  omega

end Newsbaoter
