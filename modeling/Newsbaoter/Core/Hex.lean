import Newsbaoter.Core.Text

/-!
# Hexadecimal numbers

What `snprintf(s,n,"%x",c)` writes for an `int`, and what `strtol(s,NULL,16)`
reads back.
-/

namespace Newsbaoter

def hexDigit (n : ℕ) : UInt8 :=
  if n < 10 then 48 + n.toUInt8 else 87 + n.toUInt8

def hexDigitValue (b : UInt8) : ℕ :=
  if b < 97 then b.toNat - 48 else b.toNat - 87

/-- The digits of a number that has at most `places` of them. -/
def hexDigits : ℕ → ℕ → CStr
  | 0, _ => []
  | places + 1, n =>
      if n < 16 then [hexDigit n] else hexDigits places (n / 16) ++ [hexDigit (n % 16)]

/-- The text of an `int`, taken as unsigned. -/
def hexText (c : UInt32) : CStr :=
  hexDigits 8 c.toNat

/-- The value of a text of digits. -/
def hexValue (s : CStr) : ℕ :=
  s.foldl (fun acc b => acc * 16 + hexDigitValue b) 0

theorem hexDigitValue_hexDigit {n : ℕ} (h : n < 16) : hexDigitValue (hexDigit n) = n := by
  have hall : ∀ n < 16, hexDigitValue (hexDigit n) = n := by decide
  exact hall n h

theorem hexValue_concat (s : CStr) (b : UInt8) :
    hexValue (s ++ [b]) = hexValue s * 16 + hexDigitValue b := by
  simp [hexValue]

theorem hexValue_hexDigits
    {places n : ℕ} (h : n < 16 ^ (places + 1)) :
    hexValue (hexDigits (places + 1) n) = n := by
  induction places generalizing n with
  | zero =>
      have hn : n < 16 := by simpa using h
      rw [hexDigits, if_pos hn]
      simpa [hexValue] using hexDigitValue_hexDigit hn
  | succ places ih =>
      rw [hexDigits]
      split
      · rename_i hn
        simpa [hexValue] using hexDigitValue_hexDigit hn
      · have hdiv : n / 16 < 16 ^ (places + 1) := by
          rw [Nat.div_lt_iff_lt_mul (by decide)]
          rwa [pow_succ] at h
        rw [hexValue_concat, ih hdiv, hexDigitValue_hexDigit (Nat.mod_lt n (by decide))]
        omega

/-- What is written is read back. -/
theorem hexValue_hexText (c : UInt32) : hexValue (hexText c) = c.toNat :=
  hexValue_hexDigits c.toNat_lt

theorem hexText_injective : Function.Injective hexText := by
  intro c d h
  have hvalue := congrArg hexValue h
  rw [hexValue_hexText, hexValue_hexText] at hvalue
  exact UInt32.toNat_inj.mp hvalue

end Newsbaoter
