import Newsbaoter.Core.Text

/-!
# The words of a line, and numbers among them

`get_line_word` cuts a line at its blanks, and `copy_int` stores the first word
of an option as a number.
-/

namespace Newsbaoter
namespace Config

def isBlank (b : UInt8) : Bool :=
  b == 32 || b == 9

/-- The word and what `*next` points to; `none` is `NULL`. -/
def getLineWord (buf : CStr) : Option (CStr × CStr) :=
  if buf = [] then none
  else
    let np := buf.dropWhile fun b => !isBlank b
    some (buf.takeWhile fun b => !isBlank b, np.tail.dropWhile isBlank)

/-- The option after `copy_int`, and what `copy_int` returns. -/
def copyInt (id : ℤ) (next : CStr) : ℤ × ℤ :=
  match getLineWord next with
  | none => (id, 1)
  | some (v, _) =>
      if v.head? = some 121 ∨ v.head? = some 89 then (1, 0)
      else if v.head? = some 110 ∨ v.head? = some 78 then (0, 0)
      else (toInt (strtol v), 0)

example : copyInt 1 (ascii "-1 # never") = (-1, 0) := by decide

end Config
end Newsbaoter
