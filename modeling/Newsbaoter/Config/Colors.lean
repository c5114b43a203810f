import Newsbaoter.Config.Words
import Mathlib.Data.List.Nodup

/-!
# The colour option

`copy_color` names a colour slot, a foreground, a background and any number of
attributes.  Two colour numbers are packed into one 32-bit word.
-/

namespace Newsbaoter
namespace Config

/-- The words of a line, as the loops over `get_line_word` see them. -/
def wordsIn : ℕ → CStr → List CStr
  | 0, _ => []
  | rounds + 1, buf =>
      match getLineWord buf with
      | none => []
      | some (v, next) => v :: wordsIn rounds next

/-- Every word takes at least one byte. -/
def lineWords (buf : CStr) : List CStr :=
  wordsIn buf.length buf

/-- `nbcolor_t`. -/
structure NbColor where
  color : UInt32
  attr : UInt32
  set : Bool
deriving DecidableEq

/-- A slot after `memset`. -/
def NbColor.unset : NbColor := ⟨0, 0, false⟩

/-- `color_type_strings`; the index is that of the slot. -/
def colorTypeStrings : List CStr :=
  [ascii "notacolor", ascii "listnormal", ascii "listfocus", ascii "listnormal_unread",
    ascii "listfocus_unread", ascii "info", ascii "article", ascii "background"]

/-- `color_name_strings`. -/
def colorNameStrings : List CStr :=
  [ascii "black", ascii "red", ascii "green", ascii "yellow", ascii "blue",
    ascii "magenta", ascii "cyan", ascii "white"]

/-- The index of a string in a table, or `-1`. -/
def indexIn (strings : List CStr) (s : CStr) : ℤ :=
  match strings.findIdx? (· == s) with
  | some i => i
  | none => -1

def getColorTypeIndex (s : CStr) : ℤ :=
  indexIn colorTypeStrings s

/-- A name, or a number behind `color`. -/
def getColorNameIndex (s : CStr) : ℤ :=
  if (ascii "color").isPrefixOf s then toInt (strtol (s.drop (ascii "color").length))
  else indexIn colorNameStrings s

/-- `NCURSES_BITS(1U,n)`. -/
def ncursesBit (n : UInt32) : UInt32 :=
  1 <<< (n + 8)

/-- `curses_attr_map`. -/
def cursesAttrMap : List (CStr × UInt32) :=
  [(ascii "standout", ncursesBit 8), (ascii "underline", ncursesBit 9),
    (ascii "reverse", ncursesBit 10), (ascii "blink", ncursesBit 11),
    (ascii "dim", ncursesBit 12), (ascii "bold", ncursesBit 13),
    (ascii "protect", ncursesBit 16), (ascii "invis", ncursesBit 15)]

def getColorAttr (s : CStr) : UInt32 :=
  match cursesAttrMap.find? fun entry => entry.1 == s with
  | some entry => entry.2
  | none => 0

/-- An `int` passed as `unsigned int`. -/
def toUnsigned (n : ℤ) : UInt32 :=
  UInt32.ofNat (n % 2 ^ 32).toNat

def setNbcolor (cfi cbi attr : UInt32) : NbColor where
  color := cfi ||| (cbi <<< 16)
  attr := attr
  set := true

/-- `get_nbcolor`: foreground, background and attributes. -/
def getNbcolor (cd : NbColor) : UInt32 × UInt32 × UInt32 :=
  (cd.color &&& 65535, cd.color >>> 16, cd.attr)

/-- `cat` after the last loop of `copy_color`. -/
def colorAttrs (next : CStr) : UInt32 :=
  (lineWords next).foldl (fun cat v => cat ||| getColorAttr v) 0

/-- The slots after `copy_color`, and what it returns. -/
def copyColor (cd : List NbColor) (next : CStr) : List NbColor × ℤ :=
  match getLineWord next with
  | none => (cd, 1)
  | some (v, next) =>
      let cti := getColorTypeIndex v
      if cti < 0 then (cd, 1)
      else match getLineWord next with
        | none => (cd, 1)
        | some (v, next) =>
            let cfi := getColorNameIndex v
            if cfi < 0 then (cd, 1)
            else match getLineWord next with
              | none => (cd, 1)
              | some (v, next) =>
                  let cbi := getColorNameIndex v
                  if cbi < 0 then (cd, 1)
                  else
                    (cd.set cti.toNat
                      (setNbcolor (toUnsigned cfi) (toUnsigned cbi) (colorAttrs next)), 0)

end Config
end Newsbaoter
