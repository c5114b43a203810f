import Newsbaoter.Config.Words
import Mathlib.Logic.Function.Basic

/-!
# The line reader of the configuration files

`read_config_line` with `check_for_line` and `move_buf`: one buffer that is
compacted in place, grown when full, and refilled by `read`.  The buffer is a
function of the index; what it holds behind the bytes read so far is whatever
`malloc` and `realloc` left there.
-/

namespace Newsbaoter
namespace Config

/-- The bytes of one `read` that is not at the end of the file. -/
structure Chunk where
  bytes : CStr
  nonempty : bytes ≠ []

/-- The part of the file that is still to be read. -/
def content (chunks : List Chunk) : CStr :=
  (chunks.map Chunk.bytes).flatten

/-- Why a run has no result: `read` never delivers more than it is asked for,
and a loop may not be given enough rounds. -/
inductive Stop
  | oversize
  | rounds

/-- `struct conf_read`. -/
structure Conf where
  buf : ℕ → UInt8
  bAlloc : ℕ
  bStored : ℕ
  lRet : ℕ
  eof : Bool

/-- After the callers' `memset`; `garbage` is what the allocations will hold. -/
def Conf.fresh (garbage : ℕ → UInt8) : Conf where
  buf := garbage
  bAlloc := 0
  bStored := 0
  lRet := 0
  eof := false

/-- `CONF_BUF_INC`. -/
def confBufInc : ℕ := 256

/-! ## Looking for a line -/

/-- `for(;i<stop && p(buf[i]);i++)`, with `rounds` indices left. -/
def scan (p : UInt8 → Bool) (buf : ℕ → UInt8) : ℕ → ℕ → ℕ
  | 0, i => i
  | rounds + 1, i => if p (buf i) then scan p buf rounds (i + 1) else i

/-- `memmove(buf,buf+off,n)`. -/
def memmove (buf : ℕ → UInt8) (off n : ℕ) : ℕ → UInt8 :=
  fun i => if i < n then buf (i + off) else buf i

def isNewline (b : UInt8) : Bool :=
  b == 10

def moveBuf (off : ℕ) (c : Conf) : Conf :=
  { c with
    buf := memmove c.buf c.lRet (c.bStored - c.lRet)
    bStored := c.bStored - c.lRet
    lRet := off - c.lRet + 1 }

def checkForLine (c : Conf) : Conf × Bool :=
  if c.bStored ≤ c.lRet then (c, false)
  else
    let start := scan isNewline c.buf (c.bStored - c.lRet) c.lRet
    let stop := scan (fun b => !isNewline b) c.buf (c.bStored - start) start
    if stop < c.bStored then
      let buf := Function.update c.buf stop 0
      let off := scan isBlank buf (c.bStored - stop) stop
      (moveBuf off { c with buf := buf, lRet := start }, true)
    else ({ c with lRet := start }, false)

/-! ## Filling the buffer -/

def Conf.grow (c : Conf) : Conf :=
  if c.bStored = c.bAlloc then { c with bAlloc := c.bAlloc + confBufInc } else c

/-- The bytes of one `read`, stored behind the others. -/
def Conf.store (bytes : CStr) (c : Conf) : Conf :=
  { c with
    buf := fun i =>
      if c.bStored ≤ i then (bytes[i - c.bStored]?).getD (c.buf i) else c.buf i
    bStored := c.bStored + bytes.length }

/-- "Move new data to the front". -/
def Conf.compact (c : Conf) : Conf :=
  { c with
    buf := memmove c.buf c.lRet (c.bStored - c.lRet)
    bStored := c.bStored - c.lRet
    lRet := 0 }

/-- The newline that the end of the file puts behind an unfinished line. -/
def Conf.closeLine (c : Conf) : Conf :=
  if 0 < c.bStored ∧ c.buf (c.bStored - 1) ≠ 10 then
    { c with buf := Function.update c.buf c.bStored 10 }
  else c

/-- The `do` loop of `read_config_line` up to the line that sets `eof`.  A failed
`read` ends the program and is not a run of this model. -/
def fillBuf (c : Conf) : List Chunk → Except Stop (Conf × List Chunk)
  | [] => .ok ({ (checkForLine c.closeLine.grow).1 with eof := true }, [])
  | chunk :: chunks =>
      if c.bAlloc - c.bStored < chunk.bytes.length then .error .oversize
      else
        let r := checkForLine (c.store chunk.bytes).grow
        if r.2 then .ok (r.1, chunks) else fillBuf r.1 chunks

/-- The first `if` of `read_config_line`. -/
def Conf.started (c : Conf) : Conf :=
  if c.bAlloc < 1 then { c with bAlloc := confBufInc } else c

def readConfigLine (c : Conf) (chunks : List Chunk) :
    Except Stop (Bool × Conf × List Chunk) :=
  let r := checkForLine c.started
  if r.2 then .ok (true, r.1, chunks)
  else if r.1.eof then .ok (false, r.1, chunks)
  else
    (fillBuf r.1.compact chunks).map fun filled =>
      (!(filled.1.eof && filled.1.bStored == 0), filled.1, filled.2)

/-! ## The callers -/

/-- The C string at `c.buf`, as far as the allocation goes. -/
def Conf.string (c : Conf) : CStr :=
  ((List.range c.bAlloc).map c.buf).takeWhile fun b => b ≠ 0

/-- What a caller may do to the buffer: write inside the returned line, and cut
the string it has got, which goes on behind a line without a newline. -/
def Conf.overwrite (line : ℕ → UInt8) (c : Conf) : Conf :=
  { c with
    buf := fun i =>
      if i < c.lRet then line i
      else if i < c.string.length ∧ line i = 0 then 0
      else c.buf i }

/-- The strings that a caller finds at `c.buf` until `read_config_line` returns
`0`; after the `k`-th call it writes `scribble k` over the line. -/
def readLines (scribble : ℕ → ℕ → UInt8) :
    ℕ → ℕ → Conf → List Chunk → Except Stop (List CStr)
  | 0, _, _, _ => .error .rounds
  | rounds + 1, k, c, chunks =>
      match readConfigLine c chunks with
      | .error stop => .error stop
      | .ok (false, _, _) => .ok []
      | .ok (true, c, chunks) =>
          (readLines scribble rounds (k + 1) (c.overwrite (scribble k)) chunks).map
            (c.string :: ·)

end Config
end Newsbaoter
