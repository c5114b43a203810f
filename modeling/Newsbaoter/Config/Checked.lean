import Newsbaoter.Config.Calls

/-!
# The line reader with its checks

`read_config_line` once more, with the offsets as the `int`s they are.  Every
access compares its index with the allocation, `read` has to be asked for at
least one byte, and the calls of `read` are counted.  Where the offsets are in
order and the buffer is not full, no check fails, and the reader does what it
does over natural numbers.
-/

namespace Newsbaoter
namespace Config

/-- Why a call does not come to its end.  An index outside the allocation, a
`read` of nothing or a loop that goes on would be errors of the reader; `read`
never delivers too much, and an allocation that does not fit into an `int` ends
the program. -/
inductive Fault
  | outside
  | emptyRead
  | rounds
  | oversize
  | noMemory

/-- `struct conf_read`. -/
structure ConfRead where
  buf : ℕ → UInt8
  bAlloc : ℤ
  bStored : ℤ
  lRet : ℤ
  eof : Bool

namespace ConfRead

/-- After the callers' `memset`. -/
def fresh (garbage : ℕ → UInt8) : ConfRead where
  buf := garbage
  bAlloc := 0
  bStored := 0
  lRet := 0
  eof := false

/-! ## Access to the buffer -/

def get (c : ConfRead) (i : ℤ) : Except Fault UInt8 :=
  if 0 ≤ i ∧ i < c.bAlloc then .ok (c.buf i.toNat) else .error .outside

def put (c : ConfRead) (i : ℤ) (b : UInt8) : Except Fault ConfRead :=
  if 0 ≤ i ∧ i < c.bAlloc then .ok { c with buf := Function.update c.buf i.toNat b }
  else .error .outside

/-- `memmove(c->buf,c->buf+off,n)`. -/
def toFront (c : ConfRead) (off n : ℤ) : Except Fault ConfRead :=
  if 0 ≤ off ∧ 0 ≤ n ∧ off + n ≤ c.bAlloc then
    .ok { c with buf := memmove c.buf off.toNat n.toNat }
  else .error .outside

/-- `for(;i<c->b_stored && p(c->buf[i]);i++)`. -/
def skip (p : UInt8 → Bool) (c : ConfRead) : ℕ → ℤ → Except Fault ℤ
  | 0, _ => .error .rounds
  | rounds + 1, i =>
      if i < c.bStored then
        (c.get i).bind fun b => if p b then skip p c rounds (i + 1) else .ok i
      else .ok i

/-- One round for each stored byte from `i` on, and the last test. -/
def roundsFrom (c : ConfRead) (i : ℤ) : ℕ :=
  (c.bStored - i).toNat + 1

/-! ## Looking for a line -/

def moveBuf (off : ℤ) (c : ConfRead) : Except Fault ConfRead :=
  let n := off - c.lRet + 1
  let stored := c.bStored - c.lRet
  (c.toFront c.lRet stored).map fun c => { c with bStored := stored, lRet := n }

/-- The newline at `stop` becomes a NUL, and the line goes to the front. -/
def endLine (stop : ℤ) (c : ConfRead) : Except Fault ConfRead :=
  (c.put stop 0).bind fun c =>
    (c.skip isBlank (c.roundsFrom stop) stop).bind fun off => c.moveBuf off

/-- The second loop of `check_for_line`. -/
def findLine (c : ConfRead) : Except Fault (ConfRead × Bool) :=
  (c.skip (fun b => !isNewline b) (c.roundsFrom c.lRet) c.lRet).bind fun stop =>
    if stop < c.bStored then (c.endLine stop).map fun c => (c, true) else .ok (c, false)

def checkForLine (c : ConfRead) : Except Fault (ConfRead × Bool) :=
  if c.bStored ≤ c.lRet then .ok (c, false)
  else
    (c.skip isNewline (c.roundsFrom c.lRet) c.lRet).bind fun start =>
      findLine { c with lRet := start }

/-! ## Filling the buffer -/

/-- `read(fd,c->buf+c->b_stored,c->b_alloc-c->b_stored)`; no bytes at the end of
the file. -/
def read (c : ConfRead) (bytes : CStr) : Except Fault ConfRead :=
  if c.bStored < 0 ∨ c.bAlloc < c.bStored then .error .outside
  else if c.bAlloc - c.bStored < 1 then .error .emptyRead
  else if c.bAlloc - c.bStored < bytes.length then .error .oversize
  else
    .ok { c with
      buf := fun i =>
        if c.bStored ≤ i then (bytes[i - c.bStored.toNat]?).getD (c.buf i) else c.buf i
      bStored := c.bStored + bytes.length }

/-- `realloc` gets the new size as a `size_t`, and fails for a negative one. -/
def grow (c : ConfRead) : Except Fault ConfRead :=
  if c.bStored = c.bAlloc then
    let size := toInt (c.bAlloc + confBufInc)
    if size < 0 then .error .noMemory else .ok { c with bAlloc := size }
  else .ok c

def closeLine (c : ConfRead) : Except Fault ConfRead :=
  if 0 < c.bStored then
    (c.get (c.bStored - 1)).bind fun b => if b ≠ 10 then c.put c.bStored 10 else .ok c
  else .ok c

/-- The `do` loop of `read_config_line` up to the line that sets `eof`, and how
often it has called `read`. -/
def fillBuf : ℕ → ConfRead → List Chunk → Except Fault (ConfRead × List Chunk × ℕ)
  | 0, _, _ => .error .rounds
  | _ + 1, c, [] =>
      (c.read []).bind fun c =>
        c.closeLine.bind fun c =>
          c.grow.bind fun c =>
            c.checkForLine.map fun r => ({ r.1 with eof := true }, [], 1)
  | rounds + 1, c, chunk :: chunks =>
      (c.read chunk.bytes).bind fun c =>
        c.grow.bind fun c =>
          c.checkForLine.bind fun r =>
            if r.2 then .ok (r.1, chunks, 1)
            else
              (fillBuf rounds r.1 chunks).map fun filled =>
                (filled.1, filled.2.1, filled.2.2 + 1)

def started (c : ConfRead) : ConfRead :=
  if c.bAlloc < 1 then { c with bAlloc := confBufInc } else c

end ConfRead

/-- A call of `read_config_line`: whether it returns `1`, what it leaves, and how
often it has called `read`. -/
structure Call where
  ret : Bool
  after : ConfRead
  reads : ℕ

/-- With one round for each `read` that brings bytes, and one for the end of the
file. -/
def ConfRead.readConfigLine (c : ConfRead) (chunks : List Chunk) :
    Except Fault (Call × List Chunk) :=
  c.started.checkForLine.bind fun r =>
    if r.2 then .ok (⟨true, r.1, 0⟩, chunks)
    else if r.1.eof then .ok (⟨false, r.1, 0⟩, chunks)
    else
      let stored := r.1.bStored - r.1.lRet
      (r.1.toFront r.1.lRet stored).bind fun c =>
        (ConfRead.fillBuf (chunks.length + 1) { c with bStored := stored, lRet := 0 } chunks).map
          fun filled =>
            (⟨!(filled.1.eof && decide (filled.1.bStored ≤ 0)), filled.1, filled.2.2⟩,
              filled.2.1)

/-! ## No check fails -/

/-- The offsets as `int`s. -/
def Conf.checked (c : Conf) : ConfRead where
  buf := c.buf
  bAlloc := c.bAlloc
  bStored := c.bStored
  lRet := c.lRet
  eof := c.eof

@[simp] theorem checked_bAlloc (c : Conf) : c.checked.bAlloc = c.bAlloc := rfl
@[simp] theorem checked_bStored (c : Conf) : c.checked.bStored = c.bStored := rfl
@[simp] theorem checked_lRet (c : Conf) : c.checked.lRet = c.lRet := rfl
@[simp] theorem checked_eof (c : Conf) : c.checked.eof = c.eof := rfl

theorem checked_left {c : Conf} (h : c.lRet ≤ c.bStored) :
    c.checked.bStored - c.checked.lRet = ((c.bStored - c.lRet : ℕ) : ℤ) :=
  (Int.ofNat_sub h).symm

theorem ok_bind {α β : Type} (a : α) (next : α → Except Fault β) :
    (Except.ok a).bind next = next a := rfl

theorem get_checked {c : Conf} {i : ℕ} (h : i < c.bAlloc) : c.checked.get i = .ok (c.buf i) := by
  have hin : 0 ≤ (i : ℤ) ∧ (i : ℤ) < c.checked.bAlloc :=
    ⟨Int.natCast_nonneg i, Int.ofNat_lt.mpr h⟩
  rw [ConfRead.get, if_pos hin]
  rfl

theorem put_checked {c : Conf} {i : ℕ} (h : i < c.bAlloc) (b : UInt8) :
    c.checked.put i b = .ok ({ c with buf := Function.update c.buf i b } : Conf).checked := by
  have hin : 0 ≤ (i : ℤ) ∧ (i : ℤ) < c.checked.bAlloc :=
    ⟨Int.natCast_nonneg i, Int.ofNat_lt.mpr h⟩
  rw [ConfRead.put, if_pos hin]
  rfl

theorem toFront_checked {c : Conf} {off n : ℕ} (h : off + n ≤ c.bAlloc) :
    c.checked.toFront off n = .ok ({ c with buf := memmove c.buf off n } : Conf).checked := by
  have hin : 0 ≤ (off : ℤ) ∧ 0 ≤ (n : ℤ) ∧ (off : ℤ) + n ≤ c.checked.bAlloc := by
    rw [checked_bAlloc]
    omega
  rw [ConfRead.toFront, if_pos hin]
  rfl

theorem scan_bounds (p : UInt8 → Bool) (buf : ℕ → UInt8) (n i : ℕ) :
    i ≤ scan p buf n i ∧ scan p buf n i ≤ i + n := by
  have hle := (List.takeWhile_sublist p (l := Support.window buf i n)).length_le
  rw [Support.length_window] at hle
  rw [scan_eq]
  omega

theorem skip_rounds
    (p : UInt8 → Bool) {c : Conf} (hstored : c.bStored ≤ c.bAlloc) {n i : ℕ}
    (h : i + n = c.bStored) :
    c.checked.skip p (n + 1) i = .ok ((scan p c.buf n i : ℕ) : ℤ) := by
  induction n generalizing i with
  | zero =>
      have hend : ¬(i : ℤ) < c.checked.bStored := by
        rw [checked_bStored]
        omega
      rw [ConfRead.skip, if_neg hend]
      rfl
  | succ n ih =>
      have hlt : (i : ℤ) < c.checked.bStored := by
        rw [checked_bStored]
        omega
      rw [ConfRead.skip, if_pos hlt, get_checked (by omega), ok_bind, scan]
      split
      · exact ih (i := i + 1) (by omega)
      · rfl

/-- The loop over `i` ends where the stored bytes do, at the latest. -/
theorem skip_checked
    (p : UInt8 → Bool) {c : Conf} (hstored : c.bStored ≤ c.bAlloc) {i : ℕ} (hi : i ≤ c.bStored) :
    c.checked.skip p (c.checked.roundsFrom i) i =
      .ok ((scan p c.buf (c.bStored - i) i : ℕ) : ℤ) := by
  have hrounds : c.checked.roundsFrom i = c.bStored - i + 1 :=
    congrArg (· + 1) (Int.toNat_sub c.bStored i)
  rw [hrounds]
  exact skip_rounds p hstored (by omega)

theorem moveBuf_checked
    {c : Conf} {off : ℕ} (hlRet : c.lRet ≤ c.bStored) (hstored : c.bStored ≤ c.bAlloc)
    (hoff : c.lRet ≤ off) :
    c.checked.moveBuf off = .ok (moveBuf off c).checked := by
  have hn : (off : ℤ) - c.checked.lRet + 1 = ((off - c.lRet + 1 : ℕ) : ℤ) := by
    rw [checked_lRet]
    omega
  rw [ConfRead.moveBuf, checked_left hlRet, hn, checked_lRet, toFront_checked (by omega)]
  rfl

theorem endLine_checked
    {c : Conf} {stop : ℕ} (h : c.Ready) (hlRet : c.lRet ≤ stop) (hstop : stop < c.bStored) :
    c.checked.endLine stop =
      .ok (moveBuf (scan isBlank (Function.update c.buf stop 0) (c.bStored - stop) stop)
        { c with buf := Function.update c.buf stop 0 }).checked := by
  have hlt := h.bStored_lt
  have hoff := (scan_bounds isBlank (Function.update c.buf stop 0) (c.bStored - stop) stop).1
  have hskip := skip_checked isBlank (c := { c with buf := Function.update c.buf stop 0 })
    (Nat.le_of_lt hlt) (Nat.le_of_lt hstop)
  rw [ConfRead.endLine, put_checked (by omega), ok_bind, hskip, ok_bind]
  exact moveBuf_checked h.lRet_le (Nat.le_of_lt hlt) (Nat.le_trans hlRet hoff)

theorem findLine_checked {c : Conf} (h : c.Ready) :
    c.checked.findLine =
      let stop := scan (fun b => !isNewline b) c.buf (c.bStored - c.lRet) c.lRet
      .ok (if stop < c.bStored then
        ((moveBuf (scan isBlank (Function.update c.buf stop 0) (c.bStored - stop) stop)
          { c with buf := Function.update c.buf stop 0 }).checked, true)
      else (c.checked, false)) := by
  obtain ⟨hstop, -⟩ := scan_bounds (fun b => !isNewline b) c.buf (c.bStored - c.lRet) c.lRet
  rw [ConfRead.findLine, checked_lRet,
    skip_checked _ (Nat.le_of_lt h.bStored_lt) h.lRet_le, ok_bind, checked_bStored]
  dsimp only
  generalize scan (fun b => !isNewline b) c.buf (c.bStored - c.lRet) c.lRet = stop at hstop
  by_cases hlt : stop < c.bStored
  · rw [if_pos (Int.ofNat_lt.mpr hlt), if_pos hlt, endLine_checked h hstop hlt]
    rfl
  · rw [if_neg (mt Int.ofNat_lt.mp hlt), if_neg hlt]

/-- No check of the search fails, and it finds what the reader over natural
numbers finds. -/
theorem checkForLine_checked {c : Conf} (h : c.Ready) :
    c.checked.checkForLine = .ok ((checkForLine c).1.checked, (checkForLine c).2) := by
  have hle := h.lRet_le
  have hlt := h.bStored_lt
  rw [ConfRead.checkForLine, checkForLine, checked_bStored, checked_lRet]
  by_cases hempty : c.bStored ≤ c.lRet
  · rw [if_pos (Int.ofNat_le.mpr hempty), if_pos hempty]
  rw [if_neg (mt Int.ofNat_le.mp hempty), if_neg hempty,
    skip_checked isNewline (Nat.le_of_lt hlt) hle, ok_bind]
  obtain ⟨-, hstart⟩ := scan_bounds isNewline c.buf (c.bStored - c.lRet) c.lRet
  generalize scan isNewline c.buf (c.bStored - c.lRet) c.lRet = start at hstart
  have hready : ({ c with lRet := start } : Conf).Ready := ⟨by dsimp only; omega, hlt⟩
  refine (findLine_checked hready).trans ?_
  dsimp only
  split <;> rfl

/-- A buffer that is not full has room for a `read`. -/
theorem read_checked {c : Conf} (h : c.Ready) (bytes : CStr) :
    c.checked.read bytes =
      if c.bAlloc - c.bStored < bytes.length then .error .oversize
      else .ok (c.store bytes).checked := by
  have hlt := h.bStored_lt
  have hinside : ¬(c.checked.bStored < 0 ∨ c.checked.bAlloc < c.checked.bStored) := by
    rw [checked_bStored, checked_bAlloc]
    omega
  have hroom : c.checked.bAlloc - c.checked.bStored = ((c.bAlloc - c.bStored : ℕ) : ℤ) := by
    rw [checked_bStored, checked_bAlloc]
    omega
  have hsome : ¬((c.bAlloc - c.bStored : ℕ) : ℤ) < 1 := by omega
  rw [ConfRead.read, if_neg hinside, hroom, if_neg hsome]
  by_cases hover : c.bAlloc - c.bStored < bytes.length
  · rw [if_pos (Int.ofNat_lt.mpr hover), if_pos hover]
  · rw [if_neg (mt Int.ofNat_lt.mp hover), if_neg hover]
    simp [Conf.checked, Conf.store]

/-- The buffer grows as long as its size is an `int`. -/
theorem grow_checked {c : Conf} (hfits : c.bAlloc < 2 ^ 31) :
    (c.checked.grow = .error .noMemory ∧ 2 ^ 31 - confBufInc ≤ c.bStored) ∨
      (c.checked.grow = .ok c.grow.checked ∧ c.grow.bAlloc < 2 ^ 31) := by
  rw [ConfRead.grow, Conf.grow, checked_bStored, checked_bAlloc]
  by_cases hfull : c.bStored = c.bAlloc
  · rw [if_pos (congrArg _ hfull), if_pos hfull]
    dsimp only
    by_cases hover : 2 ^ 31 ≤ c.bAlloc + confBufInc
    · left
      have hnegative : toInt (c.bAlloc + confBufInc) < 0 := by
        rw [toInt, Int.bmod_def, confBufInc]
        rw [confBufInc] at hover
        omega
      rw [if_pos hnegative]
      exact ⟨rfl, by omega⟩
    · right
      have hkept : toInt (c.bAlloc + confBufInc) = ((c.bAlloc + confBufInc : ℕ) : ℤ) := by
        rw [toInt_of_fits (by omega) (by omega)]
        rfl
      rw [hkept, if_neg (by omega)]
      exact ⟨rfl, by omega⟩
  · rw [if_neg (mt Int.ofNat_inj.mp hfull), if_neg hfull]
    exact Or.inr ⟨rfl, hfits⟩

theorem closeLine_checked {c : Conf} (h : c.Ready) :
    c.checked.closeLine = .ok c.closeLine.checked := by
  have hlt := h.bStored_lt
  rw [ConfRead.closeLine, Conf.closeLine, checked_bStored]
  by_cases hpos : 0 < c.bStored
  · have hlast : (c.bStored : ℤ) - 1 = ((c.bStored - 1 : ℕ) : ℤ) := by omega
    rw [if_pos (Int.natCast_pos.mpr hpos), hlast, get_checked (by omega), ok_bind,
      put_checked hlt]
    by_cases hclosed : c.buf (c.bStored - 1) ≠ 10
    · rw [if_pos hclosed, if_pos ⟨hpos, hclosed⟩]
    · rw [if_neg hclosed, if_neg (mt And.right hclosed)]
  · rw [if_neg (mt Int.natCast_pos.mp hpos), if_neg (mt And.left hpos)]

end Config
end Newsbaoter
