import Newsbaoter.Config.Lines
import Newsbaoter.Support.Window
import Mathlib.Data.List.TakeWhile

/-!
# What the buffer holds

The unread bytes of the buffer are the window from `l_ret` to `b_stored`.  Each
function of the reader is described by what it does to this window and, when it
finds a line, by the line it leaves at the front.
-/

namespace Newsbaoter
namespace Config

open Newsbaoter.Support

/-! ## The unread part -/

def Conf.pending (c : Conf) : CStr :=
  window c.buf c.lRet (c.bStored - c.lRet)

theorem length_pending (c : Conf) : c.pending.length = c.bStored - c.lRet :=
  length_window _ _ _

/-- The offsets are in order, and the buffer is not full. -/
structure Conf.Ready (c : Conf) : Prop where
  lRet_le : c.lRet ≤ c.bStored
  bStored_lt : c.bStored < c.bAlloc

/-- `c'` is `c` with the line at the front, closed by a NUL, and the rest behind
it. -/
structure Returned (c c' : Conf) (line rest : CStr) : Prop where
  bAlloc_eq : c'.bAlloc = c.bAlloc
  eof_eq : c'.eof = c.eof
  lRet_eq : c'.lRet = line.length + 1
  bStored_eq : c'.bStored = line.length + 1 + rest.length
  bStored_le : c'.bStored ≤ c.bStored
  line_eq : window c'.buf 0 line.length = line
  nul : c'.buf line.length = 0
  pending_eq : c'.pending = rest

/-- Newlines at the front are skipped by moving `l_ret`. -/
theorem Conf.Ready.skip
    {c : Conf} {skipped piece : CStr} (h : c.Ready) (hpending : c.pending = skipped ++ piece) :
    ({ c with lRet := c.lRet + skipped.length } : Conf).Ready ∧
      ({ c with lRet := c.lRet + skipped.length } : Conf).pending = piece := by
  have hlength : c.bStored - c.lRet = skipped.length + piece.length := by
    rw [← length_pending, hpending, List.length_append]
  have hle := h.lRet_le
  obtain ⟨-, hpiece⟩ := window_eq_append_iff hpending
  refine ⟨⟨?_, h.bStored_lt⟩, ?_⟩
  · dsimp only
    omega
  · have hrest : c.bStored - (c.lRet + skipped.length) = piece.length := by omega
    simp only [Conf.pending]
    rw [hrest, hpiece]

/-! ## The loops -/

theorem takeWhile_of_front
    {p : UInt8 → Bool} {front more : CStr} (hfront : ∀ b ∈ front, p b = true)
    (hmore : ∀ b ∈ more.head?, p b = false) :
    (front ++ more).takeWhile p = front := by
  rw [List.takeWhile_append_of_pos hfront]
  cases more with
  | nil => simp
  | cons b more =>
      have hb : p b = false := hmore b (by simp)
      simp [hb]

theorem scan_eq (p : UInt8 → Bool) (buf : ℕ → UInt8) (n i : ℕ) :
    scan p buf n i = i + ((window buf i n).takeWhile p).length := by
  induction n generalizing i with
  | zero => simp [scan]
  | succ n ih =>
      rw [scan, window_succ, List.takeWhile_cons, ih]
      split
      · rw [List.length_cons]
        omega
      · simp

/-- The loop stops behind the newlines. -/
theorem scan_newlines
    {c : Conf} {skipped more : CStr} (hpending : c.pending = skipped ++ more)
    (hskipped : Newlines skipped) (hmore : ∀ b ∈ more.head?, b ≠ 10) :
    scan isNewline c.buf (c.bStored - c.lRet) c.lRet = c.lRet + skipped.length := by
  rw [scan_eq, ← Conf.pending, hpending, takeWhile_of_front]
  · intro b hb
    simp [isNewline, hskipped b hb]
  · intro b hb
    simp [isNewline, hmore b hb]

/-- The loop stops at the newline behind the line, or where the bytes end. -/
theorem scan_line
    {c : Conf} {line more : CStr} (hpending : c.pending = line ++ more)
    (hline : 10 ∉ line) (hmore : ∀ b ∈ more.head?, b = 10) :
    scan (fun b => !isNewline b) c.buf (c.bStored - c.lRet) c.lRet =
      c.lRet + line.length := by
  rw [scan_eq, ← Conf.pending, hpending, takeWhile_of_front]
  · intro b hb
    have hne : b ≠ 10 := fun h => hline (h ▸ hb)
    simp [isNewline, hne]
  · intro b hb
    simp [isNewline, hmore b hb]

theorem head?_ne_of_not_mem {line : CStr} (hline : 10 ∉ line) (rest : CStr) (hne : line ≠ []) :
    ∀ b ∈ (line ++ rest).head?, b ≠ 10 := by
  rintro b hb rfl
  rw [List.head?_append_of_ne_nil line hne] at hb
  exact hline (List.mem_of_head? hb)

/-! ## Looking for a line -/

/-- Without a complete line `check_for_line` only skips newlines. -/
theorem checkForLine_none
    {c : Conf} {skipped piece : CStr} (h : c.Ready)
    (hpending : c.pending = skipped ++ piece) (hskipped : Newlines skipped)
    (hpiece : 10 ∉ piece) :
    checkForLine c = ({ c with lRet := c.lRet + skipped.length }, false) := by
  obtain ⟨hskip, hrest⟩ := h.skip hpending
  by_cases hempty : c.bStored ≤ c.lRet
  · have hle := hskip.lRet_le
    have hzero : skipped.length = 0 := by
      dsimp only at hle
      omega
    rw [checkForLine, if_pos hempty, hzero, Nat.add_zero]
  · have hstart := scan_newlines hpending hskipped fun b hb hnewline =>
      hpiece (List.mem_of_head? (hnewline ▸ hb))
    have hstop := scan_line (hrest.trans (List.append_nil piece).symm) hpiece (by simp)
    have hend : c.lRet + skipped.length + piece.length = c.bStored := by
      have hcount := congrArg List.length hrest
      have hle := hskip.lRet_le
      rw [length_pending] at hcount
      dsimp only at hcount hle
      omega
    dsimp only at hstop
    rw [checkForLine, if_neg hempty]
    simp only [hstart, hstop, hend, Nat.lt_irrefl, if_false]

/-- `move_buf` puts the line to the front, behind which its end was set to NUL. -/
theorem moveBuf_returned
    {c : Conf} {line rest : CStr} (hpending : c.pending = line ++ 10 :: rest) :
    Returned c
      (moveBuf (c.lRet + line.length)
        { c with buf := Function.update c.buf (c.lRet + line.length) 0 })
      line rest := by
  have hlength : c.bStored - c.lRet = line.length + (1 + rest.length) := by
    rw [← length_pending, hpending, List.length_append, List.length_cons, Nat.add_comm 1]
  obtain ⟨hline, hrest⟩ := window_eq_append_iff hpending
  rw [List.length_cons, window_succ, List.cons.injEq] at hrest
  set stop := c.lRet + line.length with hstop
  have hmoved : ∀ i, i < c.bStored - c.lRet →
      memmove (Function.update c.buf stop 0) c.lRet (c.bStored - c.lRet) i =
        Function.update c.buf stop 0 (c.lRet + i) := by
    intro i hi
    rw [memmove, if_pos hi, Nat.add_comm]
  constructor
  · rfl
  · rfl
  · simp only [moveBuf]
    omega
  · simp only [moveBuf]
    omega
  · simp only [moveBuf]
    omega
  · refine (window_congr ?_).trans hline
    intro j hj
    simp only [moveBuf]
    rw [Nat.zero_add, hmoved j (by omega), Function.update_of_ne (by omega)]
  · simp only [moveBuf]
    rw [hmoved _ (by omega), ← hstop, Function.update_self]
  · simp only [Conf.pending, moveBuf]
    have hcount : c.bStored - c.lRet - (stop - c.lRet + 1) = rest.length := by omega
    rw [hcount]
    refine (window_congr ?_).trans hrest.2
    intro j hj
    rw [hmoved _ (by omega), Function.update_of_ne (by omega)]
    congr 1
    omega

/-- The first complete line of the buffer is moved to its front. -/
theorem checkForLine_line
    {c : Conf} {skipped line rest : CStr} (h : c.Ready)
    (hpending : c.pending = skipped ++ line ++ 10 :: rest) (hskipped : Newlines skipped)
    (hline : 10 ∉ line) (hne : line ≠ []) :
    ∃ c', checkForLine c = (c', true) ∧ Returned c c' line rest := by
  rw [List.append_assoc] at hpending
  obtain ⟨hskip, hrest⟩ := h.skip hpending
  have hstart := scan_newlines hpending hskipped (head?_ne_of_not_mem hline _ hne)
  have hstop := scan_line hrest hline (by simp)
  have hlength : c.bStored = c.lRet + skipped.length + line.length + (rest.length + 1) := by
    have hcount := congrArg List.length hrest
    have hle := hskip.lRet_le
    rw [length_pending, List.length_append, List.length_cons] at hcount
    dsimp only at hcount hle
    omega
  set start := c.lRet + skipped.length
  have hmoved := moveBuf_returned hrest
  dsimp only at hstop hmoved
  -- the loop over blanks stops at once, at the NUL that replaces the newline
  have hblank : scan isBlank (Function.update c.buf (start + line.length) 0)
      (c.bStored - (start + line.length)) (start + line.length) = start + line.length := by
    rw [hlength, Nat.add_sub_cancel_left, scan]
    simp [isBlank]
  refine ⟨_, ?_, { hmoved with }⟩
  rw [checkForLine, if_neg (by omega)]
  simp only [hstart, hstop]
  rw [if_pos (by omega), hblank]

end Config
end Newsbaoter
