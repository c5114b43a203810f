import Newsbaoter.Config.Calls

/-!
# The lines a caller sees

However the file is cut into reads, the callers see its complete lines.  Only
its end goes wrong: newlines that were just read and skipped count as one more
line, and a last line without a newline is handed over without a NUL behind it.
-/

namespace Newsbaoter
namespace Config

open Newsbaoter.Support

/-! ## What a caller writes -/

/-- A string that lies within the returned line can be cut without a trace. -/
theorem pending_overwrite
    {c : Conf} (h : c.string.length ≤ c.lRet) (line : ℕ → UInt8) :
    (c.overwrite line).pending = c.pending := by
  apply window_congr
  intro j _
  simp only [Conf.overwrite]
  rw [if_neg (by omega), if_neg (by omega)]

/-- Cutting a string makes no new line. -/
theorem not_mem_pending_overwrite
    {c : Conf} (h : 10 ∉ c.pending) (line : ℕ → UInt8) :
    10 ∉ (c.overwrite line).pending := by
  intro hmem
  obtain ⟨i, hi, hbyte⟩ := List.mem_map.mp hmem
  have hge : ¬i < c.lRet := Nat.not_lt.mpr (List.mem_range'_1.mp hi).1
  simp only [Conf.overwrite, if_neg hge] at hbyte
  split at hbyte
  · cases hbyte
  · exact h (hbyte ▸ List.mem_map_of_mem hi)

theorem Conf.Ready.overwrite {c : Conf} (h : c.Ready) (line : ℕ → UInt8) :
    (c.overwrite line).Ready :=
  ⟨h.lRet_le, h.bStored_lt⟩

/-! ## All calls -/

/-- What the callers should see of a file. -/
def delivered (text : CStr) : List CStr :=
  (lines text).map cString

/-- The string of a last line without a newline is that line just if it was not
read together with newlines before it and has a NUL. -/
theorem tail_string_iff
    {c : Conf} (hc : c.Ready) {newlines piece : CStr} (hnewlines : Newlines newlines)
    (hpiece : 10 ∉ piece) (hne : piece ≠ []) (hheld : c.held = newlines ++ piece)
    (hclosed : ∀ b, c.held.getLast? = some b → b ≠ 10 → c.buf c.bStored = 10) :
    c.string = cString piece ↔ newlines = [] ∧ 0 ∈ piece := by
  obtain ⟨more, hmore⟩ := hc.string_eq
  have hno : 0 ∉ newlines := fun h0 => absurd (hnewlines 0 h0) (by decide)
  rw [hmore, hheld]
  by_cases hnul : 0 ∈ piece
  · rw [cString_append_of_mem (List.mem_append_right _ hnul), cString_append_of_not_mem hno,
      List.append_left_eq_self]
    exact (and_iff_left hnul).symm
  · -- the newline behind the piece is in the string, and not in the piece
    refine iff_of_false ?_ fun h => hnul h.2
    have hlast : c.buf c.bStored = 10 := by
      obtain ⟨front, b, rfl⟩ := (List.eq_nil_or_concat piece).resolve_left hne
      apply hclosed b
      · rw [hheld]
        simp
      · rintro rfl
        exact hpiece (by simp)
    rw [hlast, cString_of_not_mem hnul]
    intro heq
    have hlong : cString ((newlines ++ piece) ++ 10 :: more) =
        (newlines ++ piece) ++ cString (10 :: more) := by
      rw [cString, List.takeWhile_append_of_pos, cString]
      intro b hb
      have hb0 : b ≠ 0 := by
        rintro rfl
        exact (List.mem_append.mp hb).elim hno hnul
      simpa using hb0
    have hcount := congrArg List.length (hlong.symm.trans heq)
    have hten : cString (10 :: more) = 10 :: cString more := by
      rw [cString, List.takeWhile_cons_of_pos (by decide), cString]
    rw [hten, List.length_append, List.length_append, List.length_cons] at hcount
    omega

/-- The call that returns a line, and the calls behind it. -/
theorem readLines_line
    (scribble : ℕ → ℕ → UInt8) (rounds k : ℕ) {c : Conf} {chunks : List Chunk}
    {skipped line rest : CStr} (hc : Between c) (hskipped : Newlines skipped) (hline : 10 ∉ line)
    (hne : line ≠ []) (hunread : c.pending ++ content chunks = skipped ++ line ++ 10 :: rest) :
    readLines scribble (rounds + 1) k c chunks = .error .oversize ∨
      ∃ c' chunks', readLines scribble (rounds + 1) k c chunks =
          (readLines scribble rounds (k + 1) c' chunks').map (cString line :: ·) ∧
        Between c' ∧ c'.pending ++ content chunks' = rest ∧
        (Rough c.pending chunks ↔ Rough c'.pending chunks') := by
  rw [readLines]
  rcases readConfigLine_line hc hskipped hline hne hunread with
    hover | ⟨c', chunks', hcall, hstring, hlRet, hready, heof, hrest, hrough⟩
  · exact Or.inl (by rw [hover])
  have hkept : (c'.overwrite (scribble k)).pending = c'.pending := by
    apply pending_overwrite
    rw [hstring]
    exact Nat.le_trans (List.takeWhile_sublist _).length_le (Nat.le_of_lt hlRet)
  refine Or.inr ⟨c'.overwrite (scribble k), chunks', ?_,
    between_of_ready (hready.overwrite _) heof, ?_, ?_⟩
  · rw [hcall, ← hstring]
  · rw [hkept, hrest]
  · rw [hkept, hrough]

/-- The calls at the end of the file: one line if there was something to read,
and the call behind it ends the run. -/
theorem readLines_tail
    (scribble : ℕ → ℕ → UInt8) {rounds : ℕ} (k : ℕ) {c : Conf} {chunks : List Chunk}
    {skipped piece : CStr} (hc : Between c) (hskipped : Newlines skipped) (hpiece : 10 ∉ piece)
    (hunread : c.pending ++ content chunks = skipped ++ piece) (hrounds : 1 < rounds) :
    readLines scribble rounds k c chunks = .error .oversize ∨
      ∃ out, readLines scribble rounds k c chunks = .ok out ∧
        (out = (if piece = [] then [] else [cString piece]) ↔
          ¬Rough c.pending chunks ∧ (piece = [] ∨ 0 ∈ piece)) := by
  obtain ⟨rounds, rfl⟩ := Nat.exists_eq_add_of_lt hrounds
  rw [Nat.add_assoc, Nat.add_comm, readLines]
  rcases readConfigLine_tail hc hskipped hpiece hunread with
    hover | ⟨c', newlines, hcall, hready, heof, hno, hheld, hnewlines, hrough, hclosed⟩
  · exact Or.inl (by rw [hover])
  rw [hcall, ← hrough, not_not]
  by_cases hempty : newlines ++ piece = []
  · obtain ⟨rfl, rfl⟩ := List.append_eq_nil_iff.mp hempty
    exact Or.inr ⟨[], rfl, by simp⟩
  · have hsome : (!(newlines ++ piece).isEmpty) = true := by
      simpa using hempty
    obtain ⟨c'', hend⟩ := readConfigLine_done (hready.overwrite (scribble k)) heof
      (not_mem_pending_overwrite hno (scribble k))
    have hout : readLines scribble (rounds + 1) (k + 1) (c'.overwrite (scribble k)) [] = .ok [] := by
      rw [readLines, hend]
    rw [hsome]
    refine Or.inr ⟨[c'.string], by simp only [hout]; rfl, ?_⟩
    by_cases hnil : piece = []
    · rw [hnil, List.append_nil] at hempty
      rw [if_pos hnil]
      exact iff_of_false (by simp) fun h => hempty h.1
    · rw [if_neg hnil, List.cons.injEq, and_iff_left rfl, or_iff_right hnil]
      exact tail_string_iff hready hnewlines hpiece hnil hheld hclosed

/-- The run lemma: the strings are those of the lines of what is unread just if
the last piece of it comes to a good end. -/
theorem readLines_spec
    (scribble : ℕ → ℕ → UInt8) {rounds k : ℕ} {c : Conf} {chunks : List Chunk}
    {text : CStr} (hc : Between c) (htext : c.pending ++ content chunks = text)
    (hrounds : text.length + 1 < rounds) :
    readLines scribble rounds k c chunks = .error .oversize ∨
      ∃ out, readLines scribble rounds k c chunks = .ok out ∧
        (out = delivered text ↔
          ¬Rough c.pending chunks ∧ (lastPiece text = [] ∨ 0 ∈ lastPiece text)) := by
  induction rounds generalizing k c chunks text with
  | zero => omega
  | succ rounds ih =>
      rcases tail_or_line text with
        ⟨skipped, piece, hsplit, hskipped, hpiece⟩ |
          ⟨skipped, line, rest, hsplit, hskipped, hline, hne⟩
      · rw [hsplit, delivered, lines_tail hskipped hpiece, lastPiece_tail hskipped hpiece]
        have hmap : (if piece = [] then [] else [piece] : List CStr).map cString =
            if piece = [] then [] else [cString piece] := by
          split <;> rfl
        rw [hmap]
        exact readLines_tail scribble k hc hskipped hpiece (htext.trans hsplit) (by omega)
      · have hlength : rest.length + 1 < rounds := by
          have hcount := congrArg List.length hsplit
          simp only [List.length_append, List.length_cons] at hcount
          omega
        have hlines : delivered text = cString line :: delivered rest := by
          rw [delivered, hsplit, lines_cons rest hskipped hline hne, List.map_cons, delivered]
        have hlast : lastPiece text = lastPiece rest := by
          rw [hsplit, lastPiece_append_cons]
        rcases readLines_line scribble rounds k hc hskipped hline hne (htext.trans hsplit) with
          hover | ⟨c', chunks', hcall, hc', hrest, hrough⟩
        · exact Or.inl hover
        rcases ih (k := k + 1) hc' hrest hlength with hover | ⟨out, hout, hiff⟩
        · exact Or.inl (by rw [hcall, hover]; rfl)
        · refine Or.inr ⟨cString line :: out, by rw [hcall, hout]; rfl, ?_⟩
          rw [hlines, hlast, hrough, List.cons.injEq, and_iff_right rfl]
          exact hiff

/-- A run of the callers ends in `oversize` only for a chunk longer than what `read`
is asked for. -/
theorem overlong_of_readLines
    {scribble : ℕ → ℕ → UInt8} {rounds k : ℕ} {c : Conf} {chunks : List Chunk}
    (hstop : readLines scribble rounds k c chunks = .error .oversize) :
    Overlong (fun k c => c.overwrite (scribble k)) k c chunks := by
  induction rounds generalizing k c chunks with
  | zero => cases hstop
  | succ rounds ih =>
      rw [readLines] at hstop
      cases hcall : readConfigLine c chunks with
      | error stop =>
          rw [hcall] at hstop
          cases stop with
          | oversize => exact overlong_of_readConfigLine _ k hcall
          | rounds => cases hstop
      | ok called =>
          obtain ⟨ret, c', chunks'⟩ := called
          rw [hcall] at hstop
          cases ret with
          | false => cases hstop
          | true => exact (ih (map_eq_error_iff.mp hstop)).later hcall

/-- However a file is read, a caller sees its lines, and nothing that was in the
buffer before, just if its end is clean: no read brings newlines behind the last
complete line, and a last line without a newline has a NUL. -/
theorem readLines_eq_delivered_iff
    (scribble : ℕ → ℕ → UInt8) (garbage : ℕ → UInt8) (chunks : List Chunk)
    {rounds : ℕ} (hrounds : (content chunks).length + 1 < rounds) :
    readLines scribble rounds 0 (Conf.fresh garbage) chunks = .error .oversize ∨
      ∃ out, readLines scribble rounds 0 (Conf.fresh garbage) chunks = .ok out ∧
        (out = delivered (content chunks) ↔ ¬Rough [] chunks ∧
          (lastPiece (content chunks) = [] ∨ 0 ∈ lastPiece (content chunks))) := by
  have hpending : (Conf.fresh garbage).pending = [] := by
    rfl
  have htext : (Conf.fresh garbage).pending ++ content chunks = content chunks := by
    rw [hpending, List.nil_append]
  have hspec := readLines_spec scribble (k := 0) (between_fresh garbage) htext hrounds
  rwa [hpending] at hspec

theorem lastPiece_of_terminated {text : CStr} (h : Terminated text) : lastPiece text = [] := by
  rcases List.eq_nil_or_concat text with rfl | ⟨front, b, rfl⟩
  · rfl
  · have hb : b = 10 := h b (by simp)
    rw [hb, List.concat_eq_append]
    exact lastPiece_append_cons front []

/-- However a file of complete lines is read, a caller sees its lines just if
the last read is not blank. -/
theorem readLines_eq_lines_iff
    (scribble : ℕ → ℕ → UInt8) (garbage : ℕ → UInt8) (chunks : List Chunk)
    (hterminated : Terminated (content chunks)) (hnul : 0 ∉ content chunks)
    {rounds : ℕ} (hrounds : (content chunks).length + 1 < rounds) :
    readLines scribble rounds 0 (Conf.fresh garbage) chunks = .error .oversize ∨
      ∃ out, readLines scribble rounds 0 (Conf.fresh garbage) chunks = .ok out ∧
        (out = lines (content chunks) ↔ ¬BlankRead [] chunks) := by
  have hlines : delivered (content chunks) = lines (content chunks) := by
    have hsame : ∀ line ∈ lines (content chunks), cString line = line :=
      fun line hline => cString_of_not_mem fun h0 => hnul (mem_of_mem_lines hline h0)
    rw [delivered, List.map_congr_left hsame, List.map_id']
  have hrough : Rough [] chunks ↔ BlankRead [] chunks :=
    rough_iff_blankRead (by rwa [List.nil_append])
  have hspec := readLines_eq_delivered_iff scribble garbage chunks hrounds
  rw [hlines, hrough, lastPiece_of_terminated hterminated, and_iff_left (Or.inl rfl)] at hspec
  exact hspec

/-! ## Small files -/

def newlineChunk : Chunk := ⟨[10], by decide⟩

def feedChunk : Chunk := ⟨ascii "http://example/feed" ++ [10], by decide⟩

theorem readLines_feedChunk :
    readLines (fun _ _ => 0) 30 0 (Conf.fresh fun _ => 0) [feedChunk] =
      .ok [ascii "http://example/feed"] := by
  rfl

theorem readLines_feed_file :
    ∃ out, readLines (fun _ _ => 0) 30 0 (Conf.fresh fun _ => 0) [feedChunk] = .ok out ∧
      (out = lines (content [feedChunk]) ↔ ¬BlankRead [] [feedChunk]) := by
  refine (readLines_eq_lines_iff _ _ _ ?_ (by decide) (by decide)).resolve_left ?_
  · exact terminated_of_getLast (by decide)
  · rw [readLines_feedChunk]
    exact fun hstop => nomatch hstop

/-- A file of two lines, the last without a newline but with a NUL. -/
def unfinishedChunks : List Chunk := [⟨ascii "a" ++ [10], by decide⟩, ⟨ascii "b" ++ [0], by decide⟩]

theorem readLines_unfinishedChunks :
    readLines (fun _ _ => 0) 10 0 (Conf.fresh fun _ => 7) unfinishedChunks =
      .ok [ascii "a", ascii "b"] := by
  rfl

theorem readLines_unfinished_file :
    ∃ out, readLines (fun _ _ => 0) 10 0 (Conf.fresh fun _ => 7) unfinishedChunks = .ok out ∧
      (out = delivered (content unfinishedChunks) ↔ ¬Rough [] unfinishedChunks ∧
        (lastPiece (content unfinishedChunks) = [] ∨
          0 ∈ lastPiece (content unfinishedChunks))) := by
  refine (readLines_eq_delivered_iff _ _ _ (by decide)).resolve_left ?_
  rw [readLines_unfinishedChunks]
  exact fun hstop => nomatch hstop

def letterChunk : Chunk := ⟨ascii "a", by decide⟩

/-- Of a file of one letter, a caller sees what the fresh buffer holds behind it. -/
theorem letter_file_shows_buffer :
    readLines (fun _ _ => 0) 10 0 (Conf.fresh fun _ => 0) [letterChunk] = .ok [ascii "a\n"] ∧
      readLines (fun _ _ => 0) 10 0 (Conf.fresh fun i => if i = 2 then 98 else 0) [letterChunk] =
        .ok [ascii "a\nb"] ∧
      delivered (content [letterChunk]) = [ascii "a"] := by
  refine ⟨by rfl, by rfl, ?_⟩
  decide

/-- A file of one empty line yields a line. -/
theorem blank_file_yields_line :
    readLines (fun _ _ => 0) 30 0 (Conf.fresh fun _ => 0) [newlineChunk] = .ok [[10]] ∧
      lines (content [newlineChunk]) = [] := by
  constructor
  · rfl
  · decide

end Config
end Newsbaoter
