import Newsbaoter.Config.Refill

/-!
# The calls of the reader

What is still unread is the window of the buffer followed by the chunks that
`read` will deliver.  A call takes one line off it, however the file is cut into
reads.  Without a complete line it reads to the end of the file, and what it has
read then lies at the front of the buffer, with a newline behind it but no NUL.
-/

namespace Newsbaoter
namespace Config

open Newsbaoter.Support

/-! ## Filling the buffer -/

theorem pending_grow (c : Conf) : c.grow.pending = c.pending := by
  rw [Conf.grow]
  split <;> rfl

theorem pending_store {c : Conf} {bytes : CStr} (hle : c.lRet ≤ c.bStored) :
    (c.store bytes).pending = c.pending ++ bytes := by
  have hcount : c.bStored + bytes.length - c.lRet = (c.bStored - c.lRet) + bytes.length := by
    omega
  have hold : window (c.store bytes).buf c.lRet (c.bStored - c.lRet) = c.pending := by
    apply window_congr
    intro j hj
    simp only [Conf.store]
    rw [if_neg (by omega)]
  have hnew : window (c.store bytes).buf (c.lRet + (c.bStored - c.lRet)) bytes.length =
      bytes := by
    apply window_eq_of_getElem?
    intro j hj
    have hindex : c.lRet + (c.bStored - c.lRet) + j = c.bStored + j := by omega
    simp only [Conf.store]
    rw [hindex, if_pos (Nat.le_add_right _ _), Nat.add_sub_cancel_left,
      List.getElem?_eq_getElem hj, Option.getD_some]
  rw [Conf.pending, ← hold]
  simp only [Conf.store] at hnew ⊢
  rw [hcount, window_add, hnew]

theorem pending_compact (c : Conf) : c.compact.pending = c.pending := by
  simp only [Conf.pending, Conf.compact, Nat.sub_zero]
  apply window_congr
  intro j hj
  rw [Nat.zero_add, memmove, if_pos hj, Nat.add_comm]

theorem Conf.Ready.compact {c : Conf} (h : c.Ready) : c.compact.Ready := by
  have hlt := h.bStored_lt
  refine ⟨Nat.zero_le _, ?_⟩
  simp only [Conf.compact]
  omega

/-- One `read` puts its bytes behind the window. -/
theorem Conf.Ready.read
    {c : Conf} {bytes : CStr} (h : c.Ready) (hroom : bytes.length ≤ c.bAlloc - c.bStored) :
    (c.store bytes).grow.Ready ∧ (c.store bytes).grow.pending = c.pending ++ bytes ∧
      (c.store bytes).grow.bStored = c.bStored + bytes.length ∧
      (c.store bytes).grow.eof = c.eof := by
  have hlt := h.bStored_lt
  have hle : c.lRet ≤ c.bStored + bytes.length := Nat.le_add_right_of_le h.lRet_le
  rw [pending_grow, pending_store h.lRet_le, Conf.grow]
  split
  · next hfull =>
      refine ⟨⟨hle, ?_⟩, rfl, rfl, rfl⟩
      rw [hfull]
      exact Nat.lt_add_of_pos_right (by decide)
  · next hfull =>
      refine ⟨⟨hle, ?_⟩, rfl, rfl, rfl⟩
      simp only [Conf.store] at hfull ⊢
      omega

theorem closeLine_offsets (c : Conf) :
    c.closeLine.lRet = c.lRet ∧ c.closeLine.bStored = c.bStored ∧
      c.closeLine.bAlloc = c.bAlloc ∧ c.closeLine.eof = c.eof := by
  rw [Conf.closeLine]
  split <;> exact ⟨rfl, rfl, rfl, rfl⟩

/-- At the end of the file, the newline behind the last byte is not part of the
window. -/
theorem Conf.Ready.close {c : Conf} (h : c.Ready) :
    c.closeLine.grow.Ready ∧ c.closeLine.grow.pending = c.pending ∧
      c.closeLine.grow.bStored = c.bStored := by
  have hpending : c.closeLine.pending = c.pending := by
    rw [Conf.closeLine]
    split
    · apply window_congr
      intro j hj
      have hlt : j < c.bStored - c.lRet := hj
      exact Function.update_of_ne (by dsimp only; omega) _ _
    · rfl
  obtain ⟨hlRet, hbStored, hbAlloc, -⟩ := closeLine_offsets c
  have hlt := h.bStored_lt
  rw [pending_grow, Conf.grow, if_neg (by omega)]
  exact ⟨⟨by rw [hlRet, hbStored]; exact h.lRet_le, by rw [hbStored, hbAlloc]; exact hlt⟩,
    hpending, hbStored⟩

theorem Returned.ready
    {c c' : Conf} {line rest : CStr} (h : Returned c c' line rest) (hc : c.Ready) :
    c'.Ready := by
  refine ⟨?_, ?_⟩
  · rw [h.lRet_eq, h.bStored_eq]
    exact Nat.le_add_right _ _
  · rw [h.bAlloc_eq]
    exact Nat.lt_of_le_of_lt h.bStored_le hc.bStored_lt

/-- The bytes of a line that a C string shows. -/
def cString (line : CStr) : CStr :=
  line.takeWhile fun b => b ≠ 0

theorem nonzero_of_not_mem {line : CStr} (h : 0 ∉ line) : ∀ b ∈ line, decide (b ≠ 0) = true := by
  intro b hb
  have hne : b ≠ 0 := fun h0 => h (h0 ▸ hb)
  exact decide_eq_true hne

theorem cString_of_not_mem {line : CStr} (h : 0 ∉ line) : cString line = line := by
  rw [cString, List.takeWhile_eq_self_iff]
  exact nonzero_of_not_mem h

theorem cString_append_of_not_mem {line : CStr} (h : 0 ∉ line) (more : CStr) :
    cString (line ++ more) = line ++ cString more := by
  rw [cString, List.takeWhile_append_of_pos (nonzero_of_not_mem h), cString]

/-- The string ends at a NUL, whatever is behind it. -/
theorem cString_append_nul (line more : CStr) : cString (line ++ 0 :: more) = cString line := by
  induction line with
  | nil => rfl
  | cons b line ih =>
      rw [cString, cString] at ih
      rw [List.cons_append, cString, cString, List.takeWhile_cons, List.takeWhile_cons, ih]

theorem cString_append_of_mem {line : CStr} (h : 0 ∈ line) (more : CStr) :
    cString (line ++ more) = cString line := by
  obtain ⟨front, rest, rfl, -⟩ := List.eq_append_cons_of_mem h
  rw [List.append_assoc, List.cons_append, cString_append_nul, cString_append_nul]

/-- The bytes from the beginning of the buffer on. -/
def Conf.held (c : Conf) : CStr :=
  window c.buf 0 c.bStored

/-- What a caller sees begins with the bytes in the buffer. -/
theorem Conf.Ready.string_eq
    {c : Conf} (h : c.Ready) : ∃ more, c.string = cString (c.held ++ c.buf c.bStored :: more) := by
  have hlt := h.bStored_lt
  obtain ⟨n, hn⟩ : ∃ n, c.bAlloc = c.bStored + (n + 1) := ⟨c.bAlloc - c.bStored - 1, by omega⟩
  refine ⟨window c.buf (c.bStored + 1) n, ?_⟩
  have hbuffer : (List.range c.bAlloc).map c.buf = window c.buf 0 c.bAlloc := by
    rw [window, List.range_eq_range']
  rw [Conf.string, hbuffer, hn, window_add, Nat.zero_add, window_succ]
  rfl

/-- The string at the front of the buffer is the line, up to its first NUL. -/
theorem Returned.string_eq
    {c c' : Conf} {line rest : CStr} (h : Returned c c' line rest) (hc : c.Ready) :
    c'.string = cString line := by
  obtain ⟨more, hmore⟩ := (h.ready hc).string_eq
  have hheld : c'.held = (line ++ [0]) ++ window c'.buf (line.length + 1) rest.length := by
    rw [Conf.held, h.bStored_eq, window_add, window_add, h.line_eq, Nat.zero_add, window_succ,
      h.nul, Nat.zero_add]
    rfl
  rw [hmore, hheld, List.append_assoc, cString_append_of_mem (by simp), cString_append_nul]

/-! ## The loop over `read` -/

/-- Reading on until a line is complete. -/
theorem fillBuf_line
    {c : Conf} {chunks : List Chunk} {skipped line rest : CStr} (hc : c.Ready)
    (hno : 10 ∉ c.pending) (hskipped : Newlines skipped)
    (hline : 10 ∉ line) (hne : line ≠ [])
    (hunread : c.pending ++ content chunks = skipped ++ line ++ 10 :: rest) :
    fillBuf c chunks = .error .oversize ∨
      ∃ c₁ c' rest₁ chunks', fillBuf c chunks = .ok (c', chunks') ∧ c₁.Ready ∧
        c₁.eof = c.eof ∧ Returned c₁ c' line rest₁ ∧
        rest = rest₁ ++ content chunks' ∧
        (Rough c.pending chunks ↔ Rough rest₁ chunks') := by
  induction chunks generalizing c skipped with
  | nil =>
      exfalso
      rw [content, List.map_nil, List.flatten_nil, List.append_nil] at hunread
      exact hno (by simp [hunread])
  | cons chunk chunks ih =>
      rw [fillBuf]
      by_cases hroom : c.bAlloc - c.bStored < chunk.bytes.length
      · exact Or.inl (by rw [if_pos hroom])
      rw [if_neg hroom, rough_cons hno hskipped hline hne hunread]
      obtain ⟨hready, hpending, -, heof⟩ := hc.read (Nat.not_lt.mp hroom)
      set c₁ := (c.store chunk.bytes).grow
      rw [content_cons, ← List.append_assoc, ← hpending] at hunread
      rw [← hpending]
      rcases line_of_append hskipped hline hunread with
        ⟨rest₁, hfound, hrest⟩ | ⟨skipped₁, piece, skipped₂, hsplit, hs₁, hpiece, hmore, hs₂⟩
      · obtain ⟨c', hcheck, hreturned⟩ :=
          checkForLine_line hready hfound hskipped hline hne
        refine Or.inr ⟨c₁, c', rest₁, chunks, by simp [hcheck], hready, heof, hreturned,
          hrest, ?_⟩
        rw [hfound, rough_line]
      · have hcheck := checkForLine_none hready hsplit hs₁ hpiece
        obtain ⟨hready₂, hpending₂⟩ := hready.skip hsplit
        simp only [hcheck, Bool.false_eq_true, if_false]
        have hih := ih hready₂ (by rw [hpending₂]; exact hpiece) hs₂
          (by rw [hpending₂]; exact hmore)
        rw [hpending₂] at hih
        rw [hsplit, rough_skip hs₁, ← heof]
        exact hih

/-- What the first part of a text without a complete line shows of it. -/
theorem tail_of_append
    {l₁ l₂ newlines piece : CStr} (hnewlines : Newlines newlines) (hpiece : 10 ∉ piece)
    (h : l₁ ++ l₂ = newlines ++ piece) :
    ∃ skipped held more, l₁ = skipped ++ held ∧ Newlines skipped ∧ 10 ∉ held ∧
      held ++ l₂ = more ++ piece ∧ Newlines more := by
  rcases List.append_eq_append_iff.mp h with ⟨more, hmore, hl₂⟩ | ⟨held, hl₁, hheld⟩
  · rw [hmore, Newlines, List.forall_mem_append] at hnewlines
    exact ⟨l₁, [], more, (List.append_nil l₁).symm, hnewlines.1, by simp, hl₂, hnewlines.2⟩
  · refine ⟨newlines, held, [], hl₁, hnewlines, ?_, hheld.symm, by simp [Newlines]⟩
    intro hmem
    apply hpiece
    rw [hheld]
    exact List.mem_append_left _ hmem

theorem held_grow (c : Conf) : c.grow.held = c.held := by
  rw [Conf.grow]
  split <;> rfl

theorem held_store (c : Conf) (bytes : CStr) : (c.store bytes).held = c.held ++ bytes := by
  have hold : window (c.store bytes).buf 0 c.bStored = c.held := by
    apply window_congr
    intro j hj
    simp only [Conf.store]
    rw [if_neg (by omega)]
  have hnew : window (c.store bytes).buf c.bStored bytes.length = bytes := by
    apply window_eq_of_getElem?
    intro j hj
    simp only [Conf.store]
    rw [if_pos (Nat.le_add_right _ _), Nat.add_sub_cancel_left, List.getElem?_eq_getElem hj,
      Option.getD_some]
  have hsplit : (c.store bytes).held = window (c.store bytes).buf 0 (c.bStored + bytes.length) :=
    rfl
  rw [hsplit, window_add, hold, Nat.zero_add, hnew]

/-- The end of the file leaves the bytes as they are, and puts a newline behind
them if the last one is none. -/
theorem held_close (c : Conf) :
    c.closeLine.grow.held = c.held ∧
      ∀ b, c.held.getLast? = some b → b ≠ 10 → c.closeLine.grow.buf c.bStored = 10 := by
  have hbuf : c.closeLine.grow.buf = c.closeLine.buf := by
    rw [Conf.grow]
    split <;> rfl
  refine ⟨?_, ?_⟩
  · rw [held_grow, Conf.closeLine]
    split
    · apply window_congr
      intro j hj
      have hlt : j < c.bStored := hj
      exact Function.update_of_ne (by omega) _ _
    · rfl
  · intro b hb hne
    have hpos : 0 < c.bStored := by
      by_contra hzero
      rw [Conf.held, Nat.eq_zero_of_not_pos hzero] at hb
      cases hb
    have hlast : c.buf (c.bStored - 1) = b := by
      rw [List.getLast?_eq_getElem?, Conf.held, length_window,
        getElem?_window _ _ (Nat.sub_lt hpos Nat.one_pos), Nat.zero_add] at hb
      exact Option.some.inj hb
    rw [hbuf, Conf.closeLine, if_pos ⟨hpos, by rw [hlast]; exact hne⟩]
    exact Function.update_self ..

/-- Reading on to the end of the file, where no complete line is left. -/
theorem fillBuf_tail
    {c : Conf} {chunks : List Chunk} {newlines piece : CStr} (hc : c.Ready)
    (hno : 10 ∉ c.pending) (hunread : c.pending ++ content chunks = newlines ++ piece)
    (hnewlines : Newlines newlines) (hpiece : 10 ∉ piece) :
    fillBuf c chunks = .error .oversize ∨
      ∃ c', fillBuf c chunks = .ok (c', []) ∧ c'.Ready ∧ c'.eof = true ∧ 10 ∉ c'.pending ∧
        c'.held = c.held ++ content chunks ∧
        ∀ b, c'.held.getLast? = some b → b ≠ 10 → c'.buf c'.bStored = 10 := by
  induction chunks generalizing c newlines with
  | nil =>
      obtain ⟨hready, hpending, hstored⟩ := hc.close
      obtain ⟨hheld, hclosed⟩ := held_close c
      set c₁ := c.closeLine.grow
      rw [← hpending] at hno
      have hcheck := checkForLine_none hready (List.nil_append _).symm (by simp [Newlines]) hno
      refine Or.inr ⟨{ c₁ with lRet := c₁.lRet + 0, eof := true }, ?_,
        ⟨hready.lRet_le, hready.bStored_lt⟩, rfl, hno, ?_, ?_⟩
      · rw [fillBuf, hcheck]
        rfl
      · rw [content, List.map_nil, List.flatten_nil, List.append_nil]
        exact hheld
      · intro b hb hne
        have hb' : c₁.held.getLast? = some b := hb
        rw [hheld] at hb'
        have hnewline := hclosed b hb' hne
        rw [← hstored] at hnewline
        exact hnewline
  | cons chunk chunks ih =>
      rw [fillBuf]
      by_cases hroom : c.bAlloc - c.bStored < chunk.bytes.length
      · exact Or.inl (by rw [if_pos hroom])
      rw [if_neg hroom]
      obtain ⟨hready, hpending, -, -⟩ := hc.read (Nat.not_lt.mp hroom)
      have hheld : (c.store chunk.bytes).grow.held = c.held ++ chunk.bytes := by
        rw [held_grow, held_store]
      set c₁ := (c.store chunk.bytes).grow
      rw [content_cons, ← List.append_assoc, ← hpending] at hunread
      obtain ⟨skipped, held, more, hsplit, hskipped, hno', hmore, hnewlines'⟩ :=
        tail_of_append hnewlines hpiece hunread
      have hcheck := checkForLine_none hready hsplit hskipped hno'
      obtain ⟨hready₂, hpending₂⟩ := hready.skip hsplit
      simp only [hcheck, Bool.false_eq_true, if_false]
      rw [content_cons, ← List.append_assoc, ← hheld]
      exact ih hready₂ (by rw [hpending₂]; exact hno') (by rw [hpending₂]; exact hmore) hnewlines'

/-! ## One call -/

/-- What holds between two calls. -/
structure Between (c : Conf) : Prop where
  ready : c.started.Ready
  eof : c.eof = false

theorem pending_started (c : Conf) : c.started.pending = c.pending := by
  rw [Conf.started]
  split <;> rfl

theorem eof_started (c : Conf) : c.started.eof = c.eof := by
  rw [Conf.started]
  split <;> rfl

theorem Conf.Ready.started_eq {c : Conf} (h : c.Ready) : c.started = c := by
  have hlt := h.bStored_lt
  rw [Conf.started, if_neg (by omega)]

theorem between_of_ready {c : Conf} (hc : c.Ready) (heof : c.eof = false) : Between c :=
  ⟨by rw [hc.started_eq]; exact hc, heof⟩

theorem between_fresh (garbage : ℕ → UInt8) : Between (Conf.fresh garbage) := by
  refine ⟨⟨?_, ?_⟩, rfl⟩
  · simp [Conf.started, Conf.fresh]
  · simp [Conf.started, Conf.fresh, confBufInc]

/-- A call that finds no line in the buffer reads on. -/
theorem readConfigLine_of_none
    {c c₁ : Conf} (chunks : List Chunk) (hcheck : checkForLine c.started = (c₁, false))
    (heof : c₁.eof = false) :
    readConfigLine c chunks = (fillBuf c₁.compact chunks).map fun filled =>
      (!(filled.1.eof && filled.1.bStored == 0), filled.1, filled.2) := by
  simp only [readConfigLine, hcheck, heof, Bool.false_eq_true, if_false]

/-- A call that has a line to return. -/
theorem readConfigLine_line
    {c : Conf} {chunks : List Chunk} {skipped line rest : CStr} (hc : Between c)
    (hskipped : Newlines skipped) (hline : 10 ∉ line) (hne : line ≠ [])
    (hunread : c.pending ++ content chunks = skipped ++ line ++ 10 :: rest) :
    readConfigLine c chunks = .error .oversize ∨
      ∃ c' chunks', readConfigLine c chunks = .ok (true, c', chunks') ∧
        c'.string = cString line ∧ line.length < c'.lRet ∧ c'.Ready ∧ c'.eof = false ∧
        rest = c'.pending ++ content chunks' ∧
        (Rough c.pending chunks ↔ Rough c'.pending chunks') := by
  have hready := hc.ready
  have heof := (eof_started c).trans hc.eof
  rw [← pending_started] at hunread ⊢
  rcases line_of_append hskipped hline hunread with
    ⟨rest₁, hfound, hrest⟩ | ⟨skipped₁, piece, skipped₂, hsplit, hs₁, hpiece, hmore, hs₂⟩
  · obtain ⟨c', hcheck, hreturned⟩ :=
      checkForLine_line hready hfound hskipped hline hne
    refine Or.inr ⟨c', chunks, ?_, hreturned.string_eq hready, ?_, hreturned.ready hready,
      hreturned.eof_eq.trans heof, ?_, ?_⟩
    · simp only [readConfigLine, hcheck, if_true]
    · rw [hreturned.lRet_eq]
      exact Nat.lt_add_one _
    · rw [hreturned.pending_eq, hrest]
    · rw [hfound, hreturned.pending_eq, rough_line]
  · have hcheck := checkForLine_none hready hsplit hs₁ hpiece
    obtain ⟨hready₂, hpending₂⟩ := hready.skip hsplit
    have hcall := readConfigLine_of_none chunks hcheck heof
    set c₂ := ({ c.started with lRet := c.started.lRet + skipped₁.length } : Conf)
    have hpending : c₂.compact.pending = piece := (pending_compact c₂).trans hpending₂
    rcases fillBuf_line hready₂.compact (by rw [hpending]; exact hpiece) hs₂ hline hne
      (by rw [hpending]; exact hmore) with
      hover | ⟨c₃, c', rest₁, chunks', hfill, hready₃, heof₃, hreturned, hrest, hrough⟩
    · exact Or.inl (by rw [hcall, hover]; rfl)
    · have heof' : c'.eof = false := by
        rw [hreturned.eof_eq, heof₃]
        exact heof
      refine Or.inr ⟨c', chunks', ?_, hreturned.string_eq hready₃, ?_,
        hreturned.ready hready₃, heof', ?_, ?_⟩
      · rw [hcall, hfill]
        simp [Except.map, heof']
      · rw [hreturned.lRet_eq]
        exact Nat.lt_add_one _
      · rw [hreturned.pending_eq, hrest]
      · rw [hsplit, rough_skip hs₁, hreturned.pending_eq, ← hrough, hpending]

/-- A call without a complete line to return: what it has read lies at the front
of the buffer, and it returns `0` just if it has read nothing. -/
theorem readConfigLine_tail
    {c : Conf} {chunks : List Chunk} {skipped piece : CStr} (hc : Between c)
    (hskipped : Newlines skipped) (hpiece : 10 ∉ piece)
    (hunread : c.pending ++ content chunks = skipped ++ piece) :
    readConfigLine c chunks = .error .oversize ∨
      ∃ c' newlines, readConfigLine c chunks = .ok (!(newlines ++ piece).isEmpty, c', []) ∧
        c'.Ready ∧ c'.eof = true ∧ 10 ∉ c'.pending ∧ c'.held = newlines ++ piece ∧
        Newlines newlines ∧ (newlines ≠ [] ↔ Rough c.pending chunks) ∧
        ∀ b, c'.held.getLast? = some b → b ≠ 10 → c'.buf c'.bStored = 10 := by
  have hready := hc.ready
  rw [← pending_started] at hunread ⊢
  obtain ⟨skipped₁, held, newlines, hsplit, hs₁, hno, hmore, hnewlines⟩ :=
    tail_of_append hskipped hpiece hunread
  have hcheck := checkForLine_none hready hsplit hs₁ hno
  obtain ⟨hready₂, hpending₂⟩ := hready.skip hsplit
  have hcall := readConfigLine_of_none chunks hcheck ((eof_started c).trans hc.eof)
  set c₂ := ({ c.started with lRet := c.started.lRet + skipped₁.length } : Conf)
  have hpending : c₂.compact.pending = held := (pending_compact c₂).trans hpending₂
  rcases fillBuf_tail hready₂.compact (by rw [hpending]; exact hno)
    (by rw [hpending]; exact hmore) hnewlines hpiece with
    hover | ⟨c', hfill, hready', heof', hno', hheld, hclosed⟩
  · exact Or.inl (by rw [hcall, hover]; rfl)
  · have hbytes : c'.held = newlines ++ piece := by
      have hfront : c₂.compact.held = held := hpending
      rw [hheld, hfront, hmore]
    refine Or.inr ⟨c', newlines, ?_, hready', heof', hno', hbytes, hnewlines, ?_, hclosed⟩
    · have hempty : (c'.bStored == 0) = (newlines ++ piece).isEmpty := by
        have hlength : c'.held.length = c'.bStored := length_window ..
        rw [← hbytes, ← hlength]
        cases c'.held <;> rfl
      rw [hcall, hfill]
      simp [Except.map, heof', hempty]
    · rw [hsplit, rough_tail hs₁ hno hmore hnewlines hpiece]

/-- At the end of the file there are no more lines. -/
theorem readConfigLine_done
    {c : Conf} (hc : c.Ready) (heof : c.eof = true) (hno : 10 ∉ c.pending) :
    ∃ c', readConfigLine c [] = .ok (false, c', []) := by
  have hcheck := checkForLine_none hc (List.nil_append _).symm (by simp [Newlines]) hno
  refine ⟨{ c with lRet := c.lRet + 0 }, ?_⟩
  rw [readConfigLine, hc.started_eq, hcheck]
  exact (if_neg Bool.false_ne_true).trans (if_pos heof)

/-! ## What `read` is asked for -/

/-- The number of bytes a `read` asks for. -/
def Conf.room (c : Conf) : ℕ :=
  c.bAlloc - c.bStored

/-- The calls of `read` in the loop over it: the buffer of a call, and what is
still to be read of the file. -/
inductive Asks : Conf → List Chunk → Conf → List Chunk → Prop
  | now (c : Conf) (chunks : List Chunk) : Asks c chunks c chunks
  | next {c d : Conf} {chunk : Chunk} {chunks unread : List Chunk}
      (hfits : chunk.bytes.length ≤ c.room)
      (hnone : (checkForLine (c.store chunk.bytes).grow).2 = false)
      (hlater : Asks (checkForLine (c.store chunk.bytes).grow).1 chunks d unread) :
      Asks c (chunk :: chunks) d unread

/-- The loop ends in `oversize` just if a chunk is longer than what `read` is asked
for. -/
theorem fillBuf_eq_oversize_iff {c : Conf} {chunks : List Chunk} :
    fillBuf c chunks = .error .oversize ↔
      ∃ d chunk unread, Asks c chunks d (chunk :: unread) ∧ d.room < chunk.bytes.length := by
  induction chunks generalizing c with
  | nil =>
      refine iff_of_false (fun hstop => nomatch hstop) ?_
      rintro ⟨d, chunk, unread, hasks, -⟩
      cases hasks
  | cons chunk chunks ih =>
      rw [fillBuf]
      by_cases hover : c.bAlloc - c.bStored < chunk.bytes.length
      · rw [if_pos hover]
        exact iff_of_true rfl ⟨c, chunk, chunks, .now c _, hover⟩
      have hfits : chunk.bytes.length ≤ c.room := Nat.not_lt.mp hover
      rw [if_neg hover]
      by_cases hfound : (checkForLine (c.store chunk.bytes).grow).2 = true
      · refine iff_of_false (by simp [hfound]) ?_
        rintro ⟨d, chunk', unread, hasks, hlong⟩
        cases hasks with
        | now => exact hover hlong
        | next _ hnone => exact Bool.false_ne_true (hnone.symm.trans hfound)
      · have hnone := Bool.eq_false_iff.mpr hfound
        simp only [hnone, Bool.false_eq_true, if_false]
        rw [ih]
        constructor
        · rintro ⟨d, chunk', unread, hasks, hlong⟩
          exact ⟨d, chunk', unread, .next hfits hnone hasks, hlong⟩
        · rintro ⟨d, chunk', unread, hasks, hlong⟩
          cases hasks with
          | now => exact absurd hlong hover
          | next _ _ hlater => exact ⟨d, chunk', unread, hlater, hlong⟩

/-- The calls of `read` in a run of calls of `read_config_line`; behind the
`k`-th of them the callers change the buffer by `change k`. -/
inductive AsksIn (change : ℕ → Conf → Conf) : ℕ → Conf → List Chunk → Conf → List Chunk → Prop
  | now {k : ℕ} {c d : Conf} {chunks unread : List Chunk}
      (hnone : (checkForLine c.started).2 = false) (heof : (checkForLine c.started).1.eof = false)
      (hasks : Asks (checkForLine c.started).1.compact chunks d unread) :
      AsksIn change k c chunks d unread
  | later {k : ℕ} {c c' d : Conf} {chunks chunks' unread : List Chunk} {ret : Bool}
      (hcall : readConfigLine c chunks = .ok (ret, c', chunks'))
      (hlater : AsksIn change (k + 1) (change k c') chunks' d unread) :
      AsksIn change k c chunks d unread

/-- A `read` of the run is said to bring more bytes than it asks for. -/
def Overlong (change : ℕ → Conf → Conf) (k : ℕ) (c : Conf) (chunks : List Chunk) : Prop :=
  ∃ d chunk unread, AsksIn change k c chunks d (chunk :: unread) ∧ d.room < chunk.bytes.length

theorem Overlong.later
    {change : ℕ → Conf → Conf} {k : ℕ} {c c' : Conf} {chunks chunks' : List Chunk} {ret : Bool}
    (h : Overlong change (k + 1) (change k c') chunks')
    (hcall : readConfigLine c chunks = .ok (ret, c', chunks')) : Overlong change k c chunks := by
  obtain ⟨d, chunk, unread, hasks, hlong⟩ := h
  exact ⟨d, chunk, unread, .later hcall hasks, hlong⟩

theorem map_eq_error_iff {ε α β : Type*} {f : α → β} {x : Except ε α} {e : ε} :
    x.map f = .error e ↔ x = .error e := by
  cases x <;> simp [Except.map]

/-- A call ends in `oversize` only for a chunk longer than what `read` is asked for. -/
theorem overlong_of_readConfigLine
    (change : ℕ → Conf → Conf) (k : ℕ) {c : Conf} {chunks : List Chunk}
    (hstop : readConfigLine c chunks = .error .oversize) : Overlong change k c chunks := by
  rw [readConfigLine] at hstop
  by_cases hfound : (checkForLine c.started).2 = true
  · rw [if_pos hfound] at hstop
    cases hstop
  rw [if_neg hfound] at hstop
  by_cases heof : (checkForLine c.started).1.eof = true
  · rw [if_pos heof] at hstop
    cases hstop
  rw [if_neg heof, map_eq_error_iff] at hstop
  obtain ⟨d, chunk, unread, hasks, hlong⟩ := fillBuf_eq_oversize_iff.mp hstop
  exact ⟨d, chunk, unread, .now (Bool.eq_false_iff.mpr hfound) (Bool.eq_false_iff.mpr heof) hasks,
    hlong⟩

end Config
end Newsbaoter
