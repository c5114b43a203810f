import Newsbaoter.Config.Reader

/-!
# Lines of a text

The lines that a configuration file has by its newlines, and the one way of
splitting a file into reads that matters to the reader: whether the last read
brings nothing but newlines.
-/

namespace Newsbaoter
namespace Config

/-! ## Texts of lines -/

/-- The non-empty lines of a file. -/
def lines (text : CStr) : List CStr :=
  (text.splitOn 10).filter fun line => line ≠ []

/-- Empty, or ending in a newline. -/
def Terminated (text : CStr) : Prop :=
  ∀ b, text.getLast? = some b → b = 10

def Newlines (text : CStr) : Prop :=
  ∀ b ∈ text, b = 10

theorem splitOn_newline_cons (text : CStr) :
    (10 :: text).splitOn 10 = [] :: text.splitOn 10 :=
  List.splitOn_append_cons_self_of_not_mem List.not_mem_nil text

theorem lines_cons
    {skipped line : CStr} (rest : CStr) (hskipped : Newlines skipped)
    (hline : 10 ∉ line) (hne : line ≠ []) :
    lines (skipped ++ line ++ 10 :: rest) = line :: lines rest := by
  induction skipped with
  | nil =>
      rw [List.nil_append, lines, List.splitOn_append_cons_self_of_not_mem hline,
        List.filter_cons_of_pos (by simpa using hne), lines]
  | cons b skipped ih =>
      have hb : b = 10 := hskipped b List.mem_cons_self
      have hrest := ih fun b' hb' => hskipped b' (List.mem_cons_of_mem b hb')
      rw [hb, List.cons_append, List.cons_append, lines, splitOn_newline_cons,
        List.filter_cons_of_neg (by simp)]
      exact hrest

/-- The piece behind the last newline of a text. -/
def lastPiece (text : CStr) : CStr :=
  (text.splitOn 10).getLast (List.splitOn_ne_nil 10 text)

theorem lastPiece_append_cons (before rest : CStr) :
    lastPiece (before ++ 10 :: rest) = lastPiece rest := by
  simp only [lastPiece, List.splitOn_append_cons_self]
  exact List.getLast_append_of_ne_nil _ (List.splitOn_ne_nil 10 rest)

theorem lastPiece_tail
    {skipped piece : CStr} (hskipped : Newlines skipped) (hpiece : 10 ∉ piece) :
    lastPiece (skipped ++ piece) = piece := by
  induction skipped with
  | nil => simp only [lastPiece, List.nil_append, List.splitOn_eq_singleton hpiece,
      List.getLast_singleton]
  | cons b skipped ih =>
      obtain ⟨hb, hrest⟩ := List.forall_mem_cons.mp hskipped
      rw [hb, List.cons_append]
      exact (lastPiece_append_cons [] _).trans (ih hrest)

theorem lines_tail
    {skipped piece : CStr} (hskipped : Newlines skipped) (hpiece : 10 ∉ piece) :
    lines (skipped ++ piece) = if piece = [] then [] else [piece] := by
  induction skipped with
  | nil =>
      rw [List.nil_append, lines, List.splitOn_eq_singleton hpiece, List.filter_singleton]
      by_cases hempty : piece = []
      · simp [hempty]
      · simp [hempty]
  | cons b skipped ih =>
      obtain ⟨hb, hrest⟩ := List.forall_mem_cons.mp hskipped
      rw [hb, List.cons_append, lines, splitOn_newline_cons, List.filter_cons_of_neg (by simp)]
      exact ih hrest

theorem terminated_append_cons (l₁ l₂ : CStr) :
    Terminated (l₁ ++ 10 :: l₂) ↔ Terminated l₂ := by
  rw [Terminated, Terminated, List.getLast?_append, List.getLast?_cons]
  cases l₂.getLast? <;> simp

theorem terminated_of_getLast {text : CStr} (h : text.getLast? = some 10) : Terminated text :=
  fun _ hb => (Option.some.inj (h.symm.trans hb)).symm

theorem terminated_of_newlines {text : CStr} (h : Newlines text) : Terminated text :=
  fun b hb => h b (List.mem_of_getLast? hb)

theorem terminated_append_of_newlines {l₁ : CStr} (h : Newlines l₁) (l₂ : CStr) :
    Terminated (l₁ ++ l₂) ↔ Terminated l₂ := by
  rw [Terminated, Terminated, List.getLast?_append]
  cases hl₂ : l₂.getLast? with
  | some b => simp
  | none =>
      simp only [reduceCtorEq, false_imp_iff, implies_true, iff_true]
      exact terminated_of_newlines h

theorem Terminated.append_newlines
    {l₁ l₂ : CStr} (h : Terminated l₁) (hl₂ : Newlines l₂) : Terminated (l₁ ++ l₂) := by
  intro b hb
  rw [List.getLast?_append] at hb
  cases hlast : l₂.getLast? with
  | some c =>
      rw [hlast] at hb
      cases hb
      exact hl₂ b (List.mem_of_getLast? hlast)
  | none =>
      rw [hlast] at hb
      exact h b hb

theorem eq_nil_of_terminated {text : CStr} (h : Terminated text) (hno : 10 ∉ text) :
    text = [] := by
  rcases List.eq_nil_or_concat text with rfl | ⟨l, b, rfl⟩
  · rfl
  · have hb : b = 10 := h b (by simp)
    exact absurd (by simp [hb]) hno

/-- A text is newlines and a piece without one, or newlines, a line, and a rest. -/
theorem tail_or_line (text : CStr) :
    (∃ skipped piece, text = skipped ++ piece ∧ Newlines skipped ∧ 10 ∉ piece) ∨
      ∃ skipped line rest, text = skipped ++ line ++ 10 :: rest ∧
        Newlines skipped ∧ 10 ∉ line ∧ line ≠ [] := by
  induction text with
  | nil => exact Or.inl ⟨[], [], rfl, by simp [Newlines], by simp⟩
  | cons b text ih =>
      by_cases hb : b = 10
      · have hnewlines : ∀ {skipped}, Newlines skipped → Newlines (b :: skipped) := by
          intro skipped hskipped
          rw [Newlines, List.forall_mem_cons]
          exact ⟨hb, hskipped⟩
        rcases ih with
          ⟨skipped, piece, rfl, hskipped, hpiece⟩ | ⟨skipped, line, rest, rfl, hskipped, hline⟩
        · exact Or.inl ⟨b :: skipped, piece, rfl, hnewlines hskipped, hpiece⟩
        · exact Or.inr ⟨b :: skipped, line, rest, by simp, hnewlines hskipped, hline⟩
      · by_cases hmem : 10 ∈ b :: text
        · obtain ⟨line, rest, hsplit, hline⟩ := List.eq_append_cons_of_mem hmem
          refine Or.inr ⟨[], line, rest, by simpa using hsplit, by simp [Newlines], hline, ?_⟩
          rintro rfl
          rw [List.nil_append, List.cons.injEq] at hsplit
          exact hb hsplit.1
        · exact Or.inl ⟨[], b :: text, rfl, by simp [Newlines], hmem⟩

/-- The bytes of the lines are bytes of the text. -/
theorem mem_of_mem_lines {text line : CStr} (h : line ∈ lines text) {b : UInt8} (hb : b ∈ line) :
    b ∈ text := by
  induction hn : text.length using Nat.strong_induction_on generalizing text with
  | _ n ih =>
      rcases tail_or_line text with
        ⟨skipped, piece, rfl, hskipped, hpiece⟩ |
          ⟨skipped, first, rest, rfl, hskipped, hfirst, hne⟩
      · rw [lines_tail hskipped hpiece] at h
        split at h
        · cases h
        · rw [List.mem_singleton.mp h] at hb
          exact List.mem_append_right _ hb
      · rw [lines_cons rest hskipped hfirst hne] at h
        rcases List.mem_cons.mp h with rfl | h
        · simp [hb]
        · have hlt : rest.length < n := by
            rw [← hn, List.length_append, List.length_cons]
            omega
          have hrest := ih rest.length hlt h rfl
          simp [hrest]

/-- Behind newlines, a piece without one has no complete line. -/
theorem not_line_of_tail
    {newlines piece skipped line rest : CStr} (hnewlines : Newlines newlines)
    (hpiece : 10 ∉ piece) (hskipped : Newlines skipped) (hline : 10 ∉ line) (hne : line ≠ []) :
    newlines ++ piece ≠ skipped ++ line ++ 10 :: rest := by
  induction newlines generalizing skipped with
  | nil =>
      intro h
      rw [List.nil_append] at h
      exact hpiece (by simp [h])
  | cons b newlines ih =>
      obtain ⟨hb, hrest⟩ := List.forall_mem_cons.mp hnewlines
      intro h
      cases skipped with
      | nil =>
          obtain ⟨c, line, rfl⟩ := List.exists_cons_of_ne_nil hne
          rw [List.cons_append, List.nil_append, List.cons_append, List.cons.injEq] at h
          exact hline (by simp [← h.1, hb])
      | cons c skipped =>
          rw [List.cons_append, List.cons_append, List.cons_append, List.cons.injEq] at h
          exact ih hrest (List.forall_mem_cons.mp hskipped).2 h.2

/-- What the first part of a text shows of its first line: all of it, or newlines
and a piece without one. -/
theorem line_of_append
    {l₁ l₂ skipped line rest : CStr} (hskipped : Newlines skipped) (hline : 10 ∉ line)
    (h : l₁ ++ l₂ = skipped ++ line ++ 10 :: rest) :
    (∃ rest₁, l₁ = skipped ++ line ++ 10 :: rest₁ ∧ rest = rest₁ ++ l₂) ∨
      ∃ skipped₁ piece skipped₂, l₁ = skipped₁ ++ piece ∧ Newlines skipped₁ ∧
        10 ∉ piece ∧ piece ++ l₂ = skipped₂ ++ line ++ 10 :: rest ∧
        Newlines skipped₂ := by
  rcases List.append_eq_append_iff.mp h with ⟨more, hmore, hl₂⟩ | ⟨more, hl₁, hmore⟩
  · rcases List.append_eq_append_iff.mp hmore with ⟨m, hl₁, hm⟩ | ⟨m, hl₁, hm⟩
    · -- `l₁` ends within the line
      refine Or.inr ⟨skipped, m, [], hl₁, hskipped, ?_, ?_, by simp [Newlines]⟩
      · intro hmem
        apply hline
        rw [hm]
        exact List.mem_append_left _ hmem
      · rw [hl₂, List.nil_append, hm, List.append_assoc]
    · -- `l₁` ends within the skipped newlines
      refine Or.inr ⟨l₁, [], m, by simp, ?_, by simp, ?_, ?_⟩
      · intro b hb
        apply hskipped b
        rw [hl₁]
        exact List.mem_append_left _ hb
      · rw [List.nil_append, hl₂, hm]
      · intro b hb
        apply hskipped b
        rw [hl₁]
        exact List.mem_append_right _ hb
  · cases more with
    | nil =>
        -- `l₁` ends just before the newline
        refine Or.inr ⟨skipped, line, [], by simpa using hl₁, hskipped, hline, ?_,
          by simp [Newlines]⟩
        rw [List.nil_append, hmore, List.nil_append]
    | cons b more =>
        rw [List.cons_append, List.cons.injEq] at hmore
        obtain ⟨rfl, rfl⟩ := hmore
        exact Or.inl ⟨more, hl₁, by rfl⟩

/-! ## The last read -/

/-- The last `read` brings nothing but newlines, and what was unread before it
ends with a complete line. -/
def BlankRead (unread : CStr) (chunks : List Chunk) : Prop :=
  ∃ init last, chunks = init ++ [last] ∧ Newlines last.bytes ∧
    Terminated (unread ++ content init)

/-- Behind complete lines a `read` begins with newlines, and no complete line
comes after them. -/
def Rough (unread : CStr) (chunks : List Chunk) : Prop :=
  ∃ before later newlines piece, chunks = before ++ later ∧
    Terminated (unread ++ content before) ∧ content later = newlines ++ piece ∧
    Newlines newlines ∧ newlines ≠ [] ∧ 10 ∉ piece

theorem content_append (chunks chunks' : List Chunk) :
    content (chunks ++ chunks') = content chunks ++ content chunks' := by
  simp [content]

theorem content_cons (chunk : Chunk) (chunks : List Chunk) :
    content (chunk :: chunks) = chunk.bytes ++ content chunks := by
  simp [content]

theorem newlines_content
    {chunks : List Chunk} (h : ∀ chunk ∈ chunks, Newlines chunk.bytes) :
    Newlines (content chunks) := by
  intro b hb
  obtain ⟨l, hl, hbl⟩ := List.mem_flatten.mp hb
  obtain ⟨chunk, hchunk, rfl⟩ := List.mem_map.mp hl
  exact h chunk hchunk b hbl

theorem newlines_of_content
    {chunks : List Chunk} (h : Newlines (content chunks)) : ∀ chunk ∈ chunks, Newlines chunk.bytes :=
  fun _ hchunk b hb =>
    h b (List.mem_flatten_of_mem (List.mem_map_of_mem hchunk) hb)

/-- In a text of complete lines there is no piece behind the newlines. -/
theorem rough_iff_blankRead
    {unread : CStr} {chunks : List Chunk} (h : Terminated (unread ++ content chunks)) :
    Rough unread chunks ↔ BlankRead unread chunks := by
  constructor
  · rintro ⟨before, later, newlines, piece, rfl, hbefore, hlater, hnewlines, hne, hpiece⟩
    have hpieceNil : piece = [] := by
      obtain ⟨front, b, rfl⟩ := (List.eq_nil_or_concat newlines).resolve_left hne
      have hb : b = 10 := hnewlines b (by simp)
      rw [content_append, hlater, hb] at h
      apply eq_nil_of_terminated _ hpiece
      rw [← terminated_append_cons (unread ++ content before ++ front)]
      simpa using h
    rw [hpieceNil, List.append_nil] at hlater
    have hreads := newlines_of_content (hlater ▸ hnewlines)
    have hlaterNe : later ≠ [] := by
      rintro rfl
      exact hne (by rw [← hlater]; rfl)
    refine ⟨before ++ later.dropLast, later.getLast hlaterNe, ?_, ?_, ?_⟩
    · rw [List.append_assoc, List.dropLast_concat_getLast]
    · exact hreads _ (List.getLast_mem hlaterNe)
    · rw [content_append, ← List.append_assoc]
      exact hbefore.append_newlines (newlines_content fun chunk hchunk =>
        hreads chunk (List.dropLast_subset later hchunk))
  · rintro ⟨init, last, rfl, hlast, hbefore⟩
    exact ⟨init, [last], last.bytes, [], rfl, hbefore, by simp [content], hlast, last.nonempty,
      by simp⟩

theorem rough_congr
    {unread unread' : CStr} (chunks : List Chunk)
    (h : ∀ more, Terminated (unread ++ more) ↔ Terminated (unread' ++ more)) :
    Rough unread chunks ↔ Rough unread' chunks := by
  constructor
  · rintro ⟨before, later, newlines, piece, hchunks, hbefore, hrest⟩
    exact ⟨before, later, newlines, piece, hchunks, (h _).mp hbefore, hrest⟩
  · rintro ⟨before, later, newlines, piece, hchunks, hbefore, hrest⟩
    exact ⟨before, later, newlines, piece, hchunks, (h _).mpr hbefore, hrest⟩

theorem rough_skip
    {skipped : CStr} (hskipped : Newlines skipped) (unread : CStr) (chunks : List Chunk) :
    Rough (skipped ++ unread) chunks ↔ Rough unread chunks := by
  apply rough_congr
  intro more
  rw [List.append_assoc]
  exact terminated_append_of_newlines hskipped _

theorem rough_line (l unread : CStr) (chunks : List Chunk) :
    Rough (l ++ 10 :: unread) chunks ↔ Rough unread chunks := by
  apply rough_congr
  intro more
  rw [List.append_assoc, List.cons_append]
  exact terminated_append_cons _ _

/-- A `read` in front of a complete line is one more read. -/
theorem rough_cons
    {unread : CStr} {chunk : Chunk} {chunks : List Chunk} {skipped line rest : CStr}
    (hno : 10 ∉ unread) (hskipped : Newlines skipped) (hline : 10 ∉ line) (hne : line ≠ [])
    (h : unread ++ content (chunk :: chunks) = skipped ++ line ++ 10 :: rest) :
    Rough unread (chunk :: chunks) ↔ Rough (unread ++ chunk.bytes) chunks := by
  constructor
  · rintro ⟨before, later, newlines, piece, hchunks, hbefore, hlater, hnewlines, hsome, hpiece⟩
    cases before with
    | nil =>
        have hunread : unread = [] := by
          apply eq_nil_of_terminated _ hno
          simpa [content] using hbefore
        rw [hunread, List.nil_append, hchunks, List.nil_append, hlater] at h
        exact absurd h (not_line_of_tail hnewlines hpiece hskipped hline hne)
    | cons first before =>
        rw [List.cons_append, List.cons.injEq] at hchunks
        obtain ⟨rfl, rfl⟩ := hchunks
        rw [content_cons, ← List.append_assoc] at hbefore
        exact ⟨before, later, newlines, piece, rfl, hbefore, hlater, hnewlines, hsome, hpiece⟩
  · rintro ⟨before, later, newlines, piece, rfl, hbefore, hrest⟩
    refine ⟨chunk :: before, later, newlines, piece, rfl, ?_, hrest⟩
    rwa [content_cons, ← List.append_assoc]

/-- Where no complete line is left, the reads are rough just if their bytes,
behind the piece that is held, begin with a newline. -/
theorem rough_tail
    {skipped held newlines piece : CStr} {chunks : List Chunk} (hskipped : Newlines skipped)
    (hheld : 10 ∉ held) (h : held ++ content chunks = newlines ++ piece)
    (hnewlines : Newlines newlines) (hpiece : 10 ∉ piece) :
    Rough (skipped ++ held) chunks ↔ newlines ≠ [] := by
  rw [rough_skip hskipped]
  constructor
  · rintro ⟨before, later, newlines', piece', rfl, -, hlater, hnewlines', hsome, -⟩ rfl
    obtain ⟨b, rest, rfl⟩ := List.exists_cons_of_ne_nil hsome
    have hb := hnewlines' b List.mem_cons_self
    apply hpiece
    rw [List.nil_append, content_append, hlater] at h
    rw [← h, hb]
    simp
  · intro hsome
    have hempty : held = [] := by
      obtain ⟨b, rest, rfl⟩ := List.exists_cons_of_ne_nil hsome
      by_contra hne
      obtain ⟨c, held, rfl⟩ := List.exists_cons_of_ne_nil hne
      rw [List.cons_append, List.cons_append, List.cons.injEq] at h
      exact hheld (by rw [h.1, hnewlines b List.mem_cons_self]; exact List.mem_cons_self)
    rw [hempty, List.nil_append] at h
    refine ⟨[], chunks, newlines, piece, rfl, ?_, h, hnewlines, hsome, hpiece⟩
    rw [hempty]
    simp [Terminated, content]

end Config
end Newsbaoter
