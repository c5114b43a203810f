import Newsbaoter.Config.Checked

/-!
# The reader stays in its buffer

Between two calls the offsets are in order and the buffer is not full, whatever
the callers write.  So no check of the reader fails, and as every line that is
returned is taken from the bytes that are left, only so many calls return one.
-/

namespace Newsbaoter
namespace Config

open Newsbaoter.Support

/-! ## One search -/

/-- What `check_for_line` does to the offsets. -/
structure Searched (c c' : Conf) (found : Bool) : Prop where
  ready : c'.Ready
  bAlloc_eq : c'.bAlloc = c.bAlloc
  eof_eq : c'.eof = c.eof
  bStored_le : c'.bStored ≤ c.bStored
  takes : c'.bStored - c'.lRet + found.toNat ≤ c.bStored - c.lRet

theorem searched_checkForLine {c : Conf} (h : c.Ready) :
    Searched c (checkForLine c).1 (checkForLine c).2 := by
  rcases tail_or_line c.pending with
    ⟨skipped, piece, hsplit, hskipped, hpiece⟩ |
      ⟨skipped, line, rest, hsplit, hskipped, hline, hne⟩
  · obtain ⟨hready, -⟩ := h.skip hsplit
    rw [checkForLine_none h hsplit hskipped hpiece]
    refine ⟨hready, rfl, rfl, Nat.le_refl _, ?_⟩
    rw [Bool.toNat_false]
    dsimp only
    omega
  · obtain ⟨c', hcheck, hreturned⟩ := checkForLine_line h hsplit hskipped hline hne
    rw [hcheck]
    refine ⟨hreturned.ready h, hreturned.bAlloc_eq, hreturned.eof_eq, hreturned.bStored_le, ?_⟩
    have hcount := congrArg List.length hsplit
    rw [length_pending, List.length_append, List.length_cons] at hcount
    rw [hreturned.bStored_eq, hreturned.lRet_eq, Bool.toNat_true]
    omega

/-! ## One call -/

/-- How many calls can still return `1`: one for each byte that is left, and one
at the end of the file. -/
def budget (c : Conf) (chunks : List Chunk) : ℕ :=
  c.bStored - c.lRet + (content chunks).length + (!c.eof).toNat

/-- How often the calls can still read: once for each chunk, and once for the end
of the file. -/
def readBudget (c : Conf) (chunks : List Chunk) : ℕ :=
  chunks.length + (!c.eof).toNat

/-- What a call does to the offsets and to the file. -/
structure Called (c : Conf) (chunks : List Chunk) (ret : Bool) (c' : Conf)
    (chunks' : List Chunk) (reads : ℕ) : Prop where
  ready : c'.Ready
  fits : c'.bAlloc < 2 ^ 31
  ended : c'.eof = true → chunks' = []
  total_le : c'.bStored + (content chunks').length ≤ c.bStored + (content chunks).length
  reads_le : readBudget c' chunks' + reads ≤ readBudget c chunks
  takes : budget c' chunks' + ret.toNat ≤ budget c chunks

/-- A search that finds a line is a call without a `read`. -/
theorem Searched.called
    {c c' : Conf} {chunks : List Chunk} {found : Bool} (h : Searched c c' found)
    (hfits : c.bAlloc < 2 ^ 31) (hended : c.eof = true → chunks = []) :
    Called c chunks found c' chunks 0 := by
  have hle := h.bStored_le
  have htakes := h.takes
  refine ⟨h.ready, h.bAlloc_eq ▸ hfits, h.eof_eq ▸ hended, by omega, ?_, ?_⟩
  · rw [readBudget, readBudget, h.eof_eq, Nat.add_zero]
  · rw [budget, budget, h.eof_eq]
    omega

/-- A call from smaller offsets. -/
theorem Called.of_le
    {c c₁ c' : Conf} {chunks chunks' : List Chunk} {ret : Bool} {reads : ℕ}
    (h : Called c₁ chunks ret c' chunks' reads) (hstored : c₁.bStored ≤ c.bStored)
    (hleft : c₁.bStored - c₁.lRet ≤ c.bStored - c.lRet) (heof : c₁.eof = c.eof) :
    Called c chunks ret c' chunks' reads := by
  have htotal := h.total_le
  have htakes := h.takes
  refine ⟨h.ready, h.fits, h.ended, by omega, ?_, ?_⟩
  · have hreads := h.reads_le
    unfold readBudget at hreads ⊢
    rwa [heof] at hreads
  · unfold budget at htakes ⊢
    rw [heof] at htakes
    omega

theorem Called.returns
    {c c' : Conf} {chunks chunks' : List Chunk} {reads : ℕ}
    (h : Called c chunks true c' chunks' reads) (ret : Bool) :
    Called c chunks ret c' chunks' reads := by
  have htakes := h.takes
  have hle := Bool.toNat_le ret
  rw [Bool.toNat_true] at htakes
  exact ⟨h.ready, h.fits, h.ended, h.total_le, h.reads_le, by omega⟩

/-- What goes on behind a search without a line. -/
theorem Searched.before
    {c c₁ c' : Conf} {chunks chunks' : List Chunk} {ret : Bool} {reads : ℕ}
    (h : Searched c c₁ false) (hcalled : Called c₁ chunks ret c' chunks' reads) :
    Called c chunks ret c' chunks' reads :=
  hcalled.of_le h.bStored_le h.takes h.eof_eq

/-- What goes on behind a `read` is done with one more. -/
theorem Called.of_read
    {c c' : Conf} {chunk : Chunk} {chunks chunks' : List Chunk} {ret : Bool} {reads : ℕ}
    (hc : c.Ready) (hroom : chunk.bytes.length ≤ c.bAlloc - c.bStored)
    (h : Called (c.store chunk.bytes).grow chunks ret c' chunks' reads) :
    Called c (chunk :: chunks) ret c' chunks' (reads + 1) := by
  obtain ⟨-, hpending, hstored, heof⟩ := hc.read hroom
  have hleft : (c.store chunk.bytes).grow.bStored - (c.store chunk.bytes).grow.lRet =
      c.bStored - c.lRet + chunk.bytes.length := by
    rw [← length_pending, hpending, List.length_append, length_pending]
  refine ⟨h.ready, h.fits, h.ended, ?_, ?_, ?_⟩
  · have htotal := h.total_le
    rw [content_cons, List.length_append]
    omega
  · have hreads := h.reads_le
    unfold readBudget at hreads ⊢
    rw [heof] at hreads
    rw [List.length_cons]
    omega
  · have htakes := h.takes
    unfold budget at htakes ⊢
    rw [heof] at htakes
    rw [content_cons, List.length_append]
    omega

/-- The end of the file. -/
theorem called_end {c : Conf} (hc : c.Ready) (hfits : c.bAlloc < 2 ^ 31) (heof : c.eof = false) :
    Called c [] true { (checkForLine c.closeLine.grow).1 with eof := true } [] 1 := by
  obtain ⟨hready, hpending, hstored⟩ := hc.close
  obtain ⟨-, hbStored, hbAlloc, -⟩ := closeLine_offsets c
  have hsearched := searched_checkForLine hready
  have hlt := hc.bStored_lt
  have hsame : c.closeLine.grow = c.closeLine := by
    rw [Conf.grow, if_neg (by omega)]
  have hleft : c.closeLine.grow.bStored - c.closeLine.grow.lRet = c.bStored - c.lRet := by
    rw [← length_pending, hpending, length_pending]
  have hle := hsearched.bStored_le
  have htakes := hsearched.takes
  refine ⟨⟨hsearched.ready.lRet_le, hsearched.ready.bStored_lt⟩, ?_, fun _ => rfl, ?_, ?_, ?_⟩
  · rw [← hbAlloc, ← hsame, ← hsearched.bAlloc_eq] at hfits
    exact hfits
  · dsimp only
    omega
  · rw [readBudget, readBudget, heof]
    rfl
  · rw [budget, budget, heof]
    simp only [Bool.not_true, Bool.not_false, Bool.toNat_true, Bool.toNat_false]
    omega

/-- The `read` that finds the end of the file, where no check fails. -/
theorem fillBuf_checked_end
    {c : Conf} (rounds : ℕ) (hc : c.Ready) (hfits : c.bAlloc < 2 ^ 31) (heof : c.eof = false) :
    (ConfRead.fillBuf (rounds + 1) c.checked [] = .error .noMemory ∧
        2 ^ 31 - confBufInc ≤ c.bStored) ∨
      ∃ c', ConfRead.fillBuf (rounds + 1) c.checked [] = .ok (c'.checked, [], 1) ∧
        fillBuf c [] = .ok (c', []) ∧ Called c [] true c' [] 1 := by
  have hstore : c.store [] = c := by
    simp [Conf.store]
  have hread : c.checked.read [] = .ok c.checked := by
    rw [read_checked hc, hstore]
    exact if_neg (Nat.not_lt_zero _)
  obtain ⟨-, hbStored, hbAlloc, -⟩ := closeLine_offsets c
  obtain ⟨hready, -, -⟩ := hc.close
  rw [ConfRead.fillBuf, hread, ok_bind, closeLine_checked hc, ok_bind]
  rcases grow_checked (hbAlloc.symm ▸ hfits) with ⟨hgrow, hlarge⟩ | ⟨hgrow, -⟩
  · refine Or.inl ⟨by rw [hgrow]; rfl, ?_⟩
    rwa [hbStored] at hlarge
  · refine Or.inr ⟨_, ?_, rfl, called_end hc hfits heof⟩
    rw [hgrow, ok_bind, checkForLine_checked hready]
    rfl

/-- The loop over `read`, where no check fails. -/
theorem fillBuf_checked
    {c : Conf} {chunks : List Chunk} {rounds : ℕ} (hc : c.Ready) (hfits : c.bAlloc < 2 ^ 31)
    (heof : c.eof = false) (hrounds : chunks.length < rounds) :
    (ConfRead.fillBuf rounds c.checked chunks = .error .oversize ∧
        fillBuf c chunks = .error .oversize) ∨
      (ConfRead.fillBuf rounds c.checked chunks = .error .noMemory ∧
        2 ^ 31 - confBufInc ≤ c.bStored + (content chunks).length) ∨
      ∃ c' chunks' reads,
        ConfRead.fillBuf rounds c.checked chunks = .ok (c'.checked, chunks', reads) ∧
          fillBuf c chunks = .ok (c', chunks') ∧ Called c chunks true c' chunks' reads := by
  obtain ⟨rounds, rfl⟩ := Nat.exists_eq_succ_of_ne_zero (Nat.ne_zero_of_lt hrounds)
  induction chunks generalizing c rounds with
  | nil =>
      rcases fillBuf_checked_end rounds hc hfits heof with
        ⟨hstop, hlarge⟩ | ⟨c', hfill, hfill', hcalled⟩
      · exact Or.inr (Or.inl ⟨hstop, Nat.le_add_right_of_le hlarge⟩)
      · exact Or.inr (Or.inr ⟨c', [], 1, hfill, hfill', hcalled⟩)
  | cons chunk chunks ih =>
      rw [ConfRead.fillBuf, read_checked hc, fillBuf]
      by_cases hover : c.bAlloc - c.bStored < chunk.bytes.length
      · rw [if_pos hover, if_pos hover]
        exact Or.inl ⟨rfl, rfl⟩
      rw [if_neg hover, if_neg hover, ok_bind]
      have hroom := Nat.not_lt.mp hover
      obtain ⟨hready, -, hstored, heof₁⟩ := hc.read hroom
      have hsum : (c.store chunk.bytes).bStored = c.bStored + chunk.bytes.length := rfl
      rcases grow_checked (c := c.store chunk.bytes) hfits with ⟨hgrow, hlarge⟩ | ⟨hgrow, hfits₁⟩
      · refine Or.inr (Or.inl ⟨by rw [hgrow]; rfl, ?_⟩)
        rw [content_cons, List.length_append]
        omega
      rw [hgrow, ok_bind, checkForLine_checked hready, ok_bind]
      have hsearched := searched_checkForLine hready
      rcases hcheck : checkForLine (c.store chunk.bytes).grow with ⟨c₂, found⟩
      rw [hcheck] at hsearched
      cases found with
      | true =>
          have hended : (c.store chunk.bytes).grow.eof = true → chunks = [] := by
            rw [heof₁, heof]
            exact fun h => absurd h Bool.false_ne_true
          have hcalled := (hsearched.called hfits₁ hended).of_read hc hroom
          exact Or.inr (Or.inr ⟨c₂, chunks, 1, rfl, rfl, hcalled⟩)
      | false =>
          obtain ⟨rounds, rfl⟩ :=
            Nat.exists_eq_succ_of_ne_zero (Nat.ne_zero_of_lt (Nat.lt_of_succ_lt_succ hrounds))
          have hfits₂ : c₂.bAlloc < 2 ^ 31 := hsearched.bAlloc_eq ▸ hfits₁
          have heof₂ : c₂.eof = false := hsearched.eof_eq.trans (heof₁.trans heof)
          have hle := hsearched.bStored_le
          rcases ih hsearched.ready hfits₂ heof₂ rounds (Nat.lt_of_succ_lt_succ hrounds) with
            ⟨hstop, hstop'⟩ | ⟨hstop, hlarge⟩ | ⟨c', chunks', reads, hfill, hfill', hcalled⟩
          · refine Or.inl ⟨?_, hstop'⟩
            simp only [hstop, Bool.false_eq_true, if_false]
            rfl
          · refine Or.inr (Or.inl ⟨?_, ?_⟩)
            · simp only [hstop, Bool.false_eq_true, if_false]
              rfl
            · rw [content_cons, List.length_append]
              omega
          · refine Or.inr (Or.inr ⟨c', chunks', reads + 1, ?_, hfill',
              (hsearched.before hcalled).of_read hc hroom⟩)
            simp only [hfill, Bool.false_eq_true, if_false]
            rfl

theorem started_checked (c : Conf) : c.checked.started = c.started.checked := by
  have hcast : (c.bAlloc : ℤ) < 1 ↔ c.bAlloc < 1 := by omega
  rw [ConfRead.started, Conf.started, checked_bAlloc]
  by_cases hfresh : c.bAlloc < 1
  · rw [if_pos (hcast.mpr hfresh), if_pos hfresh]
    rfl
  · rw [if_neg (mt hcast.mp hfresh), if_neg hfresh]

theorem started_offsets (c : Conf) :
    c.started.bStored = c.bStored ∧ c.started.lRet = c.lRet ∧ c.started.eof = c.eof := by
  rw [Conf.started]
  split <;> exact ⟨rfl, rfl, rfl⟩

/-- What holds between two calls, whatever is in the buffer. -/
structure Held (c : Conf) (chunks : List Chunk) : Prop where
  ready : c.started.Ready
  fits : c.started.bAlloc < 2 ^ 31
  ended : c.eof = true → chunks = []

/-- No check of a call fails, and it does what the reader over natural numbers
does. -/
theorem readConfigLine_checked {c : Conf} {chunks : List Chunk} (hc : Held c chunks) :
    (c.checked.readConfigLine chunks = .error .oversize ∧
        readConfigLine c chunks = .error .oversize) ∨
      (c.checked.readConfigLine chunks = .error .noMemory ∧
        2 ^ 31 - confBufInc ≤ c.bStored + (content chunks).length) ∨
      ∃ ret c' chunks' reads,
        c.checked.readConfigLine chunks = .ok (⟨ret, c'.checked, reads⟩, chunks') ∧
          readConfigLine c chunks = .ok (ret, c', chunks') ∧
          Called c chunks ret c' chunks' reads := by
  obtain ⟨hbStored, hlRet, heof⟩ := started_offsets c
  have hsearched := searched_checkForLine hc.ready
  rw [ConfRead.readConfigLine, started_checked, checkForLine_checked hc.ready, ok_bind,
    readConfigLine]
  rcases hcheck : checkForLine c.started with ⟨c₁, found⟩
  rw [hcheck] at hsearched
  dsimp only at hsearched
  have hcalled : Called c chunks found c₁ chunks 0 :=
    (hsearched.called hc.fits (heof ▸ hc.ended)).of_le (by omega) (by omega) heof
  have hle := hsearched.ready.lRet_le
  have hlt := hsearched.ready.bStored_lt
  cases found with
  | true => exact Or.inr (Or.inr ⟨true, c₁, chunks, 0, rfl, rfl, hcalled⟩)
  | false =>
      dsimp only
      rw [if_neg Bool.false_ne_true, if_neg Bool.false_ne_true, checked_eof]
      by_cases hend : c₁.eof = true
      · rw [if_pos hend, if_pos hend]
        exact Or.inr (Or.inr ⟨false, c₁, chunks, 0, rfl, rfl, hcalled⟩)
      rw [if_neg hend, if_neg hend]
      have hmoved : c₁.checked.toFront c₁.checked.lRet (c₁.checked.bStored - c₁.checked.lRet) =
          .ok ({ c₁ with buf := memmove c₁.buf c₁.lRet (c₁.bStored - c₁.lRet) } : Conf).checked := by
        rw [checked_left hle, checked_lRet]
        exact toFront_checked (by omega)
      rw [hmoved, ok_bind, checked_left hle]
      rcases fillBuf_checked hsearched.ready.compact hcalled.fits (Bool.eq_false_iff.mpr hend)
        (Nat.lt_add_one chunks.length) with
        ⟨hstop, hstop'⟩ | ⟨hstop, hlarge⟩ | ⟨c', chunks', reads, hfill, hfill', hafter⟩
      · exact Or.inl ⟨congrArg (Except.map _) hstop, congrArg (Except.map _) hstop'⟩
      · refine Or.inr (Or.inl ⟨congrArg (Except.map _) hstop, ?_⟩)
        have hcompact : c₁.compact.bStored = c₁.bStored - c₁.lRet := rfl
        have htotal := hcalled.total_le
        omega
      · have hempty : decide (c'.checked.bStored ≤ 0) = (c'.bStored == 0) := by
          rw [checked_bStored, Bool.eq_iff_iff, decide_eq_true_iff, beq_iff_eq]
          omega
        refine Or.inr (Or.inr ⟨!(c'.eof && c'.bStored == 0), c', chunks', reads, ?_,
          congrArg (Except.map _) hfill', ?_⟩)
        · refine (congrArg (Except.map _) hfill).trans ?_
          rw [Except.map, hempty]
          rfl
        · have hcompact : Called c₁ chunks (!(c'.eof && c'.bStored == 0)) c' chunks' reads :=
            (hafter.returns _).of_le (Nat.sub_le _ _) (Nat.le_refl _) rfl
          exact (hsearched.before hcompact).of_le (by omega) (by omega) heof

/-! ## All calls -/

/-- `n` calls; behind the `k`-th of them the callers may have changed every byte
of the buffer. -/
def calls (rewrite : ℕ → (ℕ → UInt8) → ℕ → UInt8) :
    ℕ → ℕ → ConfRead → List Chunk → Except Fault (List Call)
  | 0, _, _, _ => .ok []
  | n + 1, k, c, chunks =>
      (c.readConfigLine chunks).bind fun r =>
        (calls rewrite n (k + 1) { r.1.after with buf := rewrite k r.1.after.buf } r.2).map
          (r.1 :: ·)

def ConfRead.InOrder (c : ConfRead) : Prop :=
  0 ≤ c.lRet ∧ c.lRet ≤ c.bStored ∧ c.bStored < c.bAlloc

/-- The offsets are in order behind every call, the calls read only so often, and
only so many of them return `1`, behind the end of the file and on the whole. -/
structure WithinBounds (log : List Call) (reads returned : ℕ) : Prop where
  inOrder : ∀ call ∈ log, call.after.InOrder
  reads_le : (log.map Call.reads).sum ≤ reads
  atEnd : ∀ before call after, log = before ++ call :: after → call.after.eof = true →
    ((after.countP Call.ret : ℕ) : ℤ) ≤ call.after.bStored - call.after.lRet
  returned_le : log.countP Call.ret ≤ returned

theorem Called.held
    {c c' : Conf} {chunks chunks' : List Chunk} {ret : Bool} {reads : ℕ}
    (h : Called c chunks ret c' chunks' reads) (buf : ℕ → UInt8) :
    Held { c' with buf := buf } chunks' := by
  have hready : ({ c' with buf := buf } : Conf).Ready := ⟨h.ready.lRet_le, h.ready.bStored_lt⟩
  refine ⟨?_, ?_, h.ended⟩
  · rw [hready.started_eq]
    exact hready
  · rw [hready.started_eq]
    exact h.fits

/-- One call more in front of a run. -/
theorem WithinBounds.cons
    {c c' : Conf} {chunks chunks' : List Chunk} {ret : Bool} {reads : ℕ} {log : List Call}
    (hcalled : Called c chunks ret c' chunks' reads)
    (hlog : WithinBounds log (readBudget c' chunks') (budget c' chunks')) :
    WithinBounds (⟨ret, c'.checked, reads⟩ :: log) (readBudget c chunks) (budget c chunks) := by
  have hle := hcalled.ready.lRet_le
  have hlt := hcalled.ready.bStored_lt
  have hreads := hcalled.reads_le
  have hreturned := hlog.returned_le
  refine ⟨?_, ?_, ?_, ?_⟩
  · rw [List.forall_mem_cons]
    refine ⟨⟨Int.natCast_nonneg _, Int.ofNat_le.mpr hle, Int.ofNat_lt.mpr hlt⟩, hlog.inOrder⟩
  · have hlater := hlog.reads_le
    rw [List.map_cons, List.sum_cons]
    dsimp only
    omega
  · intro before call after hsplit heof
    cases before with
    | nil =>
        rw [List.nil_append, List.cons.injEq] at hsplit
        obtain ⟨rfl, rfl⟩ := hsplit
        rw [checked_eof] at heof
        rw [budget, hcalled.ended heof, heof] at hreturned
        have hleft : (content []).length + (!true).toNat = 0 := by rfl
        rw [checked_bStored, checked_lRet]
        omega
    | cons first before =>
        rw [List.cons_append, List.cons.injEq] at hsplit
        exact hlog.atEnd before call after hsplit.2 heof
  · have htakes := hcalled.takes
    rw [List.countP_cons]
    cases ret with
    | true =>
        rw [Bool.toNat_true] at htakes
        rw [if_pos rfl]
        omega
    | false =>
        rw [Bool.toNat_false] at htakes
        rw [if_neg Bool.false_ne_true]
        omega

theorem calls_spec
    (rewrite : ℕ → (ℕ → UInt8) → ℕ → UInt8) (n k : ℕ) {c : Conf} {chunks : List Chunk}
    (hc : Held c chunks) :
    calls rewrite n k c.checked chunks = .error .oversize ∨
      (calls rewrite n k c.checked chunks = .error .noMemory ∧
        2 ^ 31 - confBufInc ≤ c.bStored + (content chunks).length) ∨
      ∃ log, calls rewrite n k c.checked chunks = .ok log ∧
        WithinBounds log (readBudget c chunks) (budget c chunks) := by
  induction n generalizing k c chunks with
  | zero =>
      refine Or.inr (Or.inr ⟨[], rfl, by simp, Nat.zero_le _, ?_, Nat.zero_le _⟩)
      intro before call after hsplit
      simp at hsplit
  | succ n ih =>
      rw [calls]
      rcases readConfigLine_checked hc with
        ⟨hstop, -⟩ | ⟨hstop, hlarge⟩ | ⟨ret, c', chunks', reads, hcall, -, hcalled⟩
      · exact Or.inl (by rw [hstop]; rfl)
      · exact Or.inr (Or.inl ⟨by rw [hstop]; rfl, hlarge⟩)
      · rw [hcall, ok_bind]
        have htotal := hcalled.total_le
        rcases ih (k + 1) (hcalled.held (rewrite k c'.buf)) with
          hstop | ⟨hstop, hlarge⟩ | ⟨log, hlog, hbounds⟩
        · exact Or.inl (congrArg (Except.map _) hstop)
        · exact Or.inr (Or.inl ⟨congrArg (Except.map _) hstop, Nat.le_trans hlarge htotal⟩)
        · exact Or.inr (Or.inr ⟨_, congrArg (Except.map _) hlog, .cons hcalled hbounds⟩)

/-- The calls end in `oversize` only for a chunk longer than what `read` is asked
for. -/
theorem overlong_of_calls
    {rewrite : ℕ → (ℕ → UInt8) → ℕ → UInt8} {n k : ℕ} {c : Conf} {chunks : List Chunk}
    (hc : Held c chunks) (hstop : calls rewrite n k c.checked chunks = .error .oversize) :
    Overlong (fun k c => { c with buf := rewrite k c.buf }) k c chunks := by
  induction n generalizing k c chunks with
  | zero => cases hstop
  | succ n ih =>
      rw [calls] at hstop
      rcases readConfigLine_checked hc with
        ⟨-, hcall⟩ | ⟨hmemory, -⟩ | ⟨ret, c', chunks', reads, hcall, hcall', hcalled⟩
      · exact overlong_of_readConfigLine _ k hcall
      · rw [hmemory] at hstop
        cases hstop
      · rw [hcall, ok_bind] at hstop
        have hlater := map_eq_error_iff.mp hstop
        exact (ih (hcalled.held (rewrite k c'.buf)) hlater).later hcall'

/-- The reader stays in its buffer, whatever the file is, however it is read, and
whatever the callers write: no check fails in any number of calls. -/
theorem calls_within_bounds
    (garbage : ℕ → UInt8) (rewrite : ℕ → (ℕ → UInt8) → ℕ → UInt8) (chunks : List Chunk) (n : ℕ) :
    calls rewrite n 0 (ConfRead.fresh garbage) chunks = .error .oversize ∨
      (calls rewrite n 0 (ConfRead.fresh garbage) chunks = .error .noMemory ∧
        2 ^ 31 - confBufInc ≤ (content chunks).length) ∨
      ∃ log, calls rewrite n 0 (ConfRead.fresh garbage) chunks = .ok log ∧
        WithinBounds log (chunks.length + 1) ((content chunks).length + 1) := by
  have hheld : Held (Conf.fresh garbage) chunks := by
    have hsize : (Conf.fresh garbage).started.bAlloc = confBufInc := rfl
    refine ⟨(between_fresh garbage).ready, ?_, ?_⟩
    · rw [hsize]
      decide
    · intro hend
      cases hend
  have hfresh : (Conf.fresh garbage).bStored + (content chunks).length = (content chunks).length :=
    Nat.zero_add _
  have hbudget : budget (Conf.fresh garbage) chunks = (content chunks).length + 1 :=
    congrArg (· + 1) (Nat.zero_add _)
  have hspec := calls_spec rewrite n 0 hheld
  rwa [hfresh, hbudget] at hspec

/-- One line, the end of the file, and nothing more. -/
example :
    (calls (fun _ buf => buf) 3 0 (ConfRead.fresh fun _ => 0) [⟨ascii "a\n", by decide⟩]).map
        (fun log => log.map fun call => (call.ret, call.reads)) =
      .ok [(true, 1), (false, 1), (false, 0)] := by
  rfl

end Config
end Newsbaoter
