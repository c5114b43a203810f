import Newsbaoter.Support.Ledger
import Newsbaoter.Xml.Finish

/-!
# Who releases a parser context and a tree

A context belongs to its slot until the message comes, and its tree with it.
`xmlproc_finish` takes the tree over only after the last `xmlParseChunk`, and
`xmlproc_cleanup` never does; a tree that is still the context's by then is left
behind.
-/

namespace Newsbaoter
namespace Xml

open Newsbaoter.Support

/-! ## Passing objects on -/

/-- The objects made between two heaps. -/
def born (m m' : Heap) : List ℕ :=
  List.range' m.made (m'.made - m.made)

/-- Each object that was in hand, or is made on the way, is in hand or released
afterwards. -/
def Trades (hand : List ℕ) (m : Heap) (hand' : List ℕ) (m' : Heap) : Prop :=
  m.made ≤ m'.made ∧
    (hand' ++ m'.freed).Perm (hand ++ m.freed ++ born m m')

theorem born_self (m : Heap) : born m m = [] := by
  simp [born]

theorem Trades.refl (hand : List ℕ) (m : Heap) : Trades hand m hand m := by
  simp [Trades, born_self]

theorem Trades.trans
    {hand hand' hand'' : List ℕ} {m m' m'' : Heap}
    (h : Trades hand m hand' m') (h' : Trades hand' m' hand'' m'') :
    Trades hand m hand'' m'' := by
  obtain ⟨hle, hperm⟩ := h
  obtain ⟨hle', hperm'⟩ := h'
  have hborn : born m m'' = born m m' ++ born m' m'' := by
    have happend : List.range' m.made (m'.made - m.made) ++
        List.range' (m.made + (m'.made - m.made)) (m''.made - m'.made) =
          List.range' m.made (m'.made - m.made + (m''.made - m'.made)) :=
      List.range'_append_1
    rw [born, born, born]
    rw [show m.made + (m'.made - m.made) = m'.made by omega,
      show m'.made - m.made + (m''.made - m'.made) = m''.made - m.made by omega]
      at happend
    exact happend.symm
  refine ⟨hle.trans hle', hperm'.trans ?_⟩
  rw [hborn, ← List.append_assoc]
  exact hperm.append_right _

/-- What is not touched stays in hand. -/
theorem Trades.frame
    {hand hand' : List ℕ} {m m' : Heap} (h : Trades hand m hand' m') (rest : List ℕ) :
    Trades (rest ++ hand) m (rest ++ hand') m' := by
  refine ⟨h.1, ?_⟩
  simpa only [List.append_assoc] using h.2.append_left rest

theorem Trades.congr
    {hand₁ hand₂ hand₁' hand₂' : List ℕ} {m m' : Heap}
    (h : Trades hand₁ m hand₁' m') (hperm : hand₁.Perm hand₂)
    (hperm' : hand₁'.Perm hand₂') :
    Trades hand₂ m hand₂' m' := by
  refine ⟨h.1, ?_⟩
  have hbefore : (hand₁ ++ m.freed ++ born m m').Perm (hand₂ ++ m.freed ++ born m m') :=
    (hperm.append_right _).append_right _
  exact ((hperm'.symm.append_right _).trans h.2).trans hbefore

/-! ## The calls of libxml2 -/

theorem trades_xmlFreeDoc (doc : Option ℕ) (m : Heap) :
    Trades doc.toList m [] (xmlFreeDoc doc m) := by
  refine ⟨Nat.le_refl m.made, ?_⟩
  have hborn : born m (xmlFreeDoc doc m) = [] := by simp [born, xmlFreeDoc]
  rw [hborn, List.append_nil, List.nil_append]
  exact List.perm_append_comm

theorem trades_xmlFreeParserCtxt (ctx : ParserCtxt) (m : Heap) :
    Trades [ctx.ptr] m [] (xmlFreeParserCtxt ctx m) :=
  trades_xmlFreeDoc (some ctx.ptr) m

/-- Making objects. -/
theorem trades_made (m : Heap) (n : ℕ) :
    Trades [] m (List.range' m.made n) { m with made := m.made + n } := by
  refine ⟨Nat.le_add_right m.made n, ?_⟩
  have hborn : born m { m with made := m.made + n } = List.range' m.made n := by
    simp [born]
  rw [hborn, List.nil_append]
  exact List.perm_append_comm

/-! ## What a slot holds -/

def ParserCtxt.held (ctx : ParserCtxt) : List ℕ :=
  ctx.ptr :: ctx.myDoc.toList

def XmlprocData.held (h : XmlprocData) : List ℕ :=
  h.ctx.toList.flatMap ParserCtxt.held ++ h.doc.toList

/-- What nobody points to after the message: the tree of the context, or the
one that the slot had before it took this one over. -/
def XmlprocData.left (h : XmlprocData) (m : Heap) (msg : Message) : List ℕ :=
  h.ctx.toList.flatMap fun ctx =>
    match msg with
    | .ok last =>
        if last.code = 0 then h.doc.toList
        else (parseChunk last.starts ctx m).1.myDoc.toList
    | _ => ctx.myDoc.toList

theorem trades_parseChunk (starts : Bool) (ctx : ParserCtxt) (m : Heap) :
    Trades ctx.held m (parseChunk starts ctx m).1.held (parseChunk starts ctx m).2 := by
  rw [parseChunk]
  split
  · rename_i h
    have hnone : ctx.myDoc = none := by
      simpa using (Bool.and_eq_true_iff.mp h).2
    have hmade := (trades_made m 1).frame [ctx.ptr]
    simpa [ParserCtxt.held, hnone] using hmade
  · exact Trades.refl _ _

theorem trades_xmlprocParseBlock (starts : Bool) (h : XmlprocData) (m : Heap) :
    Trades h.held m (xmlprocParseBlock starts h m).1.held
      (xmlprocParseBlock starts h m).2 := by
  rw [xmlprocParseBlock]
  split
  · rename_i hctx
    let fresh : ParserCtxt := ⟨m.made, none⟩
    have hmade := trades_made m 1
    have hparse := trades_parseChunk starts fresh { m with made := m.made + 1 }
    have hboth := (hmade.trans hparse).frame h.doc.toList
    refine hboth.congr ?_ ?_
    · simp [XmlprocData.held, hctx]
    · simpa [XmlprocData.held] using List.perm_append_comm
  · rename_i ctx hctx
    have hparse := (trades_parseChunk starts ctx m).frame h.doc.toList
    refine hparse.congr ?_ ?_
    · simpa [XmlprocData.held, hctx] using List.perm_append_comm
    · simpa [XmlprocData.held] using List.perm_append_comm

/-! ## The end of a transfer -/

theorem trades_xmlprocTransform
    (transformed : Option (Option (List Cache.XmlNode))) (h : XmlprocData) (m : Heap) :
    Trades h.doc.toList m (xmlprocTransform transformed h m).1.doc.toList
      (xmlprocTransform transformed h m).2 := by
  let res := transformed.map fun _ => m.made
  have hres : List.range' m.made res.toList.length = res.toList := by
    cases transformed <;> rfl
  have hmade := (trades_made m res.toList.length).frame h.doc.toList
  rw [hres, List.append_nil] at hmade
  have hfree := (trades_xmlFreeDoc h.doc
    { m with made := m.made + res.toList.length }).frame res.toList
  rw [List.append_nil] at hfree
  exact hmade.trans (hfree.congr List.perm_append_comm (List.Perm.refl _))

theorem trades_releaseStored
    (root : Option (List Cache.XmlNode)) (h : XmlprocData) (m : Heap) :
    Trades h.doc.toList m (releaseStored root h m).1.doc.toList
      (releaseStored root h m).2 := by
  cases root with
  | none => exact Trades.refl _ _
  | some children => exact trades_xmlFreeDoc h.doc m

theorem trades_finishDone
    (ctx : ParserCtxt) (h : XmlprocData) (m : Heap) (db : Cache.Db) (newentry : Bool) :
    Trades (ctx.ptr :: h.doc.toList) m (finishDone ctx h m db newentry).h.held
      (finishDone ctx h m db newentry).heap := by
  have hctx := (trades_xmlFreeParserCtxt ctx m).frame h.doc.toList
  rw [List.append_nil] at hctx
  have hdoc := trades_xmlFreeDoc h.doc (xmlFreeParserCtxt ctx m)
  exact (hctx.trans hdoc).congr List.perm_append_comm (List.Perm.refl _)

theorem trades_xmlprocCleanup (h : XmlprocData) (m : Heap) :
    Trades h.held m
      ((xmlprocCleanup h m).1.held ++ h.ctx.toList.flatMap fun ctx => ctx.myDoc.toList)
      (xmlprocCleanup h m).2 := by
  rw [xmlprocCleanup]
  rcases hctx : h.ctx with - | ctx
  · simpa [XmlprocData.held, hctx] using trades_xmlFreeDoc h.doc m
  · have hdone := (trades_finishDone ctx h m Cache.emptyDb false).frame ctx.myDoc.toList
    refine hdone.congr ?_ ?_
    · simp [XmlprocData.held, ParserCtxt.held, hctx]
    · simp [XmlprocData.held, finishDone]

/-- The end of `xmlproc_finish` after a good parse: the tree of the context has
taken the place of the slot's, which is left behind. -/
theorem trades_finishDone_taken
    (ends : Bool) {ctx : ParserCtxt} {h : XmlprocData} (hctx : h.ctx = some ctx) {m : Heap}
    {d : XmlprocData} {m' : Heap}
    (hd : Trades (parseChunk ends ctx m).1.myDoc.toList (parseChunk ends ctx m).2
      d.doc.toList m') (db : Cache.Db) (newentry : Bool) :
    Trades h.held m
      ((finishDone (parseChunk ends ctx m).1 d m' db newentry).h.held ++ h.doc.toList)
      (finishDone (parseChunk ends ctx m).1 d m' db newentry).heap := by
  let p := parseChunk ends ctx m
  have hheld : h.held = ctx.held ++ h.doc.toList := by simp [XmlprocData.held, hctx]
  have hparse := (trades_parseChunk ends ctx m).frame h.doc.toList
  have hmid : Trades (h.doc.toList ++ p.1.held) p.2
      (h.doc.toList ++ p.1.ptr :: d.doc.toList) m' := by
    simpa [ParserCtxt.held, p] using hd.frame (h.doc.toList ++ [p.1.ptr])
  have hdone := (trades_finishDone p.1 d m' db newentry).frame h.doc.toList
  refine ((hparse.trans hmid).trans hdone).congr ?_ List.perm_append_comm
  rw [hheld]
  exact List.perm_append_comm

/-- The end of `xmlproc_finish` after a bad parse: the slot keeps its tree, and
that of the context is left behind. -/
theorem trades_finishDone_rejected
    (ends : Bool) {ctx : ParserCtxt} {h : XmlprocData} (hctx : h.ctx = some ctx) (m : Heap)
    (db : Cache.Db) (newentry : Bool) :
    Trades h.held m
      ((finishDone (parseChunk ends ctx m).1 h (parseChunk ends ctx m).2 db newentry).h.held ++
        (parseChunk ends ctx m).1.myDoc.toList)
      (finishDone (parseChunk ends ctx m).1 h (parseChunk ends ctx m).2 db newentry).heap := by
  let p := parseChunk ends ctx m
  have hheld : h.held = ctx.held ++ h.doc.toList := by simp [XmlprocData.held, hctx]
  have hparse := (trades_parseChunk ends ctx m).frame h.doc.toList
  have hdone := (trades_finishDone p.1 h p.2 db newentry).frame p.1.myDoc.toList
  have hmid : (p.1.myDoc.toList ++ p.1.ptr :: h.doc.toList).Perm (h.doc.toList ++ p.1.held) :=
    List.perm_middle.trans (List.perm_append_comm : (p.1.held ++ h.doc.toList).Perm _)
  refine (hparse.trans (hdone.congr hmid List.perm_append_comm)).congr ?_ (List.Perm.refl _)
  rw [hheld]
  exact List.perm_append_comm

theorem trades_xmlprocFinish
    (config : Cache.Config) (last : Last) (h : XmlprocData) (m : Heap) (db : Cache.Db) :
    Trades h.held m
      ((xmlprocFinish config last h m db).1.h.held ++ h.left m (.ok last))
      (xmlprocFinish config last h m db).1.heap := by
  rw [xmlprocFinish]
  rcases hctx : h.ctx with - | ctx
  · have hleft : h.left m (.ok last) = [] := by simp [XmlprocData.left, hctx]
    rw [hleft, List.append_nil]
    exact Trades.refl _ _
  · dsimp only
    by_cases hcode : last.code = 0
    · have hleft : h.left m (.ok last) = h.doc.toList := by
        simp [XmlprocData.left, hctx, hcode]
      rw [hleft, if_neg (not_not_intro hcode)]
      split
      · -- the transformed document is stored and released
        have htransform := trades_xmlprocTransform last.transformed
          ⟨some ctx, (parseChunk last.starts ctx m).1.myDoc, h.url⟩
          (parseChunk last.starts ctx m).2
        have hrelease := trades_releaseStored last.transformed.join
          (xmlprocTransform last.transformed
            ⟨some ctx, (parseChunk last.starts ctx m).1.myDoc, h.url⟩
            (parseChunk last.starts ctx m).2).1
          (xmlprocTransform last.transformed
            ⟨some ctx, (parseChunk last.starts ctx m).1.myDoc, h.url⟩
            (parseChunk last.starts ctx m).2).2
        exact trades_finishDone_taken last.starts hctx (htransform.trans hrelease) _ _
      · exact trades_finishDone_taken last.starts hctx (Trades.refl _ _) db false
    · have hleft : h.left m (.ok last) = (parseChunk last.starts ctx m).1.myDoc.toList := by
        simp [XmlprocData.left, hctx, hcode]
      rw [hleft, if_pos hcode]
      exact trades_finishDone_rejected last.starts hctx m db false

theorem trades_finishSlot
    (config : Cache.Config) (msg : Message) (h : XmlprocData) (m : Heap)
    (db : Cache.Db) :
    Trades h.held m
      ((finishSlot config msg h m db).h.held ++ h.left m msg)
      (finishSlot config msg h m db).heap := by
  cases msg with
  | ok last => exact trades_xmlprocFinish config last h m db
  | timedOut => exact trades_xmlprocCleanup h m
  | failed => exact trades_xmlprocCleanup h m

/-! ## The books of a run -/

def State.held (s : State) : List ℕ :=
  s.slots.flatMap fun slot => slot.xh.held

/-- What a step loses track of. -/
def lost (s : State) : Event → List ℕ
  | .load _ => if s.Over then s.held else []
  | .chunk _ _ => []
  | .done i msg => s.slots[i]?.toList.flatMap fun slot => slot.xh.left s.heap msg

/-- Replacing one slot replaces what it holds. -/
theorem held_setSlot
    {s : State} {i : ℕ} {old : Slot} (new : Slot) (heap : Heap) (db : Cache.Db)
    (hold : s.slots[i]? = some old) :
    ∃ rest, s.held.Perm (rest ++ old.xh.held) ∧
      (s.setSlot i new heap db).held.Perm (rest ++ new.xh.held) := by
  obtain ⟨hi, rfl⟩ := List.getElem?_eq_some_iff.mp hold
  let held : Slot → List ℕ := fun slot => slot.xh.held
  have hget := ((List.getElem_cons_eraseIdx_perm hi).symm.flatMap_right held).trans
    List.perm_append_comm
  have hset := ((List.set_perm_cons_eraseIdx hi new).flatMap_right held).trans
    List.perm_append_comm
  exact ⟨_, hget, hset⟩

/-- A trade of one slot is a trade of the whole state. -/
theorem trades_setSlot
    {s : State} {i : ℕ} {old : Slot} {new : Slot} {heap : Heap} {left : List ℕ}
    (db : Cache.Db) (hold : s.slots[i]? = some old)
    (h : Trades old.xh.held s.heap (new.xh.held ++ left) heap) :
    Trades s.held s.heap ((s.setSlot i new heap db).held ++ left) heap := by
  obtain ⟨rest, hbefore, hafter⟩ := held_setSlot new heap db hold
  refine (h.frame rest).congr hbefore.symm ?_
  rw [← List.append_assoc]
  exact hafter.symm.append_right left

/-- A message or data reach a slot whose transfer runs. -/
theorem slot_of_map
    {s t : State} {i : ℕ} {f : Slot → State}
    (h : (s.slots[i]?.filter Slot.running).map f = some t) :
    ∃ slot, s.slots[i]? = some slot ∧ slot.running = true ∧ f slot = t := by
  obtain ⟨slot, hslot, hf⟩ := Option.map_eq_some_iff.mp h
  obtain ⟨hget, hrun⟩ := Option.filter_eq_some_iff.mp hslot
  exact ⟨slot, hget, hrun, hf⟩

theorem trades_step
    {config : Cache.Config} {s t : State} {e : Event}
    (hstep : step config s e = some t) :
    Trades s.held s.heap (t.held ++ lost s e) t.heap := by
  cases e with
  | load urls =>
      rw [step] at hstep
      split at hstep
      · rename_i hover
        cases hstep
        let t : State :=
          { s with slots := urls.map fun url => ⟨xmlprocInit url, true⟩ }
        have hnone : t.held = [] := by
          simp [t, State.held, XmlprocData.held, xmlprocInit]
        show Trades s.held s.heap (t.held ++ if s.Over then s.held else []) s.heap
        rw [hnone, if_pos hover]
        exact Trades.refl _ _
      · cases hstep
  | chunk i starts =>
      obtain ⟨slot, hslot, -, rfl⟩ := slot_of_map hstep
      have htrade := trades_xmlprocParseBlock starts slot.xh s.heap
      rw [← List.append_nil (xmlprocParseBlock starts slot.xh s.heap).1.held] at htrade
      exact trades_setSlot s.db hslot htrade
  | done i msg =>
      obtain ⟨slot, hslot, -, rfl⟩ := slot_of_map hstep
      have hlost : lost s (.done i msg) = slot.xh.left s.heap msg := by
        simp [lost, hslot]
      rw [hlost]
      exact trades_setSlot _ hslot (trades_finishSlot config msg slot.xh s.heap s.db)

/-- An object is entered while a slot holds it and once it is released. -/
def books (config : Cache.Config) : Ledger (step config) where
  made s := s.heap.made
  entries s := s.held ++ s.heap.freed
  lost := lost
  made_le hstep := (trades_step hstep).1
  balance := by
    intro s e t hstep
    refine List.Perm.trans ?_ (trades_step hstep).2
    rw [List.append_assoc, List.append_assoc]
    exact List.perm_append_comm.append_left t.held

/-! ## When nothing is lost -/

/-- No tree has been made for the transfer, and the last call makes none. -/
def XmlprocData.Treeless (h : XmlprocData) (starts : Bool) : Prop :=
  ∀ ctx ∈ h.ctx, ctx.myDoc = none ∧ starts = false

/-- There is no tree, or the transfer went well and so did the last call of the
parser. -/
def XmlprocData.HandsOver (h : XmlprocData) : Message → Prop
  | .ok last => last.code = 0 ∨ h.Treeless last.starts
  | _ => h.Treeless false

def HandsOver (s : State) : Event → Prop
  | .done i msg => ∀ slot ∈ s.slots[i]?, slot.xh.HandsOver msg
  | _ => True

instance (h : XmlprocData) (starts : Bool) : Decidable (h.Treeless starts) :=
  inferInstanceAs (Decidable (∀ ctx ∈ h.ctx, ctx.myDoc = none ∧ starts = false))

instance (h : XmlprocData) : ∀ msg, Decidable (h.HandsOver msg)
  | .ok last =>
      inferInstanceAs (Decidable (last.code = 0 ∨ h.Treeless last.starts))
  | .timedOut => inferInstanceAs (Decidable (h.Treeless false))
  | .failed => inferInstanceAs (Decidable (h.Treeless false))

instance (s : State) : ∀ e, Decidable (HandsOver s e)
  | .done i msg =>
      inferInstanceAs (Decidable (∀ slot ∈ s.slots[i]?, slot.xh.HandsOver msg))
  | .load _ => isTrue trivial
  | .chunk _ _ => isTrue trivial

/-- A slot takes a tree over only inside `xmlproc_finish`, and keeps nothing
once its message has been read. -/
def Slot.Tidy (slot : Slot) : Prop :=
  slot.xh.doc = none ∧ (slot.running = false → slot.xh.ctx = none)

def Tidy (s : State) : Prop :=
  ∀ slot ∈ s.slots, slot.Tidy

theorem Tidy.setSlot
    {s : State} (h : Tidy s) (i : ℕ) {slot : Slot} (hslot : slot.Tidy) (heap : Heap)
    (db : Cache.Db) :
    Tidy (s.setSlot i slot heap db) := by
  intro other hother
  rcases List.mem_or_eq_of_mem_set hother with hmem | rfl
  · exact h other hmem
  · exact hslot

theorem xmlprocParseBlock_doc (starts : Bool) (h : XmlprocData) (m : Heap) :
    (xmlprocParseBlock starts h m).1.doc = h.doc := by
  rw [xmlprocParseBlock]
  split <;> rfl

theorem finishSlot_empty
    (config : Cache.Config) (msg : Message) {h : XmlprocData} (m : Heap)
    (db : Cache.Db) (hdoc : h.doc = none) :
    (finishSlot config msg h m db).h.doc = none ∧
      (finishSlot config msg h m db).h.ctx = none := by
  cases msg with
  | timedOut => exact ⟨rfl, rfl⟩
  | failed => exact ⟨rfl, rfl⟩
  | ok last =>
      rw [finishSlot, xmlprocFinish]
      rcases hctx : h.ctx with - | ctx
      · exact ⟨hdoc, hctx⟩
      · dsimp only
        split
        · exact ⟨rfl, rfl⟩
        · split <;> exact ⟨rfl, rfl⟩

theorem tidy_step
    {config : Cache.Config} {s t : State} {e : Event}
    (h : Tidy s) (hstep : step config s e = some t) : Tidy t := by
  cases e with
  | load urls =>
      rw [step] at hstep
      split at hstep
      · cases hstep
        intro slot hslot
        obtain ⟨url, -, rfl⟩ := List.mem_map.mp hslot
        exact ⟨rfl, fun _ => rfl⟩
      · cases hstep
  | chunk i starts =>
      obtain ⟨slot, hslot, -, rfl⟩ := slot_of_map hstep
      have hdoc := (h slot (List.mem_of_getElem? hslot)).1
      apply h.setSlot
      refine ⟨?_, fun hrun => absurd hrun (by simp)⟩
      rw [← hdoc]
      exact xmlprocParseBlock_doc starts slot.xh s.heap
  | done i msg =>
      obtain ⟨slot, hslot, -, rfl⟩ := slot_of_map hstep
      have hdoc := (h slot (List.mem_of_getElem? hslot)).1
      have hempty := finishSlot_empty config msg s.heap s.db hdoc
      exact h.setSlot i ⟨hempty.1, fun _ => hempty.2⟩ _ _

/-- Between two batches the slots hold nothing. -/
theorem Tidy.held_eq_nil {s : State} (h : Tidy s) (hover : s.Over) : s.held = [] := by
  rw [State.held, List.flatMap_eq_nil_iff]
  intro slot hslot
  obtain ⟨hdoc, hctx⟩ := h slot hslot
  simp [XmlprocData.held, hdoc, hctx (hover slot hslot)]

theorem left_eq_nil_iff
    {h : XmlprocData} (m : Heap) (msg : Message) (hdoc : h.doc = none) :
    h.left m msg = [] ↔ h.HandsOver msg := by
  rcases hctx : h.ctx with - | ctx
  · cases msg <;>
      simp [XmlprocData.left, XmlprocData.HandsOver, XmlprocData.Treeless, hctx]
  · cases msg with
    | timedOut =>
        simp [XmlprocData.left, XmlprocData.HandsOver, XmlprocData.Treeless, hctx]
    | failed =>
        simp [XmlprocData.left, XmlprocData.HandsOver, XmlprocData.Treeless, hctx]
    | ok last =>
        by_cases hcode : last.code = 0
        · simp [XmlprocData.left, XmlprocData.HandsOver, hctx, hcode, hdoc]
        · have htree : (parseChunk last.starts ctx m).1.myDoc = none ↔
              ctx.myDoc = none ∧ last.starts = false := by
            rw [parseChunk]
            cases hdoc' : ctx.myDoc <;> cases hstarts : last.starts <;> simp [hdoc']
          simp [XmlprocData.left, XmlprocData.HandsOver, XmlprocData.Treeless, hctx,
            hcode, htree]

theorem lost_eq_nil_iff {s : State} (h : Tidy s) (e : Event) :
    lost s e = [] ↔ HandsOver s e := by
  cases e with
  | load urls =>
      by_cases hover : s.Over
      · simp [lost, HandsOver, hover, h.held_eq_nil hover]
      · simp [lost, HandsOver, hover]
  | chunk i starts => simp [lost, HandsOver]
  | done i msg =>
      rcases hslot : s.slots[i]? with - | slot
      · simp [lost, HandsOver, hslot]
      · have hdoc := (h slot (List.mem_of_getElem? hslot)).1
        simpa [lost, HandsOver, hslot] using left_eq_nil_iff s.heap msg hdoc

/-! ## Whole runs -/

theorem tidy_start (db : Cache.Db) : Tidy (start db) := by
  intro slot hslot
  exact absurd hslot List.not_mem_nil

theorem complete_start (config : Cache.Config) (db : Cache.Db) :
    (books config).Complete (start db) :=
  List.Perm.refl []

/-- At the end of a batch every context and every tree made so far has been
released once, just if every message came for a transfer without a tree or with
a last call of the parser that succeeded. -/
theorem freed_once_iff
    (config : Cache.Config) (db : Cache.Db) (es : List Event) {s : State}
    (hruns : runs (step config) (start db) es = some s) (hover : s.Over) :
    (∀ p < s.heap.made, s.heap.freed.count p = 1) ↔
      Meets (step config) HandsOver (start db) es := by
  have hkeeps : ∀ s e t, Tidy s → step config s e = some t → Tidy t :=
    fun _ _ _ h hstep => tidy_step h hstep
  have hstart := complete_start config db
  have htidy : Tidy s := inv_of_runs hkeeps (tidy_start db) hruns
  have hentries : (books config).entries s = s.heap.freed := by
    show s.held ++ s.heap.freed = s.heap.freed
    rw [htidy.held_eq_nil hover, List.nil_append]
  have hsound := (books config).sound_runs hruns hstart.sound
  rw [Ledger.Sound, hentries] at hsound
  calc (∀ p < s.heap.made, s.heap.freed.count p = 1)
      ↔ s.heap.freed.Perm (List.range s.heap.made) := (perm_range_iff_count hsound).symm
    _ ↔ (books config).Complete s := by rw [Ledger.Complete, hentries]; rfl
    _ ↔ Meets (step config) (fun s e => lost s e = []) (start db) es := by
        rw [(books config).complete_runs_iff hruns hstart.sound]
        exact and_iff_right hstart
    _ ↔ Meets (step config) HandsOver (start db) es :=
        meets_congr hkeeps (fun s e h => lost_eq_nil_iff h e) (tidy_start db)

/-- A feed without entries that parses. -/
def plainLast : Last where
  starts := false
  code := 0
  wellFormed := true
  transformed := some (some [])
  env := ⟨0, fun _ => ⟨0, 0, 0, 0, 0, 0, 0, 0, 0, 0⟩, fun _ => []⟩

/-- One feed arrives whole and one host is not found. -/
theorem good_feed_and_dead_host_freed :
    ∃ s, runs (step Fetch.plainCache) (start Cache.emptyDb)
        [.load [ascii "http://a", ascii "http://b"], .chunk 0 false, .chunk 0 true,
          .done 1 .failed, .done 0 (.ok plainLast)] = some s ∧
      s.heap.made = 3 ∧ ∀ p < s.heap.made, s.heap.freed.count p = 1 := by
  let es : List Event :=
    [.load [ascii "http://a", ascii "http://b"], .chunk 0 false, .chunk 0 true,
      .done 1 .failed, .done 0 (.ok plainLast)]
  have hend : ((runs (step Fetch.plainCache) (start Cache.emptyDb) es).map
      fun s => decide (s.Over ∧ s.heap.made = 3)) = some true := by
    decide +kernel
  obtain ⟨s, hs, hdecide⟩ := Option.map_eq_some_iff.mp hend
  obtain ⟨hover, hmade⟩ := of_decide_eq_true hdecide
  refine ⟨s, hs, hmade, (freed_once_iff Fetch.plainCache Cache.emptyDb es hs hover).mpr ?_⟩
  decide +kernel

/-- The second chunk starts the document, and then the transfer times out: the
tree is never released. -/
theorem timeout_leaks_tree :
    ∃ s, runs (step Fetch.plainCache) (start Cache.emptyDb)
        [.load [ascii "http://a"], .chunk 0 false, .chunk 0 true, .done 0 .timedOut] =
          some s ∧
      s.Over ∧ ¬∀ p < s.heap.made, s.heap.freed.count p = 1 := by
  have hend : ((runs (step Fetch.plainCache) (start Cache.emptyDb)
      [.load [ascii "http://a"], .chunk 0 false, .chunk 0 true, .done 0 .timedOut]).map
        fun s => decide (s.Over ∧ ¬∀ p < s.heap.made, s.heap.freed.count p = 1)) =
      some true := by
    decide +kernel
  obtain ⟨s, hs, hdecide⟩ := Option.map_eq_some_iff.mp hend
  exact ⟨s, hs, of_decide_eq_true hdecide⟩

end Xml
end Newsbaoter
