import Newsbaoter.Fetch.Model

/-!
# What one transfer does with libxml2

`xmlproc_parse_block` feeds a push parser, `xmlproc_finish` and
`xmlproc_cleanup` end a transfer, and `finish_batch` chooses between the two.
Parser contexts and trees are numbered in the order they are made; a pointer is
such a number or `NULL`.
-/

namespace Newsbaoter
namespace Xml

open Cache (Db RefreshEnv XmlNode)
open Fetch (Transfer)

/-! ## The objects -/

/-- The numbers below `made` are taken, and `freed` lists the calls that
released one. -/
structure Heap where
  made : ℕ
  freed : List ℕ

/-- `xmlFreeDoc`; it passes over `NULL`. -/
def xmlFreeDoc (doc : Option ℕ) (m : Heap) : Heap :=
  { m with freed := m.freed ++ doc.toList }

/-- A push parser context.  It does not own `myDoc`. -/
structure ParserCtxt where
  ptr : ℕ
  myDoc : Option ℕ

/-- `xmlFreeParserCtxt`. -/
def xmlFreeParserCtxt (ctx : ParserCtxt) (m : Heap) : Heap :=
  { m with freed := m.freed ++ [ctx.ptr] }

/-- `struct xmlproc_data`, without the stylesheet and the feed id. -/
structure XmlprocData where
  ctx : Option ParserCtxt
  doc : Option ℕ
  url : CStr

/-- `xmlproc_init`. -/
def xmlprocInit (url : CStr) : XmlprocData where
  ctx := none
  doc := none
  url := url

/-! ## Parsing -/

/-- The tree after more input; `starts` says that the document has started by
then. -/
def parseChunk (starts : Bool) (ctx : ParserCtxt) (m : Heap) : ParserCtxt × Heap :=
  if starts && ctx.myDoc.isNone then
    ({ ctx with myDoc := some m.made }, { m with made := m.made + 1 })
  else (ctx, m)

def xmlprocParseBlock (starts : Bool) (h : XmlprocData) (m : Heap) :
    XmlprocData × Heap :=
  match h.ctx with
  | none =>
      let r := parseChunk starts ⟨m.made, none⟩ { m with made := m.made + 1 }
      ({ h with ctx := some r.1 }, r.2)
  | some ctx =>
      let r := parseChunk starts ctx m
      ({ h with ctx := some r.1 }, r.2)

/-! ## The end of a transfer -/

/-- What libxml2 and libxslt say once all data is there: whether the document
has started with the last call, the result of that call, `wellFormed`, and what
`xsltApplyStylesheet` returns: `NULL`, or a tree with or without a root. -/
structure Last where
  starts : Bool
  code : ℤ
  wellFormed : Bool
  transformed : Option (Option (List XmlNode))
  env : RefreshEnv

/-- The result in a `CURLMSG_DONE` message. -/
inductive Message
  | timedOut
  | failed
  | ok (last : Last)

def xmlprocTransform (transformed : Option (Option (List XmlNode)))
    (h : XmlprocData) (m : Heap) : XmlprocData × Heap :=
  let res := transformed.map fun _ => m.made
  let m' := { m with made := m.made + res.toList.length }
  ({ h with doc := res }, xmlFreeDoc h.doc m')

/-- What `xmlproc_update_cache` does with the tree, whose root is `root`. -/
def releaseStored (root : Option (List XmlNode)) (h : XmlprocData) (m : Heap) :
    XmlprocData × Heap :=
  match root with
  | none => (h, m)
  | some _ => ({ h with doc := none }, xmlFreeDoc h.doc m)

def xmlprocCleanup (h : XmlprocData) (m : Heap) : XmlprocData × Heap :=
  let m' := match h.ctx with
    | none => m
    | some ctx => xmlFreeParserCtxt ctx m
  ({ h with ctx := none, doc := none }, xmlFreeDoc h.doc m')

/-- What is left of a slot and the database. -/
structure Finish where
  h : XmlprocData
  heap : Heap
  db : Db
  newentry : Bool

/-- The label `done` of `xmlproc_finish`. -/
def finishDone (ctx : ParserCtxt) (h : XmlprocData) (m : Heap) (db : Db)
    (newentry : Bool) : Finish where
  h := { h with ctx := none, doc := none }
  heap := xmlFreeDoc h.doc (xmlFreeParserCtxt ctx m)
  db := db
  newentry := newentry

/-- `xmlproc_finish`; the second component says that it returns 1. -/
def xmlprocFinish (config : Cache.Config) (last : Last) (h : XmlprocData)
    (m : Heap) (db : Db) : Finish × Bool :=
  match h.ctx with
  | none => (⟨h, m, db, false⟩, true)
  | some ctx =>
      let p := parseChunk last.starts ctx m
      if last.code ≠ 0 then
        (finishDone p.1 h p.2 db false, true)
      else
        -- here the slot takes the tree over
        let h₁ := { h with doc := p.1.myDoc }
        if last.wellFormed then
          let t := xmlprocTransform last.transformed h₁ p.2
          let stored := Cache.xmlprocUpdateCache config
            { url := h.url, doc := last.transformed.join, env := last.env } db
          let r := releaseStored last.transformed.join t.1 t.2
          (finishDone p.1 r.1 r.2 stored.1 stored.2, false)
        else
          (finishDone p.1 h₁ p.2 db false, true)

/-! ## The download loop's view -/

/-- What `finish_batch` learns from a message about a slot. -/
def transfer (h : XmlprocData) : Message → Transfer
  | .timedOut => .timedOut
  | .failed => .failed
  | .ok last =>
      if h.ctx.isSome && last.code == 0 && last.wellFormed then
        .accepted last.transformed.join last.env
      else .rejected

/-- A round of `finish_batch` up to its effect on `n_httperr`. -/
def finishSlot (config : Cache.Config) (msg : Message) (h : XmlprocData)
    (m : Heap) (db : Db) : Finish :=
  match msg with
  | .ok last => (xmlprocFinish config last h m db).1
  | _ =>
      let r := xmlprocCleanup h m
      ⟨r.1, r.2, db, false⟩

/-- The database and the flag are those of the download loop's model. -/
theorem finishSlot_stores
    (config : Fetch.Config) (msg : Message) (h : XmlprocData) (m : Heap) (db : Db) :
    let r := finishSlot config.cache msg h m db
    (r.db, r.newentry) = Fetch.storeTransfer config h.url (transfer h msg) db := by
  cases msg with
  | timedOut => rfl
  | failed => rfl
  | ok last =>
      rw [finishSlot, transfer]
      rcases hctx : h.ctx with - | ctx
      · simp [xmlprocFinish, hctx, Fetch.storeTransfer]
      · by_cases hcode : last.code = 0
        · cases hwf : last.wellFormed <;>
            simp [xmlprocFinish, hctx, hcode, hwf, Fetch.storeTransfer, finishDone]
        · simp [xmlprocFinish, hctx, hcode, Fetch.storeTransfer, finishDone]

/-- `xmlproc_finish` returns 1 just where the loop counts a rejected body. -/
theorem xmlprocFinish_ret
    (config : Cache.Config) (last : Last) (h : XmlprocData) (m : Heap) (db : Db) :
    (xmlprocFinish config last h m db).2 = true ↔
      transfer h (.ok last) = .rejected := by
  rw [transfer]
  rcases hctx : h.ctx with - | ctx
  · simp [xmlprocFinish, hctx]
  · by_cases hcode : last.code = 0
    · cases hwf : last.wellFormed <;>
        simp [xmlprocFinish, hctx, hcode, hwf, finishDone]
    · simp [xmlprocFinish, hctx, hcode, finishDone]

/-! ## Runs of transfers -/

/-- A slot with whether its message is still to come. -/
structure Slot where
  xh : XmlprocData
  running : Bool

structure State where
  slots : List Slot
  heap : Heap
  db : Db

def start (db : Db) : State where
  slots := []
  heap := ⟨0, []⟩
  db := db

inductive Event
  /-- `load_new_handles` fills the slots. -/
  | load (urls : List CStr)
  | chunk (i : ℕ) (starts : Bool)
  | done (i : ℕ) (msg : Message)

/-- All messages of the batch have been read. -/
def State.Over (s : State) : Prop :=
  ∀ slot ∈ s.slots, slot.running = false

instance (s : State) : Decidable s.Over :=
  inferInstanceAs (Decidable (∀ slot ∈ s.slots, slot.running = false))

def State.setSlot (s : State) (i : ℕ) (slot : Slot) (heap : Heap) (db : Db) : State where
  slots := s.slots.set i slot
  heap := heap
  db := db

/-- Data and messages come for running transfers only, and the next batch is
loaded once the last is over. -/
def step (config : Cache.Config) (s : State) : Event → Option State
  | .load urls =>
      if s.Over then some { s with slots := urls.map fun url => ⟨xmlprocInit url, true⟩ }
      else none
  | .chunk i starts =>
      (s.slots[i]?.filter Slot.running).map fun slot =>
        let r := xmlprocParseBlock starts slot.xh s.heap
        s.setSlot i ⟨r.1, true⟩ r.2 s.db
  | .done i msg =>
      (s.slots[i]?.filter Slot.running).map fun slot =>
        let r := finishSlot config msg slot.xh s.heap s.db
        s.setSlot i ⟨r.h, false⟩ r.heap r.db

end Xml
end Newsbaoter
