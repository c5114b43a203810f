import Newsbaoter.Cache.Unread

/-!
# Refreshing a feed twice with the same document

An entry that names its unique id is found again by the second refresh.  An
entry without one gets a new random id each time, so it never is.
-/

open Newsbaoter.Support

namespace Newsbaoter
namespace Cache

/-- The unique id an entry element names itself. -/
def nodeId (node : List XmlNode) : Option CStr :=
  getContentIfAvail node (entryFields .uid)

/-- The number of entries of a document that name no unique id. -/
def anonymous (doc : Option (List XmlNode)) : ℕ :=
  (doc.map fun children =>
    (entryNodes children).countP fun node => (nodeId node).isNone).getD 0

/-- An id the document mentions has a row when the refresh is over: `Current`
is `1` there, so the deletion passes it by.  A row that is new is unread. -/
theorem exists_mem_refresh_of_mentioned {config : Config} {db : Db}
    (h : Integrity db) {r : Refresh} {children : List XmlNode}
    (hdoc : r.doc = some children) {uid : Option CStr}
    (huid : Mentions (records config.time r.env children) uid) :
    ∃ x ∈ (xmlprocUpdateCache config r db).1.entry.rows,
      x.feedID = (updateFeed r.url children db).2 ∧ x.uniqueId = uid ∧
        (¬HasEntry db (updateFeed r.url children db).2 uid → x.viewed = 0) := by
  have hids := identified_records config.time r.env children
  have hunique := (integrity_cacheInitCleanup
    (integrity_updateFeed r.url children h) (updateFeed r.url children db).2).entries
  obtain ⟨x, hx, hfeed, rfl⟩ := exists_mem_walk_of_mentioned
    (updateFeed r.url children db).2 hids hunique huid
  have hrewritten := rewritten_of_mem_walk hids hunique hx hfeed huid
  refine ⟨x, ?_, hfeed, rfl, fun hnew => hrewritten.unread ?_⟩
  · rw [xmlprocUpdateCache_fst config hdoc]
    refine KeyedTable.mem_deleteWhere.mpr ⟨hx, ?_⟩
    simp [isOld, hrewritten.current, cyclesUntilDelete]
  · intro e he hefeed heuid
    exact hnew (hasEntry_cacheInitCleanup.mp ⟨e, he, hefeed.trans hfeed, heuid⟩)

theorem hasEntry_refresh_of_mentioned {config : Config} {db : Db}
    (h : Integrity db) {r : Refresh} {children : List XmlNode}
    (hdoc : r.doc = some children) {uid : Option CStr}
    (huid : Mentions (records config.time r.env children) uid) :
    HasEntry (xmlprocUpdateCache config r db).1
      (updateFeed r.url children db).2 uid := by
  obtain ⟨x, hx, hfeed, hxuid, -⟩ := exists_mem_refresh_of_mentioned h hdoc huid
  exact ⟨x, hx, hfeed, hxuid⟩

/-- The ids of a record: that of its node, or the random one. -/
theorem mem_records_iff {time : TimeLib} {env : RefreshEnv}
    {children : List XmlNode} {d : EntryField → Option CStr} :
    d ∈ records time env children ↔
      ∃ i, ∃ node, (entryNodes children)[i]? = some node ∧
        d = entryData time (env.tp i) (env.uid i) node := by
  rw [records, List.mem_map]
  constructor
  · rintro ⟨⟨node, i⟩, hmem, rfl⟩
    exact ⟨i, node, List.mem_zipIdx_iff_getElem?.mp hmem, rfl⟩
  · rintro ⟨i, node, hnode, rfl⟩
    exact ⟨(node, i), List.mem_zipIdx_iff_getElem?.mpr hnode, rfl⟩

@[simp] theorem entryData_uid (time : TimeLib) (tp : Tm) (uid : CStr)
    (node : List XmlNode) :
    entryData time tp uid node .uid = some ((nodeId node).getD uid) := rfl

@[simp] theorem length_records (time : TimeLib) (env : RefreshEnv)
    (children : List XmlNode) :
    (records time env children).length = (entryNodes children).length := by
  simp [records]

theorem records_getElem_uid (time : TimeLib) (env : RefreshEnv)
    (children : List XmlNode) {i : ℕ}
    (hi : i < (records time env children).length)
    (hi' : i < (entryNodes children).length) :
    (records time env children)[i] .uid =
      some ((nodeId (entryNodes children)[i]).getD (env.uid i)) := by
  have hrecord : (records time env children)[i] =
      entryData time (env.tp i) (env.uid i) (entryNodes children)[i] := by
    simp [records]
  rw [hrecord, entryData_uid]

/-! ## The second refresh -/

section Second

variable {config : Config} {db : Db} {r r' : Refresh} {children : List XmlNode}

/-- The feed keeps its id from the first refresh to the second. -/
theorem updateFeed_snd_again (h : Integrity db) (hurl : r'.url = r.url)
    (hdoc : r.doc = some children) :
    (updateFeed r'.url children (xmlprocUpdateCache config r db).1).2 =
      (updateFeed r.url children db).2 := by
  obtain ⟨f, hf, hfurl, hid⟩ := exists_feed_updateFeed r.url children h.feeds
  have hf' : f ∈ (xmlprocUpdateCache config r db).1.feed.rows := by
    rw [xmlprocUpdateCache_fst config hdoc, cacheCleanupOld, beforeDeletion_feed]
    exact hf
  rw [← hid, hurl]
  exact updateFeed_snd_of_mem _ _ (integrity_refresh h r).feeds hf' hfurl

/-- A named id of the document is in the table before the second refresh. -/
theorem hasEntry_of_nodeId (h : Integrity db) (hdoc : r.doc = some children)
    {node : List XmlNode} (hnode : node ∈ entryNodes children) {s : CStr}
    (hs : nodeId node = some s) :
    HasEntry (xmlprocUpdateCache config r db).1
      (updateFeed r.url children db).2 (some s) := by
  obtain ⟨i, hi⟩ := List.mem_iff_getElem?.mp hnode
  exact hasEntry_refresh_of_mentioned h hdoc
    ⟨_, mem_records_iff.mpr ⟨i, node, hi, rfl⟩, by simp [hs]⟩

/-- Under fresh random ids the record of a node finds a row exactly if the
node names its id. -/
theorem hasEntry_record_iff (h : Integrity db) (hdoc : r.doc = some children)
    (hfresh : ∀ i, ∀ e ∈ (xmlprocUpdateCache config r db).1.entry.rows,
      e.uniqueId ≠ some (r'.env.uid i))
    {node : List XmlNode} (hnode : node ∈ entryNodes children) (i : ℕ) :
    HasEntry (xmlprocUpdateCache config r db).1
        (updateFeed r.url children db).2
        (some ((nodeId node).getD (r'.env.uid i))) ↔
      (nodeId node).isSome = true := by
  cases hs : nodeId node with
  | none =>
      simp only [Option.getD_none, Option.isSome_none, Bool.false_eq_true,
        iff_false]
      rintro ⟨e, he, -, huid⟩
      exact hfresh i e he huid
  | some s =>
      simp only [Option.getD_some, Option.isSome_some, iff_true]
      exact hasEntry_of_nodeId h hdoc hnode hs

/-- Two records agree on their id only when a row has it already. -/
theorem hasEntry_of_records_uid_eq (h : Integrity db) (hdoc : r.doc = some children)
    (hinjective : Function.Injective r'.env.uid)
    (hfresh : ∀ i, ∀ e ∈ (xmlprocUpdateCache config r db).1.entry.rows,
      e.uniqueId ≠ some (r'.env.uid i))
    {i j : ℕ} (hij : i < j) (hi : i < (entryNodes children).length)
    (hj : j < (entryNodes children).length)
    (heq : (nodeId (entryNodes children)[i]).getD (r'.env.uid i) =
      (nodeId (entryNodes children)[j]).getD (r'.env.uid j)) :
    HasEntry (xmlprocUpdateCache config r db).1 (updateFeed r.url children db).2
      (some ((nodeId (entryNodes children)[i]).getD (r'.env.uid i))) := by
  have hentry : ∀ k (hk : k < (entryNodes children).length), _ :=
    fun k hk => hasEntry_record_iff h hdoc hfresh (List.getElem_mem hk) k
  cases hci : nodeId (entryNodes children)[i] with
  | some s =>
      rw [← hci]
      exact (hentry i hi).mpr (by simp [hci])
  | none =>
      cases hcj : nodeId (entryNodes children)[j] with
      | some s =>
          rw [← hci, heq]
          exact (hentry j hj).mpr (by simp [hcj])
      | none =>
          rw [hci, hcj] at heq
          have hsame := hinjective heq
          omega

theorem inserted_again (h : Integrity db) (hdoc : r.doc = some children)
    (hinjective : Function.Injective r'.env.uid)
    (hfresh : ∀ i, ∀ e ∈ (xmlprocUpdateCache config r db).1.entry.rows,
      e.uniqueId ≠ some (r'.env.uid i)) :
    inserted (updateFeed r.url children db).2
        (records config.time r'.env children)
        (cacheInitCleanup (updateFeed r.url children db).2
          (updateFeed r'.url children (xmlprocUpdateCache config r db).1).1) =
      (entryNodes children).countP fun node => (nodeId node).isNone := by
  set feedid := (updateFeed r.url children db).2
  set again := cacheInitCleanup feedid
    (updateFeed r'.url children (xmlprocUpdateCache config r db).1).1
  have hintegrity : Integrity again :=
    integrity_cacheInitCleanup
      (integrity_updateFeed r'.url children (integrity_refresh h r)) _
  have hhas : ∀ uid, HasEntry again feedid uid ↔
      HasEntry (xmlprocUpdateCache config r db).1 feedid uid :=
    fun _ => hasEntry_cacheInitCleanup
  rw [inserted_eq_countP _ (identified_records _ _ _) hintegrity.entries]
  · have hcount : ∀ node ∈ (entryNodes children).zipIdx,
        ((entryOf again feedid (entryData config.time (r'.env.tp node.2) (r'.env.uid node.2)
            node.1 .uid)).isNone = true ↔
          ((fun node => (nodeId node).isNone) ∘ Prod.fst) node = true) := by
      rintro ⟨node, i⟩ hmem
      have hnode : node ∈ entryNodes children :=
        List.mem_of_getElem? (List.mem_zipIdx_iff_getElem?.mp hmem)
      rw [entryData_uid, entryOf_isNone_iff, hhas,
        hasEntry_record_iff h hdoc hfresh hnode i]
      simp
    calc
      _ = (entryNodes children).zipIdx.countP
            ((fun node => (nodeId node).isNone) ∘ Prod.fst) := by
          rw [records, List.countP_map]
          exact List.countP_congr hcount
      _ = _ := by rw [← List.countP_map, List.zipIdx_map_fst]
  · rw [List.pairwise_iff_getElem]
    intro i j hi hj hij heq
    have hi' : i < (entryNodes children).length := by simpa using hi
    have hj' : j < (entryNodes children).length := by simpa using hj
    rw [records_getElem_uid _ _ _ hi hi', records_getElem_uid _ _ _ hj hj'] at heq
    rw [records_getElem_uid _ _ _ hi hi', hhas]
    exact hasEntry_of_records_uid_eq h hdoc hinjective hfresh hij hi' hj' (Option.some.inj heq)

/-- A row after the second refresh was there before it, or it belongs to a
node without an id. -/
theorem origin_of_mem_again (h : Integrity db) (hurl : r'.url = r.url)
    (hdoc : r.doc = some children) (hdoc' : r'.doc = some children) {x : Entry}
    (hx : x ∈ (xmlprocUpdateCache config r'
      (xmlprocUpdateCache config r db).1).1.entry.rows) :
    (∃ e ∈ (xmlprocUpdateCache config r db).1.entry.rows,
      e.entryID = x.entryID ∧ e.feedID = x.feedID ∧
        e.uniqueId = x.uniqueId) ∨
      ∃ i, ∃ node, (entryNodes children)[i]? = some node ∧
        nodeId node = none ∧ x.uniqueId = some (r'.env.uid i) := by
  rcases origin_of_mem_refresh (integrity_refresh h r) hdoc' hx with
    hold | ⟨hfeed, hmention, hnew⟩
  · exact Or.inl hold
  · right
    obtain ⟨d, hd, huid⟩ := hmention
    obtain ⟨i, node, hnode, rfl⟩ := mem_records_iff.mp hd
    rw [entryData_uid] at huid
    cases hs : nodeId node with
    | none =>
        rw [hs] at huid
        exact ⟨i, node, hnode, hs, huid.symm⟩
    | some s =>
        refine absurd ?_ hnew
        rw [updateFeed_snd_again h hurl hdoc, ← huid, hs]
        exact hasEntry_of_nodeId h hdoc (List.mem_of_getElem? hnode) hs

/-- Under a new random id there is one row, and it is unread. -/
theorem exists_anonymous_row (h : Integrity db) (hdoc : r.doc = some children)
    (hfresh : ∀ i, ∀ e ∈ db.entry.rows, e.uniqueId ≠ some (r.env.uid i))
    {i : ℕ} {node : List XmlNode} (hnode : (entryNodes children)[i]? = some node)
    (hnone : nodeId node = none) :
    ∃ x ∈ (xmlprocUpdateCache config r db).1.entry.rows,
      x.uniqueId = some (r.env.uid i) ∧ x.viewed = 0 ∧
        ∀ y ∈ (xmlprocUpdateCache config r db).1.entry.rows,
          y.uniqueId = some (r.env.uid i) → y = x := by
  have hmention : Mentions (records config.time r.env children) (some (r.env.uid i)) :=
    ⟨_, mem_records_iff.mpr ⟨i, node, hnode, rfl⟩, by simp [hnone]⟩
  obtain ⟨x, hx, hfeed, huid, hunread⟩ := exists_mem_refresh_of_mentioned h hdoc hmention
  refine ⟨x, hx, huid, hunread ?_, fun y hy hyuid => ?_⟩
  · rintro ⟨e, he, -, heuid⟩
    exact hfresh i e he heuid
  · by_cases hyfeed : y.feedID = (updateFeed r.url children db).2
    · exact (integrity_refresh h r).entries y hy x hx (hyfeed.trans hfeed.symm)
        (hyuid.trans huid.symm)
    · exact absurd hyuid (hfresh i y ((mem_refresh_of_other config h hdoc hyfeed).mp hy))

end Second

/-- What a second refresh with the same document adds: one unread row for each
entry of the document without a unique id, and nothing else. -/
structure AddsAnonymous (config : Config) (r : Refresh) (db : Db) : Prop where
  unread : getNumUnread (xmlprocUpdateCache config r db).1 =
    getNumUnread db + anonymous r.doc
  reported : (xmlprocUpdateCache config r db).2 = true ↔
    toInt (getNumUnread db) < toInt (getNumUnread db + anonymous r.doc)
  rows : ∀ x ∈ (xmlprocUpdateCache config r db).1.entry.rows,
    (∃ e ∈ db.entry.rows, e.entryID = x.entryID ∧ e.feedID = x.feedID ∧
      e.uniqueId = x.uniqueId) ∨
    ∃ children, r.doc = some children ∧
      ∃ i, ∃ node, (entryNodes children)[i]? = some node ∧
        nodeId node = none ∧ x.uniqueId = some (r.env.uid i)
  added : ∀ children, r.doc = some children →
    ∀ i node, (entryNodes children)[i]? = some node → nodeId node = none →
      ∃ x ∈ (xmlprocUpdateCache config r db).1.entry.rows,
        x.uniqueId = some (r.env.uid i) ∧ x.viewed = 0 ∧
          ∀ y ∈ (xmlprocUpdateCache config r db).1.entry.rows,
            y.uniqueId = some (r.env.uid i) → y = x

/-- For every reachable database a second refresh of the same URL with the
same document adds exactly the entries that name no unique id, provided the
random ids of the second refresh are new. -/
theorem refresh_again_adds_anonymous (config : Config) (ops : List Op)
    (r r' : Refresh) (hurl : r'.url = r.url) (hdoc : r'.doc = r.doc)
    (hinjective : Function.Injective r'.env.uid)
    (hfresh : ∀ i, ∀ e ∈ (run config (ops ++ [.refresh r])).entry.rows,
      e.uniqueId ≠ some (r'.env.uid i)) :
    AddsAnonymous config r' (run config (ops ++ [.refresh r])) := by
  have h := integrity_run config ops
  rw [run_concat] at hfresh ⊢
  change ∀ i, ∀ e ∈ (xmlprocUpdateCache config r _).1.entry.rows, _ at hfresh
  change AddsAnonymous config r' (xmlprocUpdateCache config r _).1
  cases hroot : r.doc with
  | none =>
      have hroot' : r'.doc = none := hdoc.trans hroot
      refine ⟨?_, ?_, ?_, fun children hchildren => ?_⟩
      · simp [xmlprocUpdateCache_of_no_root config hroot', hroot', anonymous]
      · simp [xmlprocUpdateCache_of_no_root config hroot', hroot', anonymous]
      · intro x hx
        rw [xmlprocUpdateCache_of_no_root config hroot'] at hx
        exact Or.inl ⟨x, hx, rfl, rfl, rfl⟩
      · rw [hroot'] at hchildren
        cases hchildren
  | some children =>
      have hroot' : r'.doc = some children := hdoc.trans hroot
      have hunread : getNumUnread (xmlprocUpdateCache config r'
          (xmlprocUpdateCache config r (run config ops)).1).1 =
          getNumUnread (xmlprocUpdateCache config r (run config ops)).1 +
            anonymous r'.doc := by
        rw [getNumUnread_refresh config hroot', updateFeed_snd_again h hurl hroot,
          inserted_again h hroot hinjective hfresh, hroot']
        rfl
      refine ⟨hunread, ?_, ?_, ?_⟩
      · rw [xmlprocUpdateCache_snd config hroot', hunread, Int.natCast_add]
      · intro x hx
        rcases origin_of_mem_again h hurl hroot hroot' hx with hold | hnew
        · exact Or.inl hold
        · exact Or.inr ⟨children, hroot', hnew⟩
      · intro children' hchildren i node hnode hnone
        obtain rfl := Option.some.inj (hroot'.symm.trans hchildren)
        exact exists_anonymous_row (integrity_refresh h r) hroot' hfresh hnode hnone

/-! ## A document with an entry that names no id -/

/-- The refresh of `r` inserts no row, leaves the unread count where it is and
reports nothing. -/
def AddsNothing (config : Config) (r : Refresh) (db : Db) : Prop :=
  (∀ x ∈ (xmlprocUpdateCache config r db).1.entry.rows,
    ∃ e ∈ db.entry.rows, e.entryID = x.entryID) ∧
  getNumUnread (xmlprocUpdateCache config r db).1 ≤ getNumUnread db ∧
  (xmlprocUpdateCache config r db).2 = false

/-- A host on which no date is ever converted. -/
def datelessConfig : Config where
  entryRetention := 259200
  time := ⟨fun _ tp => tp, fun _ => ascii "0"⟩

def blankTm : Tm := ⟨0, 0, 0, 0, 0, 0, 0, 0, 0, 0⟩

/-- One entry with a guid and one without, with random ids made of `c`. -/
def guidlessRefresh (c : UInt8) : Refresh where
  url := ascii "http://example/feed"
  doc := some
    [.elem (ascii "title") [.text (ascii "Feed")],
     .elem (ascii "entry") [.elem (ascii "entryUniqueId") [.text (ascii "tag:1")]],
     .elem (ascii "entry") [.elem (ascii "title") [.text (ascii "No guid")]]]
  env := ⟨0, fun _ => blankTm, fun i => List.replicate (i + 1) c⟩

theorem guidless_uniqueIds :
    (run datelessConfig ([] ++ [.refresh (guidlessRefresh 65)])).entry.rows.map
      Entry.uniqueId = [some (ascii "tag:1"), some [65, 65]] := by decide

theorem refresh_again_repeats_guidless :
    ¬AddsNothing datelessConfig (guidlessRefresh 66)
      (run datelessConfig ([] ++ [.refresh (guidlessRefresh 65)])) := by
  rintro ⟨-, hunread, -⟩
  exact absurd hunread (by decide)

theorem refresh_again_guidless :
    AddsAnonymous datelessConfig (guidlessRefresh 66)
      (run datelessConfig ([] ++ [.refresh (guidlessRefresh 65)])) := by
  refine refresh_again_adds_anonymous datelessConfig [] (guidlessRefresh 65)
    (guidlessRefresh 66) rfl rfl ?_ ?_
  · intro i j hij
    have hlength := congrArg List.length hij
    simpa [guidlessRefresh] using hlength
  · intro i e he huid
    have hmem := List.mem_map_of_mem (f := Entry.uniqueId) he
    rw [guidless_uniqueIds, huid] at hmem
    simp [guidlessRefresh, List.replicate_succ, ascii] at hmem

end Cache
end Newsbaoter
