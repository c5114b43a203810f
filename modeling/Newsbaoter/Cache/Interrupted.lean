import Newsbaoter.Cache.Renaming
import Newsbaoter.Cache.Upserts

/-!
# A refresh that is cut off and run again

No transaction stands around the statements of a refresh, so a process that
dies between two of them leaves a state of its own.  The upserts of a second
run write the same rows again, but the countdown counts a second time: what the
document does not name ends one lower than after one refresh.
-/

open Newsbaoter.Support

namespace Newsbaoter
namespace Cache

/-! ## The statements -/

inductive Statement
  | updateFeed (data : FeedField → Option CStr)
  | initCleanup
  | updateEntry (data : EntryField → Option CStr)
  | cleanupOld

/-- The statements of a refresh, in order. -/
def statements (config : Config) (r : Refresh) : List Statement :=
  match r.doc with
  | none => []
  | some children =>
      .updateFeed (feedData r.url children) :: .initCleanup ::
        ((records config.time r.env children).map .updateEntry ++ [.cleanupOld])

/-- One statement, on the database and `h->feedid`. -/
def Statement.exec (config : Config) (now : ℤ) (s : Db × ℤ) : Statement → Db × ℤ
  | .updateFeed data => cacheUpdateFeed data s.1
  | .initCleanup => (cacheInitCleanup s.2 s.1, s.2)
  | .updateEntry data => (cacheUpdateEntry s.2 data s.1, s.2)
  | .cleanupOld => (cacheCleanupOld config.entryRetention now s.2 s.1, s.2)

/-- The database after the first `m` statements of a refresh.  `h->feedid` is
set by the first one. -/
def cut (config : Config) (r : Refresh) (m : ℕ) (db : Db) : Db :=
  (((statements config r).take m).foldl (Statement.exec config r.env.now) (db, 0)).1

section Cut

variable (config : Config) {r : Refresh} {children : List XmlNode}
  (hdoc : r.doc = some children) (db : Db)

theorem exec_updateEntries
    (now feedid : ℤ) (ds : List (EntryField → Option CStr)) (db : Db) :
    (ds.map Statement.updateEntry).foldl (Statement.exec config now) (db, feedid) =
      (walk feedid ds db, feedid) := by
  induction ds generalizing db with
  | nil => rfl
  | cons d ds ih => exact ih (cacheUpdateEntry feedid d db)

include hdoc

theorem length_statements :
    (statements config r).length = (entryNodes children).length + 3 := by
  rw [statements, hdoc]
  simp

theorem cut_one : cut config r 1 db = (updateFeed r.url children db).1 := by
  rw [cut, statements, hdoc]
  rfl

/-- The countdown and `k` upserts have been made. -/
theorem cut_add_two {k : ℕ} (hk : k ≤ (entryNodes children).length) :
    cut config r (k + 2) db =
      walked r.url children ((records config.time r.env children).take k) db := by
  have htake : ((records config.time r.env children).map Statement.updateEntry ++
      [Statement.cleanupOld]).take k =
        ((records config.time r.env children).take k).map Statement.updateEntry := by
    rw [List.take_append_of_le_length (by simpa using hk), List.map_take]
  rw [cut, statements, hdoc]
  simp only [List.take_succ_cons, List.foldl_cons, htake]
  exact congrArg Prod.fst (exec_updateEntries config r.env.now _ _ _)

/-- All statements together are the refresh. -/
theorem cut_length :
    cut config r (statements config r).length db = (xmlprocUpdateCache config r db).1 := by
  rw [cut, List.take_length, statements, hdoc, xmlprocUpdateCache_fst config hdoc]
  simp only [List.foldl_cons, List.foldl_append]
  show (Statement.exec config r.env.now (List.foldl _ (cacheInitCleanup _ _, _) _) _).1 = _
  rw [exec_updateEntries]
  rfl

end Cut

/-! ## The second run -/

/-- The random ids of a refresh are new. -/
structure NewIds (r : Refresh) (db : Db) : Prop where
  injective : Function.Injective r.env.uid
  cache : ∀ i, ∀ e ∈ db.entry.rows, e.uniqueId ≠ some (r.env.uid i)

/-- The first run stored the `i`-th entry element, for some `i < k`, under a
random id. -/
def StoredAlone (config : Config) (r : Refresh) (children : List XmlNode) (k : ℕ)
    (uid : Option CStr) (b : Body CStr) : Prop :=
  ∃ i < k, ∃ node, (entryNodes children)[i]? = some node ∧ nodeId node = none ∧
    uid = some (r.env.uid i) ∧
    b = (record id (entryData config.time (r.env.tp i) (r.env.uid i) node)).2

/-- `again`, where the first run was cut off after the countdown and `k`
upserts, beside `once`, where it never took place. -/
structure LateRerun (config : Config) (r r' : Refresh) (children : List XmlNode) (k : ℕ)
    (db once again : Db) : Prop where
  feeds : again.feed = once.feed
  ids : KeepsIds db once ∧ KeepsIds db again
  others : ∀ e, e.feedID ≠ (updateFeed r.url children db).2 →
    (e ∈ again.entry.rows ↔ e ∈ once.entry.rows)
  named : ∀ uid, Mentions (records config.time r'.env children) uid →
    entries id again (updateFeed r.url children db).2 uid =
      entries id once (updateFeed r.url children db).2 uid
  /-- What the document misses is counted down twice before the deletion. -/
  missed : ∀ uid b, ¬Mentions (records config.time r'.env children) uid →
    entries id db (updateFeed r.url children db).2 uid = some b →
      entries id once (updateFeed r.url children db).2 uid =
          (some b.countedDown).filter (fun b => !b.isOld config.entryRetention r'.env.now) ∧
        entries id again (updateFeed r.url children db).2 uid =
          (some b.countedDown.countedDown).filter
            fun b => !b.isOld config.entryRetention r'.env.now
  /-- What the first run stored under a random id stays. -/
  extra : ∀ uid, ¬Mentions (records config.time r'.env children) uid →
    entries id db (updateFeed r.url children db).2 uid = none →
      entries id once (updateFeed r.url children db).2 uid = none ∧
        ∀ b, entries id again (updateFeed r.url children db).2 uid = some b ↔
          ∃ b₁, StoredAlone config r children k uid b₁ ∧ b = b₁.countedDown

/-- `update_feed` on its own result changes nothing. -/
theorem updateFeed_again
    {url : CStr} {children : List XmlNode} {db D : Db} (h : UniqueFeeds db)
    (hD : D.feed = (updateFeed url children db).1.feed) :
    updateFeed url children D = (D, (updateFeed url children db).2) := by
  have hunique : UniqueFeeds D := by
    rw [UniqueFeeds, hD]
    exact uniqueFeeds_cacheUpdateFeed h (feedData_url _ _)
  have hrow : feedRow db (feedData url children) ∈ D.feed.rows := by
    rw [hD]
    exact (mem_cacheUpdateFeed h (feedData_url _ _)).mpr (Or.inl rfl)
  have hid : (feedRow D (feedData url children)).feedID =
      (feedRow db (feedData url children)).feedID :=
    feedRow_feedID_of_mem hunique (feedData_url _ _) hrow rfl
  have hsame : feedRow D (feedData url children) = feedRow db (feedData url children) := by
    have heta : ∀ D' : Db, feedRow D' (feedData url children) =
        { feedRow db (feedData url children) with
          feedID := (feedRow D' (feedData url children)).feedID } := fun _ => rfl
    rw [heta D, hid]
  rw [updateFeed, cacheUpdateFeed, hsame, KeyedTable.insertOrReplace_eq_self hrow]
  rfl

section Rerun

variable {config : Config} {r r' : Refresh} {children : List XmlNode} {db : Db}

theorem refresh_of_updated
    (hdoc : r.doc = some children) {D : Db}
    (h : updateFeed r.url children D = updateFeed r.url children db) :
    (xmlprocUpdateCache config r D).1 = (xmlprocUpdateCache config r db).1 := by
  rw [xmlprocUpdateCache_fst config hdoc, xmlprocUpdateCache_fst config hdoc, beforeDeletion,
    beforeDeletion, h]

/-- Cut off before the countdown, the first run leaves no trace. -/
theorem rerun_of_le_one
    (h : Integrity db) (hurl : r'.url = r.url) (hdoc : r.doc = some children)
    (hdoc' : r'.doc = some children) {m : ℕ} (hm : m ≤ 1) :
    (xmlprocUpdateCache config r' (cut config r m db)).1 =
      (xmlprocUpdateCache config r' db).1 := by
  match m, hm with
  | 0, _ =>
      rw [cut, List.take_zero]
      rfl
  | 1, _ =>
      apply refresh_of_updated hdoc'
      rw [cut_one config hdoc, hurl, updateFeed_again h.feeds rfl]

theorem mem_take_records_iff
    {time : TimeLib} {env : RefreshEnv} {k : ℕ} {d : EntryField → Option CStr} :
    d ∈ (records time env children).take k ↔
      ∃ i < k, ∃ node, (entryNodes children)[i]? = some node ∧
        d = entryData time (env.tp i) (env.uid i) node := by
  have hget : ∀ i, (records time env children)[i]? =
      (entryNodes children)[i]?.map fun node => entryData time (env.tp i) (env.uid i) node := by
    intro i
    simp [records, Function.comp_def]
  rw [List.mem_iff_getElem?]
  constructor
  · rintro ⟨i, hi⟩
    rw [List.getElem?_take] at hi
    obtain ⟨hlt, hi⟩ := Option.ite_none_right_eq_some.mp hi
    rw [hget, Option.map_eq_some_iff] at hi
    obtain ⟨node, hnode, rfl⟩ := hi
    exact ⟨i, hlt, node, hnode, rfl⟩
  · rintro ⟨i, hlt, node, hnode, rfl⟩
    refine ⟨i, ?_⟩
    rw [List.getElem?_take, if_pos hlt, hget, hnode]
    rfl

theorem record_key (d : EntryField → Option CStr) : (record id d).1 = d .uid :=
  Option.map_id_apply

theorem written_records_eq_none_iff
    {ds : List (EntryField → Option CStr)} {uid : Option CStr} :
    written (ds.map (record id)) uid = none ↔ ¬Mentions ds uid := by
  rw [written_eq_none_iff, Mentions]
  simp only [List.mem_map, forall_exists_index, and_imp, forall_apply_eq_imp_iff₂, record_key,
    not_exists, not_and]

/-- An id of the first run that the second one does not name is random. -/
theorem storedAlone_of_not_mentioned
    {k : ℕ} {d : EntryField → Option CStr}
    (hd : d ∈ (records config.time r.env children).take k)
    (hnot : ¬Mentions (records config.time r'.env children) (d .uid)) :
    StoredAlone config r children k (d .uid) (record id d).2 := by
  obtain ⟨i, hi, node, hnode, rfl⟩ := mem_take_records_iff.mp hd
  cases hs : nodeId node with
  | some s =>
      refine absurd ⟨_, mem_records_iff.mpr ⟨i, node, hnode, rfl⟩, ?_⟩ hnot
      rw [entryData_uid, entryData_uid, hs]
      rfl
  | none =>
      refine ⟨i, hi, node, hnode, hs, ?_, rfl⟩
      rw [entryData_uid, hs]
      rfl

theorem record_of_storedAlone
    {k : ℕ} {uid : Option CStr} {b : Body CStr} (h : StoredAlone config r children k uid b) :
    (uid, b) ∈ ((records config.time r.env children).take k).map (record id) := by
  obtain ⟨i, hi, node, hnode, hs, rfl, rfl⟩ := h
  refine List.mem_map.mpr ⟨_, mem_take_records_iff.mpr ⟨i, hi, node, hnode, rfl⟩, ?_⟩
  rw [record, entryData_uid, hs]
  rfl

/-- A random id stands for one entry element. -/
theorem storedAlone_unique
    (hinjective : Function.Injective r.env.uid) {k : ℕ} {uid : Option CStr} {b b' : Body CStr}
    (h : StoredAlone config r children k uid b) (h' : StoredAlone config r children k uid b') :
    b = b' := by
  obtain ⟨i, -, node, hnode, -, huid, rfl⟩ := h
  obtain ⟨j, -, node', hnode', -, huid', rfl⟩ := h'
  have hij : i = j := hinjective (Option.some.inj (huid.symm.trans huid'))
  rw [hij, hnode'] at hnode
  rw [hij, Option.some.inj hnode]

/-- What the first run says about an id that the second one does not name. -/
theorem written_first_iff
    (hinjective : Function.Injective r.env.uid) {k : ℕ} {uid : Option CStr}
    (hnot : ¬Mentions (records config.time r'.env children) uid) {b : Body CStr} :
    written (((records config.time r.env children).take k).map (record id)) uid = some b ↔
      StoredAlone config r children k uid b := by
  have hstored : ∀ b', (uid, b') ∈ ((records config.time r.env children).take k).map
      (record id) → StoredAlone config r children k uid b' := by
    intro b' hmem
    obtain ⟨d, hd, hrecord⟩ := List.mem_map.mp hmem
    obtain ⟨hkey, rfl⟩ := Prod.mk.inj hrecord
    have huid : d .uid = uid := (record_key d).symm.trans hkey
    rw [← huid] at hnot ⊢
    exact storedAlone_of_not_mentioned hd hnot
  constructor
  · intro hwritten
    exact hstored b (mem_of_written hwritten)
  · intro halone
    cases hwritten : written (((records config.time r.env children).take k).map
        (record id)) uid with
    | none => exact absurd rfl (written_eq_none_iff.mp hwritten _ (record_of_storedAlone halone))
    | some b' =>
        rw [storedAlone_unique hinjective halone (hstored b' (mem_of_written hwritten))]

theorem StoredAlone.over_none
    {k : ℕ} {uid : Option CStr} {b : Body CStr} (h : StoredAlone config r children k uid b) :
    b.over none = b := by
  obtain ⟨i, -, node, -, -, -, rfl⟩ := h
  rfl

/-- A new row is unread, so the deletion passes it by. -/
theorem StoredAlone.not_isOld
    {k : ℕ} {uid : Option CStr} {b : Body CStr} (h : StoredAlone config r children k uid b)
    (entryRetention now : ℤ) : b.countedDown.isOld entryRetention now = false := by
  obtain ⟨i, -, node, -, -, -, rfl⟩ := h
  simp [Body.isOld, Body.countedDown, record]

theorem identified_take (config : Config) (r : Refresh) (children : List XmlNode) (k : ℕ) :
    Identified ((records config.time r.env children).take k) := fun d hd =>
  identified_records config.time r.env children d (List.mem_of_mem_take hd)

section Cut

variable (h : Integrity db) (hdoc : r.doc = some children) {k : ℕ}
  (hk : k ≤ (entryNodes children).length)
include h hdoc hk

variable (config) in
theorem integrity_cut : Integrity (cut config r (k + 2) db) := by
  rw [cut_add_two config hdoc db hk]
  exact integrity_walked r.url children (identified_take config r children k) h

variable (config) in
/-- The second `update_feed` finds the row of the first one. -/
theorem updateFeed_cut :
    updateFeed r.url children (cut config r (k + 2) db) =
      (cut config r (k + 2) db, (updateFeed r.url children db).2) := by
  apply updateFeed_again h.feeds
  rw [cut_add_two config hdoc db hk]
  exact walked_feed r.url children

/-- The entries of the feed where the first run was cut off. -/
theorem entries_cut :
    entries id (cut config r (k + 2) db) (updateFeed r.url children db).2 =
      (entries id db (updateFeed r.url children db).2).countDown.upserts
        (((records config.time r.env children).take k).map (record id)) := by
  rw [cut_add_two config hdoc db hk]
  exact entries_walked Function.injective_id h r.url children
    (identified_take config r children k)

/-- Neither the countdown nor the first upserts touch a read mark. -/
theorem mark_cut (uid : Option CStr) :
    (entries id (cut config r (k + 2) db) (updateFeed r.url children db).2).mark uid =
      (entries id db (updateFeed r.url children db).2).mark uid := by
  rw [entries_cut h hdoc hk, Entries.mark_upserts, Entries.mark_countDown]

/-- What was in the cache and is not in the document is counted down once by
the first run. -/
theorem entries_cut_of_missed
    (hnew : NewIds r db) {uid : Option CStr}
    (hnot : ¬Mentions (records config.time r'.env children) uid)
    {b : Body CStr} (hb : entries id db (updateFeed r.url children db).2 uid = some b) :
    entries id (cut config r (k + 2) db) (updateFeed r.url children db).2 uid =
      some b.countedDown := by
  have hunwritten : written (((records config.time r.env children).take k).map
      (record id)) uid = none := by
    rw [Option.eq_none_iff_forall_ne_some]
    intro b' hwritten
    obtain ⟨i, -, -, -, -, rfl, -⟩ := (written_first_iff hnew.injective hnot).mp hwritten
    obtain ⟨e, hfind, -⟩ := Option.map_eq_some_iff.mp hb
    obtain ⟨he, -, huid⟩ := (entryAt_eq_some_iff Function.injective_id h.entries).mp hfind
    rw [Option.map_id_apply] at huid
    exact hnew.cache i e he huid
  rw [entries_cut h hdoc hk, Entries.upserts_of_not_written hunwritten, Entries.countDown, hb]
  rfl

/-- What was not in the cache and is not in the document either is what the
first run stored under a random id. -/
theorem entries_cut_of_new
    (hnew : NewIds r db) {uid : Option CStr}
    (hnot : ¬Mentions (records config.time r'.env children) uid)
    (hnone : entries id db (updateFeed r.url children db).2 uid = none) (b : Body CStr) :
    entries id (cut config r (k + 2) db) (updateFeed r.url children db).2 uid = some b ↔
      StoredAlone config r children k uid b := by
  rw [← written_first_iff hnew.injective hnot, entries_cut h hdoc hk, Entries.upserts_apply,
    Entries.countDown, hnone]
  cases hwritten : written (((records config.time r.env children).take k).map
      (record id)) uid with
  | none => rfl
  | some b' =>
      have halone := (written_first_iff hnew.injective hnot).mp hwritten
      dsimp only
      rw [Option.map_none, halone.over_none]

/-- The second run finds the entries that the cache had, under their ids. -/
theorem keepsIds_rerun : KeepsIds db (xmlprocUpdateCache config r' (cut config r (k + 2) db)).1 := by
  have hkeeps := keepsIds_refresh config (integrity_cut config h hdoc hk) r'
  intro e he x hx hfeed huid
  obtain ⟨e', he', hid, hfeed', huid', -⟩ :=
    exists_successor_walked r.url children (identified_take config r children k) h he
  rw [← cut_add_two config hdoc db hk] at he'
  rw [hkeeps e' he' x hx (hfeed.trans hfeed'.symm) (huid.trans huid'.symm), hid]

theorem lateRerun
    (hurl : r'.url = r.url) (hdoc' : r'.doc = some children) (hnew : NewIds r db) :
    LateRerun config r r' children k db (xmlprocUpdateCache config r' db).1
      (xmlprocUpdateCache config r' (cut config r (k + 2) db)).1 := by
  have hintegrity : Integrity (cut config r (k + 2) db) := integrity_cut config h hdoc hk
  have hagain := updateFeed_cut config h hdoc hk
  have honce := entries_refresh config Function.injective_id h hdoc'
  have htwice := entries_refresh config Function.injective_id hintegrity hdoc'
  rw [hurl] at honce
  rw [hurl, hagain] at htwice
  have hwritten : ∀ uid, written (edition config id r' children).records uid = none ↔
      ¬Mentions (records config.time r'.env children) uid :=
    fun uid => written_records_eq_none_iff
  refine ⟨?_, ⟨keepsIds_refresh config h r', keepsIds_rerun h hdoc hk⟩, ?_, ?_, ?_, ?_⟩
  · rw [refresh_feed config hdoc', refresh_feed config hdoc', hurl, hagain,
      cut_add_two config hdoc db hk]
    exact walked_feed r.url children
  · intro e hne
    rw [mem_refresh_of_other config hintegrity hdoc' (by rwa [hurl, hagain]),
      cut_add_two config hdoc db hk,
      mem_walked_of_other r.url children (identified_take config r children k) h hne,
      mem_refresh_of_other config h hdoc' (by rwa [hurl])]
  · intro uid hmention
    rw [honce, htwice]
    apply Entries.refreshed_congr
    · rw [Ne, hwritten, not_not]
      exact hmention
    · exact mark_cut h hdoc hk uid
  · intro uid b hnot hb
    have hunwritten := (hwritten uid).mpr hnot
    rw [honce, htwice, Entries.refreshed_of_not_written _ hunwritten,
      Entries.refreshed_of_not_written _ hunwritten, hb,
      entries_cut_of_missed h hdoc hk hnew hnot hb]
    exact ⟨rfl, rfl⟩
  · intro uid hnot hnone
    have hunwritten := (hwritten uid).mpr hnot
    rw [honce, htwice, Entries.refreshed_of_not_written _ hunwritten,
      Entries.refreshed_of_not_written _ hunwritten, hnone]
    refine ⟨rfl, fun b => ?_⟩
    rw [Option.filter_eq_some_iff, Option.map_eq_some_iff]
    simp only [entries_cut_of_new h hdoc hk hnew hnot hnone]
    constructor
    · rintro ⟨⟨b₁, halone, rfl⟩, -⟩
      exact ⟨b₁, halone, rfl⟩
    · rintro ⟨b₁, halone, rfl⟩
      exact ⟨⟨b₁, halone, rfl⟩, by rw [halone.not_isOld]; rfl⟩

end Cut

end Rerun

/-- For every reachable cache and every place where a refresh is cut off: before
the countdown the second run makes up for it; after the countdown it does so for
the feed and for all the document names, while what the document misses stays
counted down once more and what the first run stored under a random id stays as
well. -/
theorem rerun_after_cut
    (config : Config) (ops : List Op) (r r' : Refresh) {children : List XmlNode}
    (hurl : r'.url = r.url) (hdoc : r.doc = some children) (hdoc' : r'.doc = some children)
    (hnew : NewIds r (run config ops)) {m : ℕ}
    (hm : m < (statements config r).length) :
    (m ≤ 1 →
        (xmlprocUpdateCache config r' (cut config r m (run config ops))).1 =
          (xmlprocUpdateCache config r' (run config ops)).1) ∧
      ∀ k, m = k + 2 →
        LateRerun config r r' children k (run config ops)
          (xmlprocUpdateCache config r' (run config ops)).1
          (xmlprocUpdateCache config r' (cut config r m (run config ops))).1 := by
  have h := integrity_run config ops
  refine ⟨rerun_of_le_one h hurl hdoc hdoc', ?_⟩
  rintro k rfl
  rw [length_statements config hdoc] at hm
  exact lateRerun h hdoc (by omega) hurl hdoc' hnew

/-! ## A cut after the upserts, and one after the countdown -/

/-- The feed is in the cache, with an entry that has a random id. -/
def guidlessCached : List Op :=
  [.refresh (guidlessRefresh 67)]

theorem newIds_guidlessCached :
    NewIds (guidlessRefresh 65) (run datelessConfig guidlessCached) := by
  refine ⟨?_, ?_⟩
  · intro i j hij
    have hlength := congrArg List.length hij
    simpa [guidlessRefresh] using hlength
  · intro i e he huid
    have hids : (run datelessConfig guidlessCached).entry.rows.map Entry.uniqueId =
        [some (ascii "tag:1"), some [67, 67]] := by decide
    have hmem := List.mem_map_of_mem (f := Entry.uniqueId) he
    rw [hids, huid] at hmem
    simp [guidlessRefresh, List.replicate_succ, ascii] at hmem

theorem rerun_after_guidless_cut :
    LateRerun datelessConfig (guidlessRefresh 65) (guidlessRefresh 66)
      ((guidlessRefresh 65).doc.getD []) 2 (run datelessConfig guidlessCached)
      (xmlprocUpdateCache datelessConfig (guidlessRefresh 66)
        (run datelessConfig guidlessCached)).1
      (xmlprocUpdateCache datelessConfig (guidlessRefresh 66)
        (cut datelessConfig (guidlessRefresh 65) 4 (run datelessConfig guidlessCached))).1 :=
  (rerun_after_cut datelessConfig guidlessCached (guidlessRefresh 65) (guidlessRefresh 66)
    rfl rfl rfl newIds_guidlessCached (by decide)).2 2 rfl

/-- The same rows, up to their ids and unique ids. -/
def SameUpToIds (D D' : Db) : Prop :=
  ∃ φ ψ σ, Renames φ ψ σ D D'

def snapshot (children : List XmlNode) : Refresh where
  url := ascii "http://example/feed"
  doc := some children
  env := ⟨1000000000, fun _ => blankTm, fun _ => []⟩

/-- An entry that was read, and that the document then missed once. -/
def readThenMissed : List Op :=
  [.refresh (snapshot
      [.elem (ascii "entry") [.elem (ascii "entryUniqueId") [.text (ascii "tag:1")]]]),
    .readFeed 0, .refresh (snapshot [])]

/-- Cut off after the countdown and run again, the next refresh deletes it. -/
theorem cut_after_countdown_deletes :
    ¬SameUpToIds
      (xmlprocUpdateCache datelessConfig (snapshot []) (run datelessConfig readThenMissed)).1
      (xmlprocUpdateCache datelessConfig (snapshot [])
        (cut datelessConfig (snapshot []) 2 (run datelessConfig readThenMissed))).1 := by
  rintro ⟨φ, ψ, σ, h⟩
  have hlength := h.entries.length_eq
  rw [List.length_map] at hlength
  exact absurd hlength (by decide)

end Cache
end Newsbaoter
