import Newsbaoter.Cache.Walk
import Mathlib.Data.List.Induction

/-!
# Identity of feeds and entries over a run

The schema has no UNIQUE constraint on URLs or on unique ids.  That there is
one feed row for a URL, one entry row for a feed and unique id, and a feed row
for every entry is an invariant of the runs of the program's own statements,
and one refresh leaves the rows of every other feed alone.
-/

open Newsbaoter.Support

namespace Newsbaoter
namespace Cache

/-! ## Runs of the cache -/

/-- What the program does to the cache between two states. -/
inductive Op
  | refresh (r : Refresh)
  | toggleRead (id v : ℤ)
  | readFeed (feedid : ℤ)
  | writeField (id : ℤ)

def Op.apply (config : Config) (db : Db) : Op → Db
  | .refresh r => (xmlprocUpdateCache config r db).1
  | .toggleRead id v => cacheToggleReadEntry id v db
  | .readFeed feedid => cacheReadFeed feedid db
  | .writeField id => cacheWriteEntryField id db

/-- The database a run reaches from the empty schema. -/
def run (config : Config) (ops : List Op) : Db :=
  ops.foldl (Op.apply config) emptyDb

@[simp] theorem run_nil (config : Config) : run config [] = emptyDb := rfl

@[simp] theorem run_concat (config : Config) (ops : List Op) (op : Op) :
    run config (ops ++ [op]) = op.apply config (run config ops) := by
  simp [run]

/-- The invariant the subselects rely on. -/
structure Integrity (db : Db) : Prop where
  feeds : UniqueFeeds db
  entries : UniqueEntries db
  owned : ∀ e ∈ db.entry.rows, ∃ f ∈ db.feed.rows, f.feedID = e.feedID

theorem integrity_emptyDb : Integrity emptyDb where
  feeds := by simp [UniqueFeeds, emptyDb]
  entries := by simp [UniqueEntries, emptyDb]
  owned := by simp [emptyDb]

/-! ## Statements that rewrite rows in place -/

section InPlace

variable {db : Db} {p : Entry → Bool} {f : Entry → Entry}
  (hkey : ∀ e, (f e).entryID = e.entryID)

theorem exists_of_mem_updateWhere {x : Entry}
    (hx : x ∈ (db.entry.updateWhere p f hkey).rows) :
    ∃ e ∈ db.entry.rows, x = if p e then f e else e := by
  rw [KeyedTable.rows_updateWhere] at hx
  obtain ⟨e, he, rfl⟩ := List.mem_map.mp hx
  exact ⟨e, he, rfl⟩

theorem integrity_updateWhere (h : Integrity db)
    (hfeed : ∀ e, (f e).feedID = e.feedID)
    (huid : ∀ e, (f e).uniqueId = e.uniqueId) :
    Integrity { db with entry := db.entry.updateWhere p f hkey } := by
  have hfeed' : ∀ e, (if p e then f e else e).feedID = e.feedID := by
    intro e
    split
    · exact hfeed e
    · rfl
  have huid' : ∀ e, (if p e then f e else e).uniqueId = e.uniqueId := by
    intro e
    split
    · exact huid e
    · rfl
  refine ⟨h.feeds, ?_, ?_⟩
  · intro x hx y hy hxy hxyid
    obtain ⟨e, he, rfl⟩ := exists_of_mem_updateWhere hkey hx
    obtain ⟨e', he', rfl⟩ := exists_of_mem_updateWhere hkey hy
    rw [hfeed', hfeed'] at hxy
    rw [huid', huid'] at hxyid
    rw [h.entries e he e' he' hxy hxyid]
  · intro x hx
    obtain ⟨e, he, rfl⟩ := exists_of_mem_updateWhere hkey hx
    rw [hfeed']
    exact h.owned e he

end InPlace

theorem integrity_cacheToggleReadEntry {db : Db} (h : Integrity db) (id v : ℤ) :
    Integrity (cacheToggleReadEntry id v db) :=
  integrity_updateWhere _ h (fun _ => rfl) fun _ => rfl

theorem integrity_cacheReadFeed {db : Db} (h : Integrity db) (feedid : ℤ) :
    Integrity (cacheReadFeed feedid db) :=
  integrity_updateWhere _ h (fun _ => rfl) fun _ => rfl

theorem integrity_cacheInitCleanup {db : Db} (h : Integrity db) (feedid : ℤ) :
    Integrity (cacheInitCleanup feedid db) :=
  integrity_updateWhere _ h (fun _ => rfl) fun _ => rfl

theorem integrity_cacheCleanupOld {db : Db} (h : Integrity db)
    (entryRetention now feedid : ℤ) :
    Integrity (cacheCleanupOld entryRetention now feedid db) := by
  refine ⟨h.feeds, ?_, ?_⟩
  · intro e he e' he'
    exact h.entries e (KeyedTable.mem_deleteWhere.mp he).1
      e' (KeyedTable.mem_deleteWhere.mp he').1
  · intro e he
    exact h.owned e (KeyedTable.mem_deleteWhere.mp he).1

/-- The row `cache_init_cleanup` makes of `e`. -/
def countedDown (feedid : ℤ) (e : Entry) : Entry :=
  if e.feedID = feedid then { e with current := e.current - 1 } else e

theorem mem_cacheInitCleanup {feedid : ℤ} {db : Db} {x : Entry} :
    x ∈ (cacheInitCleanup feedid db).entry.rows ↔
      ∃ e ∈ db.entry.rows, x = countedDown feedid e := by
  simp only [cacheInitCleanup, KeyedTable.rows_updateWhere, List.mem_map,
    beq_iff_eq, countedDown, eq_comm (a := x)]

theorem countedDown_of_ne {feedid : ℤ} {e : Entry} (h : e.feedID ≠ feedid) :
    countedDown feedid e = e :=
  if_neg h

@[simp] theorem countedDown_entryID (feedid : ℤ) (e : Entry) :
    (countedDown feedid e).entryID = e.entryID := by
  unfold countedDown
  split <;> rfl

@[simp] theorem countedDown_feedID (feedid : ℤ) (e : Entry) :
    (countedDown feedid e).feedID = e.feedID := by
  unfold countedDown
  split <;> rfl

@[simp] theorem countedDown_uniqueId (feedid : ℤ) (e : Entry) :
    (countedDown feedid e).uniqueId = e.uniqueId := by
  unfold countedDown
  split <;> rfl

@[simp] theorem countedDown_viewed (feedid : ℤ) (e : Entry) :
    (countedDown feedid e).viewed = e.viewed := by
  unfold countedDown
  split <;> rfl

/-! ## One refresh -/

/-- `update_feed` and everything of `update_entries` before the deletion. -/
def beforeDeletion (config : Config) (r : Refresh) (children : List XmlNode)
    (db : Db) : Db :=
  walk (updateFeed r.url children db).2 (records config.time r.env children)
    (cacheInitCleanup (updateFeed r.url children db).2
      (updateFeed r.url children db).1)

theorem xmlprocUpdateCache_fst (config : Config) {r : Refresh}
    {children : List XmlNode} (hdoc : r.doc = some children) (db : Db) :
    (xmlprocUpdateCache config r db).1 =
      cacheCleanupOld config.entryRetention r.env.now
        (updateFeed r.url children db).2
        (beforeDeletion config r children db) := by
  simp only [xmlprocUpdateCache, hdoc, updateEntries_eq, beforeDeletion]

theorem xmlprocUpdateCache_of_no_root (config : Config) {r : Refresh}
    (hdoc : r.doc = none) (db : Db) : xmlprocUpdateCache config r db = (db, false) := by
  simp only [xmlprocUpdateCache, hdoc]

section OneRefresh

variable {db : Db} (url : CStr) (children : List XmlNode)

@[simp] theorem feedData_url : feedData url children .url = some url := rfl

/-- The feed row of the refreshed URL carries the id that `update_feed`
returns. -/
theorem exists_feed_updateFeed (h : UniqueFeeds db) :
    ∃ f ∈ (updateFeed url children db).1.feed.rows,
      f.url = some url ∧ f.feedID = (updateFeed url children db).2 :=
  ⟨_, (mem_cacheUpdateFeed h (feedData_url _ _)).mpr (Or.inl rfl), rfl, rfl⟩

theorem updateFeed_snd_of_mem (h : UniqueFeeds db) {f : Feed}
    (hf : f ∈ db.feed.rows) (hurl : f.url = some url) :
    (updateFeed url children db).2 = f.feedID :=
  feedRow_feedID_of_mem h (feedData_url _ _) hf hurl

/-- The feed row of another URL has another id. -/
theorem feedID_ne_updateFeed_snd (h : UniqueFeeds db) {g : Feed}
    (hg : g ∈ db.feed.rows) (hurl : g.url ≠ some url) :
    g.feedID ≠ (updateFeed url children db).2 := by
  intro hid
  obtain ⟨f, hf, hfurl, hfid⟩ :=
    exists_feed_updateFeed url children h
  have hg' : g ∈ (updateFeed url children db).1.feed.rows :=
    (mem_cacheUpdateFeed h (feedData_url _ _)).mpr (Or.inr ⟨hg, hurl⟩)
  have hsame := KeyedTable.eq_of_key_eq _ hg' hf (hid.trans hfid.symm)
  exact hurl (hsame ▸ hfurl)

theorem integrity_updateFeed (h : Integrity db) :
    Integrity (updateFeed url children db).1 := by
  refine ⟨uniqueFeeds_cacheUpdateFeed h.feeds (feedData_url _ _), h.entries, ?_⟩
  intro e he
  obtain ⟨f, hf, hid⟩ := h.owned e he
  by_cases hurl : f.url = some url
  · obtain ⟨f', hf', -, hid'⟩ :=
      exists_feed_updateFeed url children h.feeds
    refine ⟨f', hf', ?_⟩
    rw [hid', updateFeed_snd_of_mem _ _ h.feeds hf hurl, hid]
  · exact ⟨f, (mem_cacheUpdateFeed h.feeds (feedData_url _ _)).mpr
      (Or.inr ⟨hf, hurl⟩), hid⟩

end OneRefresh

/-- The database after `update_feed`, the countdown and some upserts. -/
def walked (url : CStr) (children : List XmlNode) (ds : List (EntryField → Option CStr))
    (db : Db) : Db :=
  walk (updateFeed url children db).2 ds
    (cacheInitCleanup (updateFeed url children db).2 (updateFeed url children db).1)

section Walked

variable (url : CStr) (children : List XmlNode) {ds : List (EntryField → Option CStr)}
  (hids : Identified ds) {db : Db}

omit hids in
theorem walked_feed :
    (walked url children ds db).feed = (updateFeed url children db).1.feed := by
  rw [walked, walk_feed]
  rfl

include hids

theorem integrity_walked (h : Integrity db) : Integrity (walked url children ds db) := by
  have hinit : Integrity (cacheInitCleanup (updateFeed url children db).2
      (updateFeed url children db).1) :=
    integrity_cacheInitCleanup (integrity_updateFeed _ _ h) _
  refine ⟨?_, uniqueEntries_walk hids hinit.entries, ?_⟩
  · rw [UniqueFeeds, walked_feed]
    exact (integrity_updateFeed _ _ h).feeds
  · intro e he
    rw [walked_feed]
    by_cases hfeed : e.feedID = (updateFeed url children db).2
    · obtain ⟨f, hf, -, hid⟩ := exists_feed_updateFeed url children h.feeds
      exact ⟨f, hf, hid.trans hfeed.symm⟩
    · rw [walked, mem_walk_of_not_mentioned hids hinit.entries
        fun h => absurd h hfeed] at he
      exact hinit.owned e he

/-- Until the deletion every entry of the old database still has its row: same
id, feed, unique id and read mark. -/
theorem exists_successor_walked (h : Integrity db) {e : Entry} (he : e ∈ db.entry.rows) :
    ∃ x ∈ (walked url children ds db).entry.rows,
      x.entryID = e.entryID ∧ x.feedID = e.feedID ∧
        x.uniqueId = e.uniqueId ∧ x.viewed = e.viewed := by
  have hunique : UniqueEntries (cacheInitCleanup
      (updateFeed url children db).2 (updateFeed url children db).1) :=
    (integrity_cacheInitCleanup (integrity_updateFeed _ _ h) _).entries
  have hcounted : countedDown (updateFeed url children db).2 e ∈
      (cacheInitCleanup (updateFeed url children db).2
        (updateFeed url children db).1).entry.rows :=
    mem_cacheInitCleanup.mpr ⟨e, he, rfl⟩
  by_cases hmention : e.feedID = (updateFeed url children db).2 ∧ Mentions ds e.uniqueId
  · obtain ⟨hfeed, huid⟩ := hmention
    obtain ⟨x, hx, hxfeed, hxuid⟩ := exists_mem_walk_of_mentioned
      (updateFeed url children db).2 hids hunique huid
    have hrewritten := rewritten_of_mem_walk hids hunique hx hxfeed
      (by rw [hxuid]; exact huid)
    obtain ⟨hid, hviewed⟩ := hrewritten.kept _ hcounted
      (by simp [hfeed, hxfeed]) (by simp [hxuid])
    simp only [countedDown_entryID, countedDown_viewed] at hid hviewed
    exact ⟨x, hx, hid, hxfeed.trans hfeed.symm, hxuid, hviewed⟩
  · refine ⟨countedDown (updateFeed url children db).2 e, ?_, ?_⟩
    · rw [walked, mem_walk_of_not_mentioned hids hunique]
      · exact hcounted
      · intro hfeed huid
        simp only [countedDown_feedID, countedDown_uniqueId] at hfeed huid
        exact hmention ⟨hfeed, huid⟩
    · simp

theorem mem_walked_of_other (h : Integrity db) {e : Entry}
    (hfeed : e.feedID ≠ (updateFeed url children db).2) :
    e ∈ (walked url children ds db).entry.rows ↔ e ∈ db.entry.rows := by
  rw [walked, mem_walk_of_not_mentioned hids
    (integrity_cacheInitCleanup (integrity_updateFeed _ _ h) _).entries
    fun h => absurd h hfeed, mem_cacheInitCleanup]
  constructor
  · rintro ⟨e', he', rfl⟩
    rw [countedDown_feedID] at hfeed
    rw [countedDown_of_ne hfeed]
    exact he'
  · intro he
    exact ⟨e, he, (countedDown_of_ne hfeed).symm⟩

end Walked

section Refreshed

variable (config : Config) (r : Refresh) (children : List XmlNode) {db : Db}

theorem beforeDeletion_feed :
    (beforeDeletion config r children db).feed =
      (updateFeed r.url children db).1.feed :=
  walked_feed r.url children

theorem integrity_beforeDeletion (h : Integrity db) :
    Integrity (beforeDeletion config r children db) :=
  integrity_walked r.url children (identified_records config.time r.env children) h

theorem exists_successor (h : Integrity db) {e : Entry} (he : e ∈ db.entry.rows) :
    ∃ x ∈ (beforeDeletion config r children db).entry.rows,
      x.entryID = e.entryID ∧ x.feedID = e.feedID ∧
        x.uniqueId = e.uniqueId ∧ x.viewed = e.viewed :=
  exists_successor_walked r.url children (identified_records config.time r.env children) h he

theorem mem_beforeDeletion_of_other (h : Integrity db) {e : Entry}
    (hfeed : e.feedID ≠ (updateFeed r.url children db).2) :
    e ∈ (beforeDeletion config r children db).entry.rows ↔
      e ∈ db.entry.rows :=
  mem_walked_of_other r.url children (identified_records config.time r.env children) h hfeed

variable {r children} in
theorem refresh_feed (hdoc : r.doc = some children) :
    (xmlprocUpdateCache config r db).1.feed = (updateFeed r.url children db).1.feed := by
  rw [xmlprocUpdateCache_fst config hdoc, cacheCleanupOld, beforeDeletion_feed]

variable {r children} in
theorem mem_refresh_of_other (h : Integrity db) (hdoc : r.doc = some children) {e : Entry}
    (hfeed : e.feedID ≠ (updateFeed r.url children db).2) :
    e ∈ (xmlprocUpdateCache config r db).1.entry.rows ↔ e ∈ db.entry.rows := by
  rw [xmlprocUpdateCache_fst config hdoc, cacheCleanupOld, KeyedTable.mem_deleteWhere,
    mem_beforeDeletion_of_other _ _ _ h hfeed]
  constructor
  · exact fun hmem => hmem.1
  · intro he
    exact ⟨he, by simp [isOld, hfeed]⟩

end Refreshed

theorem integrity_refresh {config : Config} {db : Db} (h : Integrity db)
    (r : Refresh) : Integrity (xmlprocUpdateCache config r db).1 := by
  cases hdoc : r.doc with
  | none =>
      rw [xmlprocUpdateCache_of_no_root config hdoc]
      exact h
  | some children =>
      rw [xmlprocUpdateCache_fst config hdoc]
      exact integrity_cacheCleanupOld (integrity_beforeDeletion _ _ _ h) _ _ _

theorem integrity_apply {config : Config} {db : Db} (h : Integrity db)
    (op : Op) : Integrity (op.apply config db) := by
  cases op with
  | refresh r => exact integrity_refresh h r
  | toggleRead id v => exact integrity_cacheToggleReadEntry h id v
  | readFeed feedid => exact integrity_cacheReadFeed h feedid
  | writeField id => exact integrity_cacheToggleReadEntry h id 1

theorem integrity_run (config : Config) (ops : List Op) :
    Integrity (run config ops) := by
  induction ops using List.reverseRecOn with
  | nil => exact integrity_emptyDb
  | append_singleton ops op ih =>
      rw [run_concat]
      exact integrity_apply ih op

/-! ## What a refresh keeps -/

/-- What a refresh of `url` that leads from `db` to `db'` leaves alone. -/
structure RefreshKeeps (url : CStr) (db db' : Db) : Prop where
  feedID : ∀ f ∈ db.feed.rows, f.url = some url →
    ∃ f' ∈ db'.feed.rows, f'.url = some url ∧ f'.feedID = f.feedID
  /-- An entry keeps its id and read mark, or it is gone under its key and its
  unique id alike. -/
  entries : ∀ f ∈ db.feed.rows, f.url = some url →
    ∀ e ∈ db.entry.rows, e.feedID = f.feedID →
      (∃ e' ∈ db'.entry.rows, e'.entryID = e.entryID ∧
        e'.feedID = e.feedID ∧ e'.uniqueId = e.uniqueId ∧
        e'.viewed = e.viewed) ∨
      ∀ e' ∈ db'.entry.rows, e'.entryID ≠ e.entryID ∧
        ¬(e'.feedID = e.feedID ∧ e'.uniqueId = e.uniqueId)
  otherFeeds : ∀ f, f.url ≠ some url →
    (f ∈ db'.feed.rows ↔ f ∈ db.feed.rows)
  otherEntries : ∀ f ∈ db.feed.rows, f.url ≠ some url →
    ∀ e, e.feedID = f.feedID → (e ∈ db'.entry.rows ↔ e ∈ db.entry.rows)

theorem refreshKeeps_refl (url : CStr) (db : Db) : RefreshKeeps url db db where
  feedID f hf hurl := ⟨f, hf, hurl, rfl⟩
  entries _ _ _ e he _ := Or.inl ⟨e, he, rfl, rfl, rfl, rfl⟩
  otherFeeds _ _ := Iff.rfl
  otherEntries _ _ _ _ _ := Iff.rfl

theorem refreshKeeps_of_root {config : Config} {db : Db} (h : Integrity db)
    {r : Refresh} {children : List XmlNode} (hdoc : r.doc = some children) :
    RefreshKeeps r.url db (xmlprocUpdateCache config r db).1 where
  feedID := by
    intro f hf hurl
    obtain ⟨f', hf', hurl', hid⟩ := exists_feed_updateFeed r.url children h.feeds
    refine ⟨f', ?_, hurl', hid.trans (updateFeed_snd_of_mem _ _ h.feeds hf hurl)⟩
    rw [refresh_feed config hdoc]
    exact hf'
  entries := by
    intro f _ _ e he _
    obtain ⟨x, hx, hid, hfeed, huid, hviewed⟩ :=
      exists_successor config r children h he
    rw [xmlprocUpdateCache_fst config hdoc]
    by_cases hold : isOld config.entryRetention r.env.now
        (updateFeed r.url children db).2 x
    · right
      intro e' he'
      obtain ⟨hmem, hnew⟩ := KeyedTable.mem_deleteWhere.mp he'
      have hne : e' ≠ x := by
        rintro rfl
        simp [hold] at hnew
      refine ⟨fun hkey => hne ?_, fun hsame => hne ?_⟩
      · exact KeyedTable.eq_of_key_eq _ hmem hx (hkey.trans hid.symm)
      · exact (integrity_beforeDeletion _ _ _ h).entries e' hmem x hx
          (hsame.1.trans hfeed.symm) (hsame.2.trans huid.symm)
    · left
      refine ⟨x, ?_, hid, hfeed, huid, hviewed⟩
      exact KeyedTable.mem_deleteWhere.mpr ⟨hx, by simpa using hold⟩
  otherFeeds := by
    intro f hurl
    rw [refresh_feed config hdoc, updateFeed, mem_cacheUpdateFeed h.feeds (feedData_url _ _)]
    constructor
    · rintro (rfl | ⟨hf, -⟩)
      · exact absurd rfl hurl
      · exact hf
    · intro hf
      exact Or.inr ⟨hf, hurl⟩
  otherEntries := by
    intro f hf hurl e hfeed
    apply mem_refresh_of_other config h hdoc
    rw [hfeed]
    exact feedID_ne_updateFeed_snd _ _ h.feeds hf hurl

theorem refreshKeeps (config : Config) {db : Db} (h : Integrity db) (r : Refresh) :
    RefreshKeeps r.url db (xmlprocUpdateCache config r db).1 := by
  cases hdoc : r.doc with
  | none =>
      rw [xmlprocUpdateCache_of_no_root config hdoc]
      exact refreshKeeps_refl _ _
  | some children => exact refreshKeeps_of_root h hdoc

/-- The entries of `db` that `db'` has have kept their ids. -/
def KeepsIds (db db' : Db) : Prop :=
  ∀ e ∈ db.entry.rows, ∀ x ∈ db'.entry.rows, x.feedID = e.feedID →
    x.uniqueId = e.uniqueId → x.entryID = e.entryID

theorem keepsIds_refresh (config : Config) {db : Db} (h : Integrity db) (r : Refresh) :
    KeepsIds db (xmlprocUpdateCache config r db).1 := by
  have hkeeps := refreshKeeps config h r
  intro e he x hx hfeed huid
  obtain ⟨f, hf, hid⟩ := h.owned e he
  by_cases hurl : f.url = some r.url
  · rcases hkeeps.entries f hf hurl e he hid.symm with ⟨e', he', hid', hfeed', huid', -⟩ | hgone
    · rw [(integrity_refresh h r).entries x hx e' he' (hfeed.trans hfeed'.symm)
        (huid.trans huid'.symm), hid']
    · exact absurd ⟨hfeed, huid⟩ (hgone x hx).2
  · have hold := (hkeeps.otherEntries f hf hurl x (hfeed.trans hid.symm)).mp hx
    rw [h.entries x hold e he hfeed huid]

/-- Over every run from the empty schema URLs identify feeds and unique ids
identify the entries of a feed, and a refresh of one URL keeps ids and read
marks there and touches no row of another URL. -/
theorem run_keeps_identity (config : Config) (ops : List Op) :
    Integrity (run config ops) ∧
      ∀ r : Refresh, RefreshKeeps r.url (run config ops)
        (run config (ops ++ [.refresh r])) := by
  have h := integrity_run config ops
  refine ⟨h, fun r => ?_⟩
  rw [run_concat]
  exact refreshKeeps config h r

end Cache
end Newsbaoter
