import Newsbaoter.Cache.Refresh

/-!
# What the statements of a refresh do to the rows

`UniqueFeeds` and `UniqueEntries` are what the two subselects rely on.  Under
them each `INSERT OR REPLACE` is a replacement of the row with the same URL,
respectively the same feed and unique id, and the walk over a document touches
exactly the rows whose ids the document mentions.
-/

open Newsbaoter.Support

namespace Newsbaoter
namespace Cache

/-- No two `Feed` rows have the same URL. -/
def UniqueFeeds (db : Db) : Prop :=
  ∀ f ∈ db.feed.rows, ∀ g ∈ db.feed.rows, f.url = g.url → f = g

/-- No two `Entry` rows have the same feed and unique id. -/
def UniqueEntries (db : Db) : Prop :=
  ∀ e ∈ db.entry.rows, ∀ e' ∈ db.entry.rows,
    e.feedID = e'.feedID → e.uniqueId = e'.uniqueId → e = e'

/-! ## The feed row -/

theorem feedIdOf_eq_some {db : Db} {url : CStr} {id : ℤ}
    (h : feedIdOf db (some url) = some id) :
    ∃ f ∈ db.feed.rows, f.url = some url ∧ f.feedID = id := by
  obtain ⟨f, hfind, rfl⟩ := Option.map_eq_some_iff.mp h
  have hurl := List.find?_some hfind
  exact ⟨f, List.mem_of_find?_eq_some hfind, sqlEq_some.mp hurl, rfl⟩

theorem feedIdOf_eq_none {db : Db} {url : CStr}
    (h : feedIdOf db (some url) = none) :
    ∀ f ∈ db.feed.rows, f.url ≠ some url := by
  intro f hf hurl
  rw [feedIdOf, Option.map_eq_none_iff, List.find?_eq_none] at h
  exact h f hf (sqlEq_some.mpr hurl)

theorem feedIdOf_of_mem {db : Db} (hunique : UniqueFeeds db) {f : Feed}
    {url : CStr} (hf : f ∈ db.feed.rows) (hurl : f.url = some url) :
    feedIdOf db (some url) = some f.feedID := by
  cases h : feedIdOf db (some url) with
  | none => exact absurd hurl (feedIdOf_eq_none h f hf)
  | some id =>
      obtain ⟨g, hg, hgurl, rfl⟩ := feedIdOf_eq_some h
      rw [hunique f hf g hg (hurl.trans hgurl.symm)]

theorem feedRow_feedID_of_mem {db : Db} (hunique : UniqueFeeds db) {f : Feed}
    {url : CStr} {data : FeedField → Option CStr} (hdata : data .url = some url)
    (hf : f ∈ db.feed.rows) (hurl : f.url = some url) :
    (feedRow db data).feedID = f.feedID := by
  simp [feedRow, hdata, feedIdOf_of_mem hunique hf hurl]

/-- The upsert replaces the row with the same URL and keeps every other. -/
theorem mem_cacheUpdateFeed {db : Db} (hunique : UniqueFeeds db) {url : CStr}
    {data : FeedField → Option CStr} (hdata : data .url = some url) {x : Feed} :
    x ∈ (cacheUpdateFeed data db).1.feed.rows ↔
      x = feedRow db data ∨ (x ∈ db.feed.rows ∧ x.url ≠ some url) := by
  simp only [cacheUpdateFeed, KeyedTable.mem_insertOrReplace]
  refine or_congr_right (and_congr_right fun hx => not_congr ?_)
  constructor
  · intro hkey
    cases h : feedIdOf db (some url) with
    | none =>
        have hfresh : (feedRow db data).feedID = db.feed.freshKey := by
          simp [feedRow, hdata, h]
        exact absurd (hkey.trans hfresh) (KeyedTable.freshKey_ne hx)
    | some id =>
        obtain ⟨f, hf, hurl, rfl⟩ := feedIdOf_eq_some h
        have hid : (feedRow db data).feedID = f.feedID :=
          feedRow_feedID_of_mem hunique hdata hf hurl
        rw [db.feed.eq_of_key_eq hx hf (hkey.trans hid)]
        exact hurl
  · intro hurl
    exact (feedRow_feedID_of_mem hunique hdata hx hurl).symm

theorem uniqueFeeds_cacheUpdateFeed {db : Db} (hunique : UniqueFeeds db)
    {url : CStr} {data : FeedField → Option CStr}
    (hdata : data .url = some url) :
    UniqueFeeds (cacheUpdateFeed data db).1 := by
  have hrow : (feedRow db data).url = some url := hdata
  intro f hf g hg hurl
  rcases (mem_cacheUpdateFeed hunique hdata).mp hf with rfl | ⟨hf, hfurl⟩
  · rcases (mem_cacheUpdateFeed hunique hdata).mp hg with rfl | ⟨hg, hgurl⟩
    · rfl
    · exact absurd (hurl.symm.trans hrow) hgurl
  · rcases (mem_cacheUpdateFeed hunique hdata).mp hg with rfl | ⟨hg, hgurl⟩
    · exact absurd (hurl.trans hrow) hfurl
    · exact hunique f hf g hg hurl

/-! ## One entry row -/

theorem entryOf_eq_some {db : Db} {feedid : ℤ} {s : CStr} {e : Entry}
    (h : entryOf db feedid (some s) = some e) :
    e ∈ db.entry.rows ∧ e.feedID = feedid ∧ e.uniqueId = some s := by
  have hmatch := List.find?_some h
  simp only [Bool.and_eq_true, beq_iff_eq, sqlEq_some] at hmatch
  exact ⟨List.mem_of_find?_eq_some h, hmatch⟩

theorem entryOf_eq_none {db : Db} {feedid : ℤ} {s : CStr}
    (h : entryOf db feedid (some s) = none) :
    ∀ e ∈ db.entry.rows, e.feedID = feedid → e.uniqueId ≠ some s := by
  intro e he hfeed huid
  rw [entryOf, List.find?_eq_none] at h
  exact h e he (by simp [hfeed, huid])

theorem entryOf_of_mem {db : Db} (hunique : UniqueEntries db) {e : Entry}
    {s : CStr} (he : e ∈ db.entry.rows) (huid : e.uniqueId = some s) :
    entryOf db e.feedID (some s) = some e := by
  cases h : entryOf db e.feedID (some s) with
  | none => exact absurd huid (entryOf_eq_none h e he rfl)
  | some e' =>
      obtain ⟨he', hfeed, huid'⟩ := entryOf_eq_some h
      rw [hunique e he e' he' hfeed.symm (huid.trans huid'.symm)]

@[simp] theorem entryRow_feedID (db : Db) (feedid : ℤ)
    (data : EntryField → Option CStr) :
    (entryRow db feedid data).feedID = feedid := rfl

@[simp] theorem entryRow_uniqueId (db : Db) (feedid : ℤ)
    (data : EntryField → Option CStr) :
    (entryRow db feedid data).uniqueId = data .uid := rfl

/-- A row written over an existing one keeps its id and its read mark. -/
theorem entryRow_of_mem {db : Db} (hunique : UniqueEntries db) {e : Entry}
    {data : EntryField → Option CStr} {s : CStr} (hdata : data .uid = some s)
    (he : e ∈ db.entry.rows) (huid : e.uniqueId = some s) :
    (entryRow db e.feedID data).entryID = e.entryID ∧
      (entryRow db e.feedID data).viewed = e.viewed := by
  simp [entryRow, hdata, entryOf_of_mem hunique he huid]

/-- A row written for an id the feed did not have is unread, under a key that
no row uses. -/
theorem entryRow_of_new {db : Db} {feedid : ℤ}
    {data : EntryField → Option CStr} {s : CStr} (hdata : data .uid = some s)
    (hnew : entryOf db feedid (some s) = none) :
    (entryRow db feedid data).entryID = db.entry.freshKey ∧
      (entryRow db feedid data).viewed = 0 := by
  simp [entryRow, hdata, hnew]

/-- The upsert replaces the row with the same feed and unique id and keeps
every other. -/
theorem mem_cacheUpdateEntry {db : Db} (hunique : UniqueEntries db)
    {feedid : ℤ} {s : CStr} {data : EntryField → Option CStr}
    (hdata : data .uid = some s) {x : Entry} :
    x ∈ (cacheUpdateEntry feedid data db).entry.rows ↔
      x = entryRow db feedid data ∨
        (x ∈ db.entry.rows ∧ ¬(x.feedID = feedid ∧ x.uniqueId = some s)) := by
  simp only [cacheUpdateEntry, KeyedTable.mem_insertOrReplace]
  refine or_congr_right (and_congr_right fun hx => not_congr ?_)
  constructor
  · intro hkey
    cases h : entryOf db feedid (some s) with
    | none =>
        have hfresh := (entryRow_of_new hdata h).1
        exact absurd (hkey.trans hfresh) (KeyedTable.freshKey_ne hx)
    | some e =>
        obtain ⟨he, rfl, huid⟩ := entryOf_eq_some h
        have hid := (entryRow_of_mem hunique hdata he huid).1
        rw [db.entry.eq_of_key_eq hx he (hkey.trans hid)]
        exact ⟨rfl, huid⟩
  · rintro ⟨rfl, huid⟩
    exact (entryRow_of_mem hunique hdata hx huid).1.symm

theorem uniqueEntries_cacheUpdateEntry {db : Db} (hunique : UniqueEntries db)
    (feedid : ℤ) {s : CStr} {data : EntryField → Option CStr}
    (hdata : data .uid = some s) :
    UniqueEntries (cacheUpdateEntry feedid data db) := by
  intro e he e' he' hfeed huid
  rcases (mem_cacheUpdateEntry hunique hdata).mp he with rfl | ⟨he, hne⟩
  · rcases (mem_cacheUpdateEntry hunique hdata).mp he' with rfl | ⟨he', hne'⟩
    · rfl
    · exact absurd ⟨hfeed.symm, huid.symm.trans hdata⟩ hne'
  · rcases (mem_cacheUpdateEntry hunique hdata).mp he' with rfl | ⟨he', hne'⟩
    · exact absurd ⟨hfeed, huid.trans hdata⟩ hne
    · exact hunique e he e' he' hfeed huid

/-! ## The walk over a document -/

/-- The arrays `update_entries` hands to `cache_update_entry`, in order. -/
def records (time : TimeLib) (env : RefreshEnv) (children : List XmlNode) :
    List (EntryField → Option CStr) :=
  (entryNodes children).zipIdx.map fun node =>
    entryData time (env.tp node.2) (env.uid node.2) node.1

/-- The upserts of a list of records, in order. -/
def walk (feedid : ℤ) (ds : List (EntryField → Option CStr)) (db : Db) : Db :=
  ds.foldl (fun db d => cacheUpdateEntry feedid d db) db

@[simp] theorem walk_cons (feedid : ℤ) (d : EntryField → Option CStr)
    (ds : List (EntryField → Option CStr)) (db : Db) :
    walk feedid (d :: ds) db = walk feedid ds (cacheUpdateEntry feedid d db) := rfl

theorem updateEntries_eq (config : Config) (env : RefreshEnv) (feedid : ℤ)
    (children : List XmlNode) (db : Db) :
    updateEntries config env feedid children db =
      cacheCleanupOld config.entryRetention env.now feedid
        (walk feedid (records config.time env children)
          (cacheInitCleanup feedid db)) := by
  simp only [updateEntries, walk, records, List.foldl_map]
  rfl

/-- Every record names a unique id. -/
def Identified (ds : List (EntryField → Option CStr)) : Prop :=
  ∀ d ∈ ds, ∃ s, d .uid = some s

theorem identified_records (time : TimeLib) (env : RefreshEnv)
    (children : List XmlNode) : Identified (records time env children) := by
  intro d hd
  obtain ⟨node, -, rfl⟩ := List.mem_map.mp hd
  exact ⟨_, rfl⟩

/-- Some record names the unique id of `x`. -/
def Mentions (ds : List (EntryField → Option CStr)) (uid : Option CStr) : Prop :=
  ∃ d ∈ ds, d .uid = uid

theorem mentions_cons {d : EntryField → Option CStr}
    {ds : List (EntryField → Option CStr)} {uid : Option CStr} :
    Mentions (d :: ds) uid ↔ d .uid = uid ∨ Mentions ds uid := by
  simp [Mentions]

theorem Identified.of_cons {d : EntryField → Option CStr}
    {ds : List (EntryField → Option CStr)} (h : Identified (d :: ds)) :
    (∃ s, d .uid = some s) ∧ Identified ds :=
  ⟨h d List.mem_cons_self, fun d' hd' => h d' (List.mem_cons_of_mem _ hd')⟩

theorem walk_feed (feedid : ℤ) (ds : List (EntryField → Option CStr)) (db : Db) :
    (walk feedid ds db).feed = db.feed := by
  induction ds generalizing db with
  | nil => rfl
  | cons d ds ih =>
      rw [walk_cons, ih]
      rfl

theorem uniqueEntries_walk {feedid : ℤ} {ds : List (EntryField → Option CStr)}
    (hids : Identified ds) {db : Db} (hunique : UniqueEntries db) :
    UniqueEntries (walk feedid ds db) := by
  induction ds generalizing db with
  | nil => exact hunique
  | cons d ds ih =>
      obtain ⟨⟨s, hs⟩, htail⟩ := hids.of_cons
      exact ih htail (uniqueEntries_cacheUpdateEntry hunique feedid hs)

/-- Rows of other feeds, and rows whose id the records do not mention, are
left as they are and none is added. -/
theorem mem_walk_of_not_mentioned {feedid : ℤ}
    {ds : List (EntryField → Option CStr)} (hids : Identified ds) {db : Db}
    (hunique : UniqueEntries db) {x : Entry}
    (hx : x.feedID = feedid → ¬Mentions ds x.uniqueId) :
    x ∈ (walk feedid ds db).entry.rows ↔ x ∈ db.entry.rows := by
  induction ds generalizing db with
  | nil => rfl
  | cons d ds ih =>
      obtain ⟨⟨s, hs⟩, htail⟩ := hids.of_cons
      have hx' : x.feedID = feedid → d .uid ≠ x.uniqueId ∧ ¬Mentions ds x.uniqueId := by
        intro hfeed
        exact not_or.mp fun h => hx hfeed (mentions_cons.mpr h)
      rw [walk_cons, ih htail (uniqueEntries_cacheUpdateEntry hunique feedid hs)
        fun hfeed => (hx' hfeed).2, mem_cacheUpdateEntry hunique hs]
      constructor
      · rintro (rfl | ⟨hmem, -⟩)
        · exact absurd rfl (hx' rfl).1
        · exact hmem
      · intro hmem
        refine Or.inr ⟨hmem, ?_⟩
        rintro ⟨hfeed, huid⟩
        exact (hx' hfeed).1 (hs.trans huid.symm)

/-- Every mentioned id has a row afterwards. -/
theorem exists_mem_walk_of_mentioned (feedid : ℤ)
    {ds : List (EntryField → Option CStr)} (hids : Identified ds) {db : Db}
    (hunique : UniqueEntries db) {uid : Option CStr} (huid : Mentions ds uid) :
    ∃ x ∈ (walk feedid ds db).entry.rows,
      x.feedID = feedid ∧ x.uniqueId = uid := by
  induction ds generalizing db with
  | nil => simp [Mentions] at huid
  | cons d ds ih =>
      obtain ⟨⟨s, hs⟩, htail⟩ := hids.of_cons
      have hunique' := uniqueEntries_cacheUpdateEntry hunique feedid hs
      by_cases hlater : Mentions ds uid
      · exact ih htail hunique' hlater
      · have hd : d .uid = uid := (mentions_cons.mp huid).resolve_right hlater
        have hrow : entryRow db feedid d ∈
            (cacheUpdateEntry feedid d db).entry.rows :=
          (mem_cacheUpdateEntry hunique hs).mpr (Or.inl rfl)
        refine ⟨entryRow db feedid d, ?_, rfl, hd⟩
        rw [walk_cons, mem_walk_of_not_mentioned htail hunique']
        · exact hrow
        · intro _
          rw [entryRow_uniqueId, hd]
          exact hlater

/-- What a row mentioned by the records keeps: `Current` is back at `1`, id and
read mark are those of the row it replaces, and a new row is unread. -/
structure Rewritten (db : Db) (x : Entry) : Prop where
  current : x.current = 1
  kept : ∀ e ∈ db.entry.rows, e.feedID = x.feedID → e.uniqueId = x.uniqueId →
    x.entryID = e.entryID ∧ x.viewed = e.viewed
  unread : (∀ e ∈ db.entry.rows, e.feedID = x.feedID → e.uniqueId ≠ x.uniqueId) →
    x.viewed = 0

theorem rewritten_entryRow {db : Db} (hunique : UniqueEntries db) (feedid : ℤ)
    {data : EntryField → Option CStr} {s : CStr} (hdata : data .uid = some s) :
    Rewritten db (entryRow db feedid data) where
  current := rfl
  kept := by
    rintro e he hfeed huid
    rw [entryRow_feedID] at hfeed
    subst hfeed
    exact entryRow_of_mem hunique hdata he (huid.trans hdata)
  unread := by
    intro hnone
    have hnew : entryOf db feedid (some s) = none := by
      cases h : entryOf db feedid (some s) with
      | none => rfl
      | some e =>
          obtain ⟨he, hfeed, huid⟩ := entryOf_eq_some h
          exact absurd (huid.trans hdata.symm) (hnone e he hfeed)
    exact (entryRow_of_new hdata hnew).2

/-- A row that is rewritten after an upsert of the same feed is rewritten after
what was there before: the row of the upsert is the one that it finds, or the
upsert is for another id. -/
theorem Rewritten.before_upsert {db : Db} (hunique : UniqueEntries db) {feedid : ℤ}
    {d : EntryField → Option CStr} {s : CStr} (hs : d .uid = some s) {x : Entry}
    (hfeed : x.feedID = feedid) (h : Rewritten (cacheUpdateEntry feedid d db) x) :
    Rewritten db x := by
  have hfirst := rewritten_entryRow hunique feedid hs
  have hstep : ∀ y, y ∈ (cacheUpdateEntry feedid d db).entry.rows ↔
      y = entryRow db feedid d ∨
        (y ∈ db.entry.rows ∧ ¬(y.feedID = feedid ∧ y.uniqueId = some s)) :=
    fun _ => mem_cacheUpdateEntry hunique hs
  refine ⟨h.current, ?_, ?_⟩
  · intro e he hef heu
    by_cases hd : d .uid = x.uniqueId
    · obtain ⟨hid, hviewed⟩ := h.kept _ ((hstep _).mpr (Or.inl rfl)) hfeed.symm hd
      obtain ⟨hid', hviewed'⟩ := hfirst.kept e he (hef.trans hfeed) (heu.trans hd.symm)
      exact ⟨hid.trans hid', hviewed.trans hviewed'⟩
    · refine h.kept e ((hstep e).mpr (Or.inr ⟨he, ?_⟩)) hef heu
      rintro ⟨-, hes⟩
      exact hd (hs.trans (hes.symm.trans heu))
  · intro hnone
    by_cases hd : d .uid = x.uniqueId
    · obtain ⟨-, hviewed⟩ := h.kept _ ((hstep _).mpr (Or.inl rfl)) hfeed.symm hd
      rw [hviewed]
      refine hfirst.unread fun e he hef heu => ?_
      exact hnone e he (hef.trans hfeed.symm) (heu.trans hd)
    · refine h.unread fun e he hef heu => ?_
      rcases (hstep e).mp he with rfl | ⟨he, -⟩
      · exact hd heu
      · exact hnone e he hef heu

theorem rewritten_of_mem_walk {feedid : ℤ}
    {ds : List (EntryField → Option CStr)} (hids : Identified ds) {db : Db}
    (hunique : UniqueEntries db) {x : Entry}
    (hmem : x ∈ (walk feedid ds db).entry.rows) (hfeed : x.feedID = feedid)
    (huid : Mentions ds x.uniqueId) : Rewritten db x := by
  induction ds generalizing db with
  | nil => simp [Mentions] at huid
  | cons d ds ih =>
      obtain ⟨⟨s, hs⟩, htail⟩ := hids.of_cons
      have hunique' := uniqueEntries_cacheUpdateEntry hunique feedid hs
      rw [walk_cons] at hmem
      by_cases hlater : Mentions ds x.uniqueId
      · exact (ih htail hunique' hmem hlater).before_upsert hunique hs hfeed
      · have hd : d .uid = x.uniqueId :=
          (mentions_cons.mp huid).resolve_right hlater
        rw [mem_walk_of_not_mentioned htail hunique' fun _ => hlater,
          mem_cacheUpdateEntry hunique hs] at hmem
        rcases hmem with rfl | ⟨-, hne⟩
        · exact rewritten_entryRow hunique feedid hs
        · exact absurd ⟨hfeed, hd.symm.trans hs⟩ hne

end Cache
end Newsbaoter
