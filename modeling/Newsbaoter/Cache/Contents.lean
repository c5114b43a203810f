import Newsbaoter.Cache.Unread
import Mathlib.Logic.Function.Basic

/-!
# What the cache holds, whatever its ids are

A feed is known by its URL and an entry by its feed and its unique id; the row
ids are the business of SQLite.  `contents` forgets them, and sees the unique
ids through an injection, so that random ones can be told by where they come
from.  A refresh rewrites the contents at its URL and nowhere else.
-/

open Newsbaoter.Support

namespace Newsbaoter
namespace Cache

variable {κ : Type*}

/-! ## Rows without their ids -/

/-- The columns of a feed row but for its id. -/
def Feed.body (f : Feed) : Feed :=
  { f with feedID := 0 }

/-- The columns of an entry row but for its ids; a title may be a unique id. -/
structure Body (κ : Type*) where
  viewed : ℤ
  pubDate : ℤ
  modDate : ℤ
  title : Option κ
  url : Option CStr
  authorName : Option CStr
  authorEmail : Option CStr
  description : Option CStr
  content : Option CStr
  current : ℤ

def Entry.body (decode : CStr → κ) (e : Entry) : Body κ where
  viewed := e.viewed
  pubDate := e.pubDate
  modDate := e.modDate
  title := e.title.map decode
  url := e.url
  authorName := e.authorName
  authorEmail := e.authorEmail
  description := e.description
  content := e.content
  current := e.current

/-- The entries of one feed by their unique ids. -/
abbrev Entries (κ : Type*) := Option κ → Option (Body κ)

/-- Feeds by their URLs. -/
abbrev Store (κ : Type*) := Option CStr → Option (Feed × Entries κ)

def Store.entries (A : Store κ) (url : CStr) : Entries κ :=
  match A (some url) with
  | none => fun _ => none
  | some feed => feed.2

/-! ## Finding rows -/

def feedAt (db : Db) (url : Option CStr) : Option Feed :=
  db.feed.rows.find? fun f => f.url == url

open Classical in
noncomputable def entryAt (decode : CStr → κ) (db : Db) (feedid : ℤ) (key : Option κ) :
    Option Entry :=
  db.entry.rows.find? fun e => e.feedID = feedid ∧ e.uniqueId.map decode = key

noncomputable def entries (decode : CStr → κ) (db : Db) (feedid : ℤ) : Entries κ :=
  fun key => (entryAt decode db feedid key).map (Entry.body decode)

noncomputable def contents (decode : CStr → κ) (db : Db) : Store κ :=
  fun url => (feedAt db url).map fun f => (f.body, entries decode db f.feedID)

theorem feedAt_eq_some_iff
    {db : Db} (h : UniqueFeeds db) {url : Option CStr} {f : Feed} :
    feedAt db url = some f ↔ f ∈ db.feed.rows ∧ f.url = url := by
  constructor
  · intro hfind
    exact ⟨List.mem_of_find?_eq_some hfind, by simpa using List.find?_some hfind⟩
  · rintro ⟨hf, hurl⟩
    cases hfind : feedAt db url with
    | none =>
        rw [feedAt, List.find?_eq_none] at hfind
        exact absurd (beq_iff_eq.mpr hurl) (hfind f hf)
    | some g =>
        have hg : g.url = url := by simpa using List.find?_some hfind
        rw [h g (List.mem_of_find?_eq_some hfind) f hf (hg.trans hurl.symm)]

theorem entryAt_eq_some_iff
    {decode : CStr → κ} (hdecode : Function.Injective decode) {db : Db}
    (h : UniqueEntries db) {feedid : ℤ} {key : Option κ} {e : Entry} :
    entryAt decode db feedid key = some e ↔
      e ∈ db.entry.rows ∧ e.feedID = feedid ∧ e.uniqueId.map decode = key := by
  classical
  constructor
  · intro hfind
    have hmatch : e.feedID = feedid ∧ e.uniqueId.map decode = key := by
      simpa using List.find?_some hfind
    exact ⟨List.mem_of_find?_eq_some hfind, hmatch⟩
  · rintro ⟨he, hfeed, hkey⟩
    cases hfind : entryAt decode db feedid key with
    | none =>
        rw [entryAt, List.find?_eq_none] at hfind
        exact absurd (decide_eq_true ⟨hfeed, hkey⟩) (hfind e he)
    | some x =>
        have hmatch : x.feedID = feedid ∧ x.uniqueId.map decode = key := by
          simpa using List.find?_some hfind
        have huid : x.uniqueId = e.uniqueId :=
          Option.map_injective hdecode (hmatch.2.trans hkey.symm)
        rw [h x (List.mem_of_find?_eq_some hfind) e he (hmatch.1.trans hfeed.symm) huid]

/-- Two databases have the same row for a key if they have the same rows that
fit it. -/
theorem entryAt_congr
    {decode : CStr → κ} (hdecode : Function.Injective decode) {db db' : Db}
    (h : UniqueEntries db) (h' : UniqueEntries db') {feedid : ℤ} {key : Option κ}
    (hrows : ∀ e, e.feedID = feedid → e.uniqueId.map decode = key →
      (e ∈ db'.entry.rows ↔ e ∈ db.entry.rows)) :
    entryAt decode db' feedid key = entryAt decode db feedid key := by
  ext e
  rw [entryAt_eq_some_iff hdecode h, entryAt_eq_some_iff hdecode h']
  exact ⟨fun ⟨he, hf, hk⟩ => ⟨(hrows e hf hk).mp he, hf, hk⟩,
    fun ⟨he, hf, hk⟩ => ⟨(hrows e hf hk).mpr he, hf, hk⟩⟩

theorem entryAt_eq_entryOf
    {decode : CStr → κ} (hdecode : Function.Injective decode) {db : Db}
    (h : UniqueEntries db) (feedid : ℤ) (s : CStr) :
    entryAt decode db feedid (some (decode s)) = entryOf db feedid (some s) := by
  ext e
  rw [entryAt_eq_some_iff hdecode h]
  constructor
  · rintro ⟨he, rfl, hkey⟩
    have huid : e.uniqueId = some s := Option.map_injective hdecode hkey
    exact entryOf_of_mem h he huid
  · intro hfind
    obtain ⟨he, hfeed, huid⟩ := entryOf_eq_some hfind
    exact ⟨he, hfeed, by rw [huid]; rfl⟩

/-! ## The statements on one feed -/

/-- What a document says about one entry: its key, and the columns of a new row
for it. -/
abbrev Record (κ : Type*) := Option κ × Body κ

def record (decode : CStr → κ) (data : EntryField → Option CStr) : Record κ :=
  ((data .uid).map decode,
    { viewed := 0
      pubDate := bindDate (data .pdate)
      modDate := bindDate (data .udate)
      title := (data .title).map decode
      url := data .url
      authorName := data .authName
      authorEmail := data .authEmail
      description := data .desc
      content := data .content
      current := 1 })

/-- A row written over another keeps its read mark. -/
def Body.over (b : Body κ) (old : Option (Body κ)) : Body κ :=
  { b with viewed := (old.map Body.viewed).getD 0 }

def Entries.upsert [DecidableEq κ] (E : Entries κ) (r : Record κ) : Entries κ :=
  Function.update E r.1 (some (r.2.over (E r.1)))

def Entries.upserts [DecidableEq κ] (E : Entries κ) (rs : List (Record κ)) : Entries κ :=
  rs.foldl Entries.upsert E

def Body.countedDown (b : Body κ) : Body κ :=
  { b with current := b.current - 1 }

def Entries.countDown (E : Entries κ) : Entries κ :=
  fun key => (E key).map Body.countedDown

def Body.isOld (entryRetention now : ℤ) (b : Body κ) : Bool :=
  b.current ≤ -cyclesUntilDelete && 0 < b.viewed && b.pubDate < cutoff entryRetention now

def Entries.expire (entryRetention now : ℤ) (E : Entries κ) : Entries κ :=
  fun key => (E key).filter fun b => !b.isOld entryRetention now

section Statements

variable {decode : CStr → κ} (hdecode : Function.Injective decode) {db : Db}
include hdecode

theorem entryAt_cacheUpdateEntry [DecidableEq κ]
    (h : UniqueEntries db) (feedid : ℤ) {data : EntryField → Option CStr} {s : CStr}
    (hdata : data .uid = some s) :
    entryAt decode (cacheUpdateEntry feedid data db) feedid =
      Function.update (entryAt decode db feedid) (some (decode s))
        (some (entryRow db feedid data)) := by
  have h' := uniqueEntries_cacheUpdateEntry h feedid hdata
  funext key
  by_cases hkey : key = some (decode s)
  · rw [hkey, Function.update_self, entryAt_eq_some_iff hdecode h']
    refine ⟨(mem_cacheUpdateEntry h hdata).mpr (Or.inl rfl), rfl, ?_⟩
    rw [entryRow_uniqueId, hdata]
    rfl
  · rw [Function.update_of_ne hkey]
    apply entryAt_congr hdecode h h'
    intro e hfeed hek
    have hne : e.uniqueId ≠ some s := by
      intro huid
      rw [huid] at hek
      exact hkey hek.symm
    rw [mem_cacheUpdateEntry h hdata]
    constructor
    · rintro (rfl | ⟨he, -⟩)
      · exact absurd hdata hne
      · exact he
    · intro he
      exact Or.inr ⟨he, fun hboth => hne hboth.2⟩

theorem entries_cacheUpdateEntry [DecidableEq κ]
    (h : UniqueEntries db) (feedid : ℤ) {data : EntryField → Option CStr} {s : CStr}
    (hdata : data .uid = some s) :
    entries decode (cacheUpdateEntry feedid data db) feedid =
      (entries decode db feedid).upsert (record decode data) := by
  have hkey : (record decode data).1 = some (decode s) := by
    rw [record, hdata]
    rfl
  have hbody : (entryRow db feedid data).body decode =
      (record decode data).2.over (entries decode db feedid (some (decode s))) := by
    rw [entries, entryAt_eq_entryOf hdecode h, Body.over, Option.map_map]
    simp only [Entry.body, entryRow, record, hdata]
    rfl
  funext key
  rw [entries, entryAt_cacheUpdateEntry hdecode h feedid hdata, Entries.upsert, hkey]
  by_cases heq : key = some (decode s)
  · rw [heq, Function.update_self, Function.update_self, Option.map_some, hbody]
  · rw [Function.update_of_ne heq, Function.update_of_ne heq, entries]

theorem entries_walk [DecidableEq κ]
    (feedid : ℤ) {ds : List (EntryField → Option CStr)} (hids : Identified ds)
    (h : UniqueEntries db) :
    entries decode (walk feedid ds db) feedid =
      (entries decode db feedid).upserts (ds.map (record decode)) := by
  induction ds generalizing db with
  | nil => rfl
  | cons d ds ih =>
      obtain ⟨⟨s, hs⟩, htail⟩ := hids.of_cons
      rw [walk_cons, ih htail (uniqueEntries_cacheUpdateEntry h feedid hs),
        entries_cacheUpdateEntry hdecode h feedid hs]
      rfl

theorem entryAt_cacheInitCleanup (h : Integrity db) (feedid : ℤ) (key : Option κ) :
    entryAt decode (cacheInitCleanup feedid db) feedid key =
      (entryAt decode db feedid key).map (countedDown feedid) := by
  have h' := (integrity_cacheInitCleanup h feedid).entries
  ext x
  rw [entryAt_eq_some_iff hdecode h', Option.map_eq_some_iff, mem_cacheInitCleanup]
  constructor
  · rintro ⟨⟨e, he, rfl⟩, hfeed, hkey⟩
    rw [countedDown_feedID] at hfeed
    rw [countedDown_uniqueId] at hkey
    exact ⟨e, (entryAt_eq_some_iff hdecode h.entries).mpr ⟨he, hfeed, hkey⟩, rfl⟩
  · rintro ⟨e, hfind, rfl⟩
    obtain ⟨he, hfeed, hkey⟩ := (entryAt_eq_some_iff hdecode h.entries).mp hfind
    exact ⟨⟨e, he, rfl⟩, by rwa [countedDown_feedID], by rwa [countedDown_uniqueId]⟩

theorem entries_cacheInitCleanup (h : Integrity db) (feedid : ℤ) :
    entries decode (cacheInitCleanup feedid db) feedid =
      (entries decode db feedid).countDown := by
  funext key
  rw [entries, entryAt_cacheInitCleanup hdecode h, Entries.countDown, entries,
    Option.map_map, Option.map_map]
  apply Option.map_congr
  intro e hfind
  have hfeed := ((entryAt_eq_some_iff hdecode h.entries).mp hfind).2.1
  rw [Function.comp_apply, countedDown, if_pos hfeed]
  rfl

theorem entryAt_cacheCleanupOld
    (h : Integrity db) (entryRetention now feedid : ℤ) (key : Option κ) :
    entryAt decode (cacheCleanupOld entryRetention now feedid db) feedid key =
      (entryAt decode db feedid key).filter
        fun e => !isOld entryRetention now feedid e := by
  have h' := (integrity_cacheCleanupOld h entryRetention now feedid).entries
  ext x
  rw [entryAt_eq_some_iff hdecode h', Option.filter_eq_some_iff,
    entryAt_eq_some_iff hdecode h.entries, cacheCleanupOld, KeyedTable.mem_deleteWhere,
    Bool.not_eq_true']
  tauto

theorem entries_cacheCleanupOld
    (h : Integrity db) (entryRetention now feedid : ℤ) :
    entries decode (cacheCleanupOld entryRetention now feedid db) feedid =
      (entries decode db feedid).expire entryRetention now := by
  funext key
  rw [entries, entryAt_cacheCleanupOld hdecode h, Entries.expire, entries]
  cases hfind : entryAt decode db feedid key with
  | none => rfl
  | some e =>
      have hfeed := ((entryAt_eq_some_iff hdecode h.entries).mp hfind).2.1
      have hold : isOld entryRetention now feedid e =
          (e.body decode).isOld entryRetention now := by
        rw [isOld, hfeed, beq_self_eq_true, Bool.true_and]
        rfl
      simp only [Option.filter_some, Option.map_some, hold]
      split <;> rfl

end Statements

/-! ## A whole refresh -/

/-- What a document says about its feed. -/
structure Edition (κ : Type*) where
  feed : Feed
  records : List (Record κ)
  now : ℤ

def edition (config : Config) (decode : CStr → κ) (r : Refresh)
    (children : List XmlNode) : Edition κ where
  feed := (feedRow emptyDb (feedData r.url children)).body
  records := (records config.time r.env children).map (record decode)
  now := r.env.now

def Entries.refreshed [DecidableEq κ] (entryRetention : ℤ) (ed : Edition κ)
    (E : Entries κ) : Entries κ :=
  (E.countDown.upserts ed.records).expire entryRetention ed.now

/-- The purpose of a refresh: the feed at its URL is as the document says, and
everything else as it was. -/
def Store.refresh [DecidableEq κ] (entryRetention : ℤ) (url : CStr) (ed : Edition κ)
    (A : Store κ) : Store κ :=
  Function.update A (some url)
    (some (ed.feed, (A.entries url).refreshed entryRetention ed))

section Refresh

variable {config : Config} {decode : CStr → κ} (hdecode : Function.Injective decode)
  {db : Db} {r : Refresh} {children : List XmlNode}

include hdecode

/-- A feed without a row has no entries. -/
theorem entries_of_not_owned
    (h : Integrity db) {feedid : ℤ} (hnone : ∀ f ∈ db.feed.rows, f.feedID ≠ feedid) :
    entries decode db feedid = fun _ => none := by
  funext key
  rw [entries, Option.map_eq_none_iff, Option.eq_none_iff_forall_ne_some]
  intro e hfind
  obtain ⟨he, hfeed, -⟩ := (entryAt_eq_some_iff hdecode h.entries).mp hfind
  obtain ⟨f, hf, hid⟩ := h.owned e he
  exact hnone f hf (hid.trans hfeed)

/-- The entries that `update_feed` leaves to be refreshed. -/
theorem entries_updateFeed (h : Integrity db) (url : CStr) (children : List XmlNode) :
    entries decode (updateFeed url children db).1 (updateFeed url children db).2 =
      (contents decode db).entries url := by
  have hsame : ∀ feedid, entries decode (updateFeed url children db).1 feedid =
      entries decode db feedid := fun _ => rfl
  rw [hsame, Store.entries, contents]
  cases hfind : feedAt db (some url) with
  | none =>
      apply entries_of_not_owned hdecode h
      intro f hf
      apply feedID_ne_updateFeed_snd url children h.feeds hf
      intro hurl
      rw [(feedAt_eq_some_iff h.feeds).mpr ⟨hf, hurl⟩] at hfind
      cases hfind
  | some f =>
      obtain ⟨hf, hurl⟩ := (feedAt_eq_some_iff h.feeds).mp hfind
      rw [updateFeed_snd_of_mem url children h.feeds hf hurl]
      rfl

variable [DecidableEq κ]

/-- The countdown and the upserts, on the entries of the feed. -/
theorem entries_walked
    (h : Integrity db) (url : CStr) (children : List XmlNode)
    {ds : List (EntryField → Option CStr)} (hids : Identified ds) :
    entries decode (walked url children ds db) (updateFeed url children db).2 =
      (entries decode db (updateFeed url children db).2).countDown.upserts
        (ds.map (record decode)) := by
  have hupdated := integrity_updateFeed url children h
  have hinit := integrity_cacheInitCleanup hupdated (updateFeed url children db).2
  rw [walked, entries_walk hdecode _ hids hinit.entries,
    entries_cacheInitCleanup hdecode hupdated]
  rfl

variable (config) in
theorem entries_refresh
    (h : Integrity db) (hdoc : r.doc = some children) :
    entries decode (xmlprocUpdateCache config r db).1 (updateFeed r.url children db).2 =
      (entries decode db (updateFeed r.url children db).2).refreshed config.entryRetention
        (edition config decode r children) := by
  rw [xmlprocUpdateCache_fst config hdoc,
    entries_cacheCleanupOld hdecode (integrity_beforeDeletion config r children h),
    Entries.refreshed]
  exact congrArg (Entries.expire config.entryRetention r.env.now)
    (entries_walked hdecode h r.url children (identified_records _ _ _))

theorem contents_refresh (h : Integrity db) (hdoc : r.doc = some children) :
    contents decode (xmlprocUpdateCache config r db).1 =
      (contents decode db).refresh config.entryRetention r.url
        (edition config decode r children) := by
  have h' : Integrity (xmlprocUpdateCache config r db).1 := integrity_refresh h r
  have hkeeps := refreshKeeps config h r
  have hfeeds : (xmlprocUpdateCache config r db).1.feed =
      (updateFeed r.url children db).1.feed := refresh_feed config hdoc
  funext url
  by_cases hurl : url = some r.url
  · have hrow : feedAt (xmlprocUpdateCache config r db).1 (some r.url) =
        some (feedRow db (feedData r.url children)) := by
      rw [feedAt_eq_some_iff h'.feeds, hfeeds]
      exact ⟨(mem_cacheUpdateFeed h.feeds (feedData_url _ _)).mpr (Or.inl rfl), rfl⟩
    rw [hurl, Store.refresh, Function.update_self, contents, hrow, Option.map_some,
      ← entries_updateFeed hdecode h r.url children]
    exact congrArg some (congrArg _ (entries_refresh config hdecode h hdoc))
  · rw [Store.refresh, Function.update_of_ne hurl]
    have hsame : feedAt (xmlprocUpdateCache config r db).1 url = feedAt db url := by
      ext f
      rw [feedAt_eq_some_iff h.feeds, feedAt_eq_some_iff h'.feeds]
      refine and_congr_left fun hf => ?_
      exact hkeeps.otherFeeds f (hf ▸ hurl)
    rw [contents, contents, hsame]
    apply Option.map_congr
    intro f hf
    obtain ⟨hmem, hfurl⟩ := (feedAt_eq_some_iff h.feeds).mp hf
    have hentries : entries decode (xmlprocUpdateCache config r db).1 f.feedID =
        entries decode db f.feedID := by
      funext key
      rw [entries, entries, entryAt_congr hdecode h.entries h'.entries]
      intro e hfeed _
      exact hkeeps.otherEntries f hmem (hfurl ▸ hurl) e hfeed
    rw [hentries]

/-! ## New entries -/

/-- How many of the upserts add an entry. -/
def Entries.inserted : List (Record κ) → Entries κ → ℕ
  | [], _ => 0
  | r :: rs, E => (if (E r.1).isNone then 1 else 0) + Entries.inserted rs (E.upsert r)

/-- How many entries a document adds to the feed at its URL. -/
def Store.inserted (url : CStr) (ed : Edition κ) (A : Store κ) : ℕ :=
  Entries.inserted ed.records (A.entries url).countDown

theorem inserted_eq_entries
    (h : UniqueEntries db) (feedid : ℤ) {ds : List (EntryField → Option CStr)}
    (hids : Identified ds) :
    inserted feedid ds db =
      Entries.inserted (ds.map (record decode)) (entries decode db feedid) := by
  induction ds generalizing db with
  | nil => rfl
  | cons d ds ih =>
      obtain ⟨⟨s, hs⟩, htail⟩ := hids.of_cons
      have hkey : (record decode d).1 = some (decode s) := by
        rw [record, hs]
        rfl
      have hfirst : (entries decode db feedid (record decode d).1).isNone =
          (entryOf db feedid (d .uid)).isNone := by
        rw [hs, hkey, entries, entryAt_eq_entryOf hdecode h, Option.isNone_map]
      rw [inserted, ih (uniqueEntries_cacheUpdateEntry h feedid hs) htail,
        entries_cacheUpdateEntry hdecode h feedid hs, List.map_cons, Entries.inserted, hfirst]

variable (config) in
/-- The unread count rises by what the document adds to the contents. -/
theorem getNumUnread_contents
    (h : Integrity db) (hdoc : r.doc = some children) :
    getNumUnread (xmlprocUpdateCache config r db).1 =
      getNumUnread db +
        (contents decode db).inserted r.url (edition config decode r children) := by
  have hupdated := integrity_updateFeed r.url children h
  have hinit := integrity_cacheInitCleanup hupdated (updateFeed r.url children db).2
  rw [getNumUnread_refresh config hdoc,
    inserted_eq_entries hdecode hinit.entries _ (identified_records config.time r.env children),
    entries_cacheInitCleanup hdecode hupdated, entries_updateFeed hdecode h, Store.inserted]
  rfl

end Refresh

end Cache
end Newsbaoter
