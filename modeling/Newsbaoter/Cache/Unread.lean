import Newsbaoter.Cache.Integrity

/-!
# The unread count across a refresh

Only an upsert for an id the feed does not have yet adds an unread row, and no
statement of a refresh removes one: the count that `xmlproc_update_cache`
compares rises by the number of inserted rows.
-/

open Newsbaoter.Support

namespace Newsbaoter
namespace Cache

/-- Some row of the feed has this unique id. -/
def HasEntry (db : Db) (feedid : ℤ) (uid : Option CStr) : Prop :=
  ∃ e ∈ db.entry.rows, e.feedID = feedid ∧ e.uniqueId = uid

theorem hasEntry_cacheInitCleanup {db : Db} {feedid : ℤ} {uid : Option CStr} :
    HasEntry (cacheInitCleanup feedid db) feedid uid ↔ HasEntry db feedid uid := by
  constructor
  · rintro ⟨x, hx, hfeed, huid⟩
    obtain ⟨e, he, rfl⟩ := mem_cacheInitCleanup.mp hx
    exact ⟨e, he, by simpa using hfeed, by simpa using huid⟩
  · rintro ⟨e, he, hfeed, huid⟩
    exact ⟨countedDown feedid e, mem_cacheInitCleanup.mpr ⟨e, he, rfl⟩,
      by simpa using hfeed, by simpa using huid⟩

/-- How many of the upserts of a walk insert a row. -/
def inserted (feedid : ℤ) : List (EntryField → Option CStr) → Db → ℕ
  | [], _ => 0
  | d :: ds, db =>
      (if (entryOf db feedid (d .uid)).isNone then 1 else 0) +
        inserted feedid ds (cacheUpdateEntry feedid d db)

theorem entryOf_isNone_iff {db : Db} {feedid : ℤ} {s : CStr} :
    (entryOf db feedid (some s)).isNone = true ↔
      ¬HasEntry db feedid (some s) := by
  cases h : entryOf db feedid (some s) with
  | none =>
      have habsent := entryOf_eq_none h
      simp only [Option.isNone_none, true_iff]
      rintro ⟨e, he, hfeed, huid⟩
      exact habsent e he hfeed huid
  | some e =>
      have hfound := entryOf_eq_some h
      simp only [Option.isNone_some, Bool.false_eq_true, false_iff, not_not]
      exact ⟨e, hfound⟩

theorem hasEntry_cacheUpdateEntry {db : Db} (hunique : UniqueEntries db)
    (feedid : ℤ) {d : EntryField → Option CStr} {s : CStr}
    (hs : d .uid = some s) {uid : Option CStr} :
    HasEntry (cacheUpdateEntry feedid d db) feedid uid ↔
      d .uid = uid ∨ HasEntry db feedid uid := by
  constructor
  · rintro ⟨e, he, hfeed, huid⟩
    rcases (mem_cacheUpdateEntry hunique hs).mp he with rfl | ⟨he, -⟩
    · exact Or.inl huid
    · exact Or.inr ⟨e, he, hfeed, huid⟩
  · intro h
    by_cases huid : d .uid = uid
    · exact ⟨_, (mem_cacheUpdateEntry hunique hs).mpr (Or.inl rfl), rfl, huid⟩
    · obtain ⟨e, he, hfeed, heu⟩ := h.resolve_left huid
      refine ⟨e, (mem_cacheUpdateEntry hunique hs).mpr (Or.inr ⟨he, ?_⟩), hfeed, heu⟩
      rintro ⟨-, hes⟩
      exact huid (hs.trans (hes.symm.trans heu))

theorem getNumUnread_cacheUpdateEntry (feedid : ℤ)
    {d : EntryField → Option CStr} {s : CStr} (hs : d .uid = some s) (db : Db) :
    getNumUnread (cacheUpdateEntry feedid d db) =
      getNumUnread db +
        if (entryOf db feedid (d .uid)).isNone then 1 else 0 := by
  rw [hs]
  cases h : entryOf db feedid (some s) with
  | none =>
      obtain ⟨hid, hviewed⟩ := entryRow_of_new hs h
      have hcount := KeyedTable.countP_insertOrReplace_of_fresh db.entry
        (fun e => e.viewed == 0) (r := entryRow db feedid d)
        fun x hx => by rw [hid]; exact KeyedTable.freshKey_ne hx
      rw [hviewed] at hcount
      exact hcount
  | some e =>
      have he := (entryOf_eq_some h).1
      have hrow : (entryRow db feedid d).entryID = e.entryID ∧
          (entryRow db feedid d).viewed = e.viewed := by
        simp [entryRow, hs, h]
      have hcount := KeyedTable.countP_insertOrReplace_of_mem db.entry
        (fun e => e.viewed == 0) he hrow.1.symm
      rw [hrow.2] at hcount
      exact Nat.add_right_cancel hcount

theorem getNumUnread_walk (feedid : ℤ) {ds : List (EntryField → Option CStr)}
    (hids : Identified ds) (db : Db) :
    getNumUnread (walk feedid ds db) =
      getNumUnread db + inserted feedid ds db := by
  induction ds generalizing db with
  | nil => rfl
  | cons d ds ih =>
      obtain ⟨⟨s, hs⟩, htail⟩ := hids.of_cons
      rw [walk_cons, ih htail, getNumUnread_cacheUpdateEntry feedid hs, inserted]
      omega

theorem getNumUnread_cacheInitCleanup (feedid : ℤ) (db : Db) :
    getNumUnread (cacheInitCleanup feedid db) = getNumUnread db := by
  rw [getNumUnread, cacheInitCleanup, KeyedTable.rows_updateWhere,
    List.countP_map]
  refine List.countP_congr fun e _ => ?_
  simp only [Function.comp_apply]
  split <;> rfl

/-- The deletion takes viewed rows only. -/
theorem getNumUnread_cacheCleanupOld (entryRetention now feedid : ℤ) (db : Db) :
    getNumUnread (cacheCleanupOld entryRetention now feedid db) =
      getNumUnread db := by
  rw [getNumUnread, cacheCleanupOld, KeyedTable.deleteWhere, List.countP_filter]
  refine List.countP_congr fun e _ => ?_
  simp only [isOld, Bool.and_eq_true, beq_iff_eq, Bool.not_eq_true',
    and_iff_left_iff_imp]
  intro hunread
  simp [hunread]

/-- A refresh raises the unread count by the number of rows it inserts. -/
theorem getNumUnread_refresh (config : Config) {r : Refresh}
    {children : List XmlNode} (hdoc : r.doc = some children) (db : Db) :
    getNumUnread (xmlprocUpdateCache config r db).1 =
      getNumUnread db +
        inserted (updateFeed r.url children db).2
          (records config.time r.env children)
          (cacheInitCleanup (updateFeed r.url children db).2
            (updateFeed r.url children db).1) := by
  rw [xmlprocUpdateCache_fst config hdoc, getNumUnread_cacheCleanupOld,
    beforeDeletion,
    getNumUnread_walk _ (identified_records config.time r.env children),
    getNumUnread_cacheInitCleanup]
  rfl

theorem xmlprocUpdateCache_snd (config : Config) {r : Refresh}
    {children : List XmlNode} (hdoc : r.doc = some children) (db : Db) :
    (xmlprocUpdateCache config r db).2 = true ↔
      toInt (getNumUnread db) < toInt (getNumUnread (xmlprocUpdateCache config r db).1) := by
  simp only [xmlprocUpdateCache, hdoc, decide_eq_true_eq]

/-- A row after a refresh was there before it, or it is for an id of the
document that the feed did not have. -/
theorem origin_of_mem_refresh {config : Config} {db : Db} (h : Integrity db)
    {r : Refresh} {children : List XmlNode} (hdoc : r.doc = some children)
    {x : Entry} (hx : x ∈ (xmlprocUpdateCache config r db).1.entry.rows) :
    (∃ e ∈ db.entry.rows, e.entryID = x.entryID ∧ e.feedID = x.feedID ∧
      e.uniqueId = x.uniqueId) ∨
      (x.feedID = (updateFeed r.url children db).2 ∧
        Mentions (records config.time r.env children) x.uniqueId ∧
        ¬HasEntry db (updateFeed r.url children db).2 x.uniqueId) := by
  have hids := identified_records config.time r.env children
  have hunique := (integrity_cacheInitCleanup
    (integrity_updateFeed r.url children h) (updateFeed r.url children db).2).entries
  rw [xmlprocUpdateCache_fst config hdoc] at hx
  have hwalk := (KeyedTable.mem_deleteWhere.mp hx).1
  by_cases hmention : x.feedID = (updateFeed r.url children db).2 ∧
      Mentions (records config.time r.env children) x.uniqueId
  · obtain ⟨hfeed, huid⟩ := hmention
    by_cases hhas : HasEntry db (updateFeed r.url children db).2 x.uniqueId
    · obtain ⟨e, he, hefeed, heuid⟩ := hhas
      have hkept := (rewritten_of_mem_walk hids hunique hwalk hfeed huid).kept
        (countedDown (updateFeed r.url children db).2 e)
        (mem_cacheInitCleanup.mpr ⟨e, he, rfl⟩)
        (by simp [hefeed, hfeed]) (by simp [heuid])
      rw [countedDown_entryID] at hkept
      exact Or.inl ⟨e, he, hkept.1.symm, hefeed.trans hfeed.symm, heuid⟩
    · exact Or.inr ⟨hfeed, huid, hhas⟩
  · have hkeep := (mem_walk_of_not_mentioned hids hunique
      fun hfeed huid => hmention ⟨hfeed, huid⟩).mp hwalk
    obtain ⟨e, he, rfl⟩ := mem_cacheInitCleanup.mp hkeep
    exact Or.inl ⟨e, he, by simp⟩

theorem inserted_eq_zero_iff
    (feedid : ℤ) {ds : List (EntryField → Option CStr)} (hids : Identified ds) {db : Db}
    (h : UniqueEntries db) :
    inserted feedid ds db = 0 ↔ ∀ d ∈ ds, HasEntry db feedid (d .uid) := by
  induction ds generalizing db with
  | nil => simp [inserted]
  | cons d ds ih =>
      obtain ⟨⟨s, hs⟩, htail⟩ := hids.of_cons
      have hfirst : (if (entryOf db feedid (d .uid)).isNone then 1 else 0) = 0 ↔
          HasEntry db feedid (d .uid) := by
        rw [hs, ite_eq_right_iff, entryOf_isNone_iff]
        simp
      rw [inserted, Nat.add_eq_zero_iff, hfirst,
        ih htail (uniqueEntries_cacheUpdateEntry h feedid hs), List.forall_mem_cons]
      refine and_congr_right fun hhas => forall₂_congr ?_
      intro d' _
      rw [hasEntry_cacheUpdateEntry h feedid hs]
      exact or_iff_right_of_imp fun heq => heq ▸ hhas

/-- If equal ids among the records belong to entries the feed already has, the
walk inserts one row for each record that finds none. -/
theorem inserted_eq_countP (feedid : ℤ) {ds : List (EntryField → Option CStr)}
    (hids : Identified ds) {db : Db} (hunique : UniqueEntries db)
    (hpair : ds.Pairwise fun d d' =>
      d .uid = d' .uid → HasEntry db feedid (d .uid)) :
    inserted feedid ds db =
      ds.countP fun d => (entryOf db feedid (d .uid)).isNone := by
  induction ds generalizing db with
  | nil => rfl
  | cons d ds ih =>
      obtain ⟨⟨s, hs⟩, htail⟩ := hids.of_cons
      obtain ⟨hhead, hpair⟩ := List.pairwise_cons.mp hpair
      have hsame : ∀ d' ∈ ds,
          (HasEntry (cacheUpdateEntry feedid d db) feedid (d' .uid) ↔
            HasEntry db feedid (d' .uid)) := by
        intro d' hd'
        rw [hasEntry_cacheUpdateEntry hunique feedid hs]
        refine or_iff_right_of_imp fun heq => ?_
        rw [← heq]
        exact hhead d' hd' heq
      have hrest : inserted feedid ds (cacheUpdateEntry feedid d db) =
          ds.countP fun d' => (entryOf db feedid (d' .uid)).isNone := by
        rw [ih htail (uniqueEntries_cacheUpdateEntry hunique feedid hs)]
        · refine List.countP_congr fun d' hd' => ?_
          obtain ⟨s', hs'⟩ := htail d' hd'
          have := hsame d' hd'
          rw [hs'] at this ⊢
          rw [entryOf_isNone_iff, entryOf_isNone_iff, this]
        · refine hpair.imp_of_mem fun {d' d''} hd' _ h heq => ?_
          exact (hsame d' hd').mpr (h heq)
      rw [inserted, hrest, List.countP_cons]
      omega

/-- Of new and distinct ids all are inserted. -/
theorem inserted_eq_length
    (feedid : ℤ) {ds : List (EntryField → Option CStr)} (hids : Identified ds) {db : Db}
    (hunique : UniqueEntries db) (hnodup : (ds.map fun d => d .uid).Nodup)
    (hnew : ∀ d ∈ ds, ¬HasEntry db feedid (d .uid)) :
    inserted feedid ds db = ds.length := by
  have hpair : ds.Pairwise fun d d' => d .uid = d' .uid → HasEntry db feedid (d .uid) :=
    (List.pairwise_map.mp hnodup).imp fun hne heq => absurd heq hne
  rw [inserted_eq_countP feedid hids hunique hpair, List.countP_eq_length]
  intro d hd
  obtain ⟨s, hs⟩ := hids d hd
  have hnone := hnew d hd
  rw [hs] at hnone ⊢
  exact entryOf_isNone_iff.mpr hnone

/-- The first document of the first feed is stored as a whole. -/
theorem getNumUnread_first
    (config : Config) {r : Refresh} {children : List XmlNode} (hdoc : r.doc = some children)
    (hnodup : ((records config.time r.env children).map fun d => d .uid).Nodup) :
    getNumUnread (xmlprocUpdateCache config r emptyDb).1 =
      (records config.time r.env children).length := by
  have hinit := integrity_cacheInitCleanup
    (integrity_updateFeed r.url children integrity_emptyDb)
    (updateFeed r.url children emptyDb).2
  have hzero : getNumUnread emptyDb = 0 := rfl
  rw [getNumUnread_refresh config hdoc, hzero, Nat.zero_add,
    inserted_eq_length _ (identified_records config.time r.env children) hinit.entries hnodup]
  rintro d - ⟨e, he, -⟩
  obtain ⟨x, hx, -⟩ := mem_cacheInitCleanup.mp he
  cases hx

end Cache
end Newsbaoter
