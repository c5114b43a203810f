import Newsbaoter.Cache.Repeat

/-!
# How long an entry stays in the cache

`Current` counts down once for every refresh of the feed and returns to `1`
whenever the entry's id is in the document.  `missed` computes the same number
from the operations of the run alone.
-/

open Newsbaoter.Support

namespace Newsbaoter
namespace Cache

instance (ds : List (EntryField → Option CStr)) (uid : Option CStr) :
    Decidable (Mentions ds uid) :=
  inferInstanceAs (Decidable (∃ d ∈ ds, d .uid = uid))

/-- The refreshes of `url` since the last one that had `uid`, after one more
operation. -/
def missedStep (config : Config) (url : CStr) (uid : Option CStr) (m : ℕ) :
    Op → ℕ
  | .refresh r =>
      match r.doc with
      | none => m
      | some children =>
          if r.url = url then
            if Mentions (records config.time r.env children) uid then 0
            else m + 1
          else m
  | _ => m

/-- The number of refreshes of `url` in a run since `uid` last was among the
ids of its document. -/
def missed (config : Config) (url : CStr) (uid : Option CStr)
    (ops : List Op) : ℕ :=
  ops.foldl (missedStep config url uid) 0

@[simp] theorem missed_concat (config : Config) (url : CStr)
    (uid : Option CStr) (ops : List Op) (op : Op) :
    missed config url uid (ops ++ [op]) =
      missedStep config url uid (missed config url uid ops) op := by
  simp [missed]

theorem missedStep_refresh (config : Config) {r : Refresh}
    {children : List XmlNode} (hdoc : r.doc = some children)
    (uid : Option CStr) (m : ℕ) :
    missedStep config r.url uid m (.refresh r) =
      if Mentions (records config.time r.env children) uid then 0
      else m + 1 := by
  simp [missedStep, hdoc]

theorem missedStep_refresh_other (config : Config) {r : Refresh} {url : CStr}
    (hurl : r.url ≠ url) (uid : Option CStr) (m : ℕ) :
    missedStep config url uid m (.refresh r) = m := by
  cases hdoc : r.doc <;> simp [missedStep, hdoc, hurl]

/-- `Current` is `1` minus the number of refreshes of its feed that the entry
has missed. -/
def Aged (config : Config) (ops : List Op) (db : Db) : Prop :=
  ∀ e ∈ db.entry.rows, ∃ f ∈ db.feed.rows, ∃ url, f.feedID = e.feedID ∧
    f.url = some url ∧ e.current = 1 - (missed config url e.uniqueId ops : ℤ)

/-- Marking entries read or unread changes neither `Current` nor the count. -/
theorem aged_updateWhere {config : Config} {ops : List Op} {db : Db}
    (haged : Aged config ops db) {op : Op}
    (hop : ∀ url uid m, missedStep config url uid m op = m)
    (p : Entry → Bool) (f : Entry → ℤ) :
    Aged config (ops ++ [op])
      { db with
        entry := db.entry.updateWhere p (fun e => { e with viewed := f e })
          fun _ => rfl } := by
  intro x hx
  rw [KeyedTable.rows_updateWhere] at hx
  obtain ⟨e, he, rfl⟩ := List.mem_map.mp hx
  obtain ⟨g, hg, url, hid, hurl, hcurrent⟩ := haged e he
  refine ⟨g, hg, url, ?_⟩
  rw [missed_concat, hop]
  split <;> exact ⟨hid, hurl, hcurrent⟩

section Refreshing

variable {config : Config} {ops : List Op} {db : Db} {r : Refresh}
  {children : List XmlNode}

/-- An entry the document does not mention goes into the deletion with its
counter one lower. -/
theorem countedDown_mem_beforeDeletion (h : Integrity db) {e : Entry}
    (he : e ∈ db.entry.rows) (hfeed : e.feedID = (updateFeed r.url children db).2)
    (huid : ¬Mentions (records config.time r.env children) e.uniqueId) :
    { e with current := e.current - 1 } ∈
      (beforeDeletion config r children db).entry.rows := by
  have hcounted : countedDown (updateFeed r.url children db).2 e =
      { e with current := e.current - 1 } := if_pos hfeed
  rw [← hcounted, beforeDeletion,
    mem_walk_of_not_mentioned (identified_records _ _ _)
      (integrity_cacheInitCleanup (integrity_updateFeed _ _ h) _).entries
      fun _ => by rw [countedDown_uniqueId]; exact huid,
    mem_cacheInitCleanup]
  exact ⟨e, he, rfl⟩

theorem aged_beforeDeletion (h : Integrity db) (haged : Aged config ops db)
    (hdoc : r.doc = some children) :
    Aged config (ops ++ [.refresh r]) (beforeDeletion config r children db) := by
  have hids := identified_records config.time r.env children
  have hunique := (integrity_cacheInitCleanup
    (integrity_updateFeed r.url children h) (updateFeed r.url children db).2).entries
  intro x hx
  rw [beforeDeletion_feed]
  by_cases hfeed : x.feedID = (updateFeed r.url children db).2
  · obtain ⟨f, hf, hurl, hid⟩ := exists_feed_updateFeed r.url children h.feeds
    refine ⟨f, hf, r.url, hid.trans hfeed.symm, hurl, ?_⟩
    rw [missed_concat, missedStep_refresh config hdoc]
    split
    next huid =>
      rw [(rewritten_of_mem_walk hids hunique hx hfeed huid).current]
      rfl
    next huid =>
      obtain ⟨e, he, rfl⟩ := mem_cacheInitCleanup.mp
        ((mem_walk_of_not_mentioned hids hunique fun _ => huid).mp hx)
      rw [countedDown_feedID] at hfeed
      rw [countedDown_uniqueId, countedDown, if_pos hfeed]
      obtain ⟨g, hg, url, hgid, hgurl, hcurrent⟩ := haged e he
      have hsame : url = r.url := by
        by_contra hne
        refine feedID_ne_updateFeed_snd r.url children h.feeds hg ?_
          (hgid.trans hfeed)
        rw [hgurl]
        exact fun heq => hne (Option.some.inj heq)
      subst hsame
      simp only [hcurrent]
      omega
  · rw [mem_beforeDeletion_of_other _ _ _ h hfeed] at hx
    obtain ⟨g, hg, url, hid, hurl, hcurrent⟩ := haged x hx
    have hne : r.url ≠ url := by
      rintro rfl
      exact hfeed (hid.symm.trans
        (updateFeed_snd_of_mem r.url children h.feeds hg hurl).symm)
    refine ⟨g, ?_, url, hid, hurl, ?_⟩
    · refine (mem_cacheUpdateFeed h.feeds (feedData_url _ _)).mpr (Or.inr ⟨hg, ?_⟩)
      rw [hurl]
      exact fun heq => hne (Option.some.inj heq).symm
    · rw [missed_concat, missedStep_refresh_other config hne]
      exact hcurrent

end Refreshing

theorem aged_apply {config : Config} {ops : List Op} {db : Db}
    (h : Integrity db) (haged : Aged config ops db) (op : Op) :
    Aged config (ops ++ [op]) (op.apply config db) := by
  cases op with
  | refresh r =>
      show Aged config _ (xmlprocUpdateCache config r db).1
      cases hdoc : r.doc with
      | none =>
          rw [xmlprocUpdateCache_of_no_root config hdoc]
          intro e he
          obtain ⟨f, hf, url, hid, hurl, hcurrent⟩ := haged e he
          refine ⟨f, hf, url, hid, hurl, ?_⟩
          rw [missed_concat, missedStep, hdoc]
          exact hcurrent
      | some children =>
          rw [xmlprocUpdateCache_fst config hdoc]
          intro e he
          exact aged_beforeDeletion h haged hdoc e
            (KeyedTable.mem_deleteWhere.mp he).1
  | toggleRead id v => exact aged_updateWhere haged (fun _ _ _ => rfl) _ _
  | readFeed feedid => exact aged_updateWhere haged (fun _ _ _ => rfl) _ _
  | writeField id => exact aged_updateWhere haged (fun _ _ _ => rfl) _ _

theorem aged_run (config : Config) (ops : List Op) :
    Aged config ops (run config ops) := by
  induction ops using List.reverseRecOn with
  | nil => simp [Aged, emptyDb]
  | append_singleton ops op ih =>
      rw [run_concat]
      exact aged_apply (integrity_run config ops) ih op

/-! ## The deletion -/

/-- No row of `db` has the id of `e`. -/
def Gone (db : Db) (e : Entry) : Prop :=
  ∀ x ∈ db.entry.rows, x.entryID ≠ e.entryID

theorem gone_cacheCleanupOld_iff {db : Db} {entryRetention now feedid : ℤ}
    {x e : Entry} (hx : x ∈ db.entry.rows) (hid : x.entryID = e.entryID) :
    Gone (cacheCleanupOld entryRetention now feedid db) e ↔
      isOld entryRetention now feedid x = true := by
  constructor
  · intro hgone
    by_contra hnew
    refine hgone x (KeyedTable.mem_deleteWhere.mpr ⟨hx, ?_⟩) hid
    simpa using hnew
  · intro hold y hy hyid
    obtain ⟨hmem, hnew⟩ := KeyedTable.mem_deleteWhere.mp hy
    have hsame := KeyedTable.eq_of_key_eq _ hmem hx (hyid.trans hid.symm)
    rw [hsame, hold] at hnew
    exact Bool.noConfusion hnew

/-- When a refresh deletes an entry of its feed. -/
def Expired (config : Config) (ops : List Op) (r : Refresh) (e : Entry) : Prop :=
  cyclesUntilDelete <
      (missed config r.url e.uniqueId (ops ++ [.refresh r]) : ℤ) ∧
    0 < e.viewed ∧ e.pubDate < r.env.now - config.entryRetention

theorem gone_refresh_iff {config : Config} (hretention : 0 ≤ config.entryRetention)
    {ops : List Op} {db : Db} (h : Integrity db) (haged : Aged config ops db)
    {r : Refresh} {children : List XmlNode} (hdoc : r.doc = some children)
    {f : Feed} (hf : f ∈ db.feed.rows) (hurl : f.url = some r.url)
    {e : Entry} (he : e ∈ db.entry.rows) (hfeed : e.feedID = f.feedID) :
    Gone (xmlprocUpdateCache config r db).1 e ↔ Expired config ops r e := by
  have hid : e.feedID = (updateFeed r.url children db).2 :=
    hfeed.trans (updateFeed_snd_of_mem r.url children h.feeds hf hurl).symm
  rw [xmlprocUpdateCache_fst config hdoc, Expired, missed_concat,
    missedStep_refresh config hdoc]
  by_cases huid : Mentions (records config.time r.env children) e.uniqueId
  · obtain ⟨x, hx, hxid, hxfeed, hxuid, -⟩ :=
      exists_successor config r children h he
    have hcurrent : x.current = 1 := (rewritten_of_mem_walk
      (identified_records _ _ _)
      (integrity_cacheInitCleanup (integrity_updateFeed _ _ h) _).entries
      hx (hxfeed.trans hid) (by rw [hxuid]; exact huid)).current
    rw [gone_cacheCleanupOld_iff hx hxid, if_pos huid]
    simp [isOld, hcurrent, cyclesUntilDelete]
  · obtain ⟨g, hg, url, hgid, hgurl, hcurrent⟩ := haged e he
    have hsame : g = f :=
      KeyedTable.eq_of_key_eq _ hg hf (hgid.trans hfeed)
    rw [hsame, hurl] at hgurl
    obtain rfl := Option.some.inj hgurl
    rw [gone_cacheCleanupOld_iff (countedDown_mem_beforeDeletion h he hid huid)
      (e := e) rfl, if_neg huid]
    simp only [isOld, hid, hcurrent, cutoff, if_neg (not_lt.mpr hretention),
      beq_self_eq_true, Bool.true_and, Bool.and_eq_true, decide_eq_true_eq,
      and_assoc]
    refine and_congr_left fun _ => ?_
    simp only [cyclesUntilDelete]
    omega

/-- In every reachable state `Current` is one minus the missed refreshes; a
refresh deletes an entry of its feed exactly when more than
`CYCLES_UNTIL_DELETE` refreshes have missed it, it is viewed and it is older
than the retention time, so never one that is unread, present in the document
or missing from at most two refreshes. -/
theorem entries_expire (config : Config) (hretention : 0 ≤ config.entryRetention)
    (ops : List Op) :
    Aged config ops (run config ops) ∧
      ∀ r : Refresh, r.doc ≠ none →
        ∀ f ∈ (run config ops).feed.rows, f.url = some r.url →
          ∀ e ∈ (run config ops).entry.rows, e.feedID = f.feedID →
            (Gone (run config (ops ++ [.refresh r])) e ↔
              Expired config ops r e) ∧
            (e.viewed = 0 ∨
              missed config r.url e.uniqueId (ops ++ [.refresh r]) ≤ 2 →
              ¬Gone (run config (ops ++ [.refresh r])) e) := by
  have h := integrity_run config ops
  have haged := aged_run config ops
  refine ⟨haged, fun r hroot f hf hurl e he hfeed => ?_⟩
  obtain ⟨children, hdoc⟩ := Option.ne_none_iff_exists'.mp hroot
  have hiff : Gone (run config (ops ++ [.refresh r])) e ↔
      Expired config ops r e := by
    rw [run_concat]
    exact gone_refresh_iff hretention h haged hdoc hf hurl he hfeed
  refine ⟨hiff, fun hkeep hgone => ?_⟩
  obtain ⟨hmissed, hviewed, -⟩ := hiff.mp hgone
  simp only [cyclesUntilDelete] at hmissed
  omega

/-- The same feed without entries. -/
def emptiedRefresh : Refresh where
  url := ascii "http://example/feed"
  doc := some []
  env := ⟨1000000000, fun _ => blankTm, fun _ => []⟩

/-- Two entries that are read, and that two refreshes then miss. -/
def missedTwice : List Op :=
  [.refresh (guidlessRefresh 65), .readFeed 0, .refresh emptiedRefresh, .refresh emptiedRefresh]

/-- The third refresh that misses them deletes both. -/
theorem entries_expire_missed :
    Aged datelessConfig missedTwice (run datelessConfig missedTwice) ∧
      (run datelessConfig missedTwice).entry.rows.length = 2 ∧
      ∀ e ∈ (run datelessConfig missedTwice).entry.rows,
        Gone (run datelessConfig (missedTwice ++ [.refresh emptiedRefresh])) e := by
  obtain ⟨haged, hgone⟩ := entries_expire datelessConfig (by decide) missedTwice
  have hfeed : ∃ f ∈ (run datelessConfig missedTwice).feed.rows,
      f.url = some emptiedRefresh.url ∧ f.feedID = 1 := by
    decide
  have hexpired : ∀ e ∈ (run datelessConfig missedTwice).entry.rows, e.feedID = 1 ∧
      cyclesUntilDelete < (missed datelessConfig emptiedRefresh.url e.uniqueId
        (missedTwice ++ [.refresh emptiedRefresh]) : ℤ) ∧
      0 < e.viewed ∧ e.pubDate < emptiedRefresh.env.now - datelessConfig.entryRetention := by
    decide
  obtain ⟨f, hf, hurl, hid⟩ := hfeed
  refine ⟨haged, by decide, fun e he => ?_⟩
  obtain ⟨hfeedID, hold⟩ := hexpired e he
  exact (hgone emptiedRefresh (Option.some_ne_none _) f hf hurl e he (hfeedID.trans hid.symm)).1.mpr
    hold

end Cache
end Newsbaoter
