import Newsbaoter.View.Counts

/-!
# The feed list without read feeds

With `show-read-feeds` off, `Viewed=0` stands in the WHERE clause, before the
grouping.  That drops the feeds without unread entries, but it drops the read
entries of the others too, and their totals shrink to the unread numbers.
-/

namespace Newsbaoter
namespace View

open Newsbaoter.Cache (Db Entry Feed Issued Marked Op guidlessRefresh marked_run)

def withReadFeeds (config : Config) (b : Bool) : Config :=
  { config with showReadFeeds := b }

/-- The list without read feeds has just those rows of the full list whose
number is not zero. -/
def FiltersOnly (config : Config) (db : Db) : Prop :=
  feedRows (withReadFeeds config false) db =
    (feedRows (withReadFeeds config true) db).filter fun row => row.unread ≠ 0

/-- No feed has both read and unread entries. -/
def Unmixed (db : Db) : Prop :=
  ∀ e ∈ db.entry.rows, ∀ x ∈ db.entry.rows,
    x.feedID = e.feedID → e.viewed = 0 → x.viewed = 0

section Groups

variable (config : Config) (db : Db) (f : Feed)

theorem mem_groupOf_true {e : Entry} :
    e ∈ groupOf (withReadFeeds config true) db f ↔ e ∈ db.entry.rows ∧ e.feedID = f.feedID := by
  simp [groupOf, withReadFeeds]

theorem groupOf_false :
    groupOf (withReadFeeds config false) db f =
      (groupOf (withReadFeeds config true) db f).filter fun e => e.viewed == 0 := by
  rw [groupOf, groupOf, List.filter_filter]
  apply List.filter_congr
  intro e _
  simp [withReadFeeds, Bool.and_comm]

/-- The number of a feed is zero just if the shorter group is empty. -/
theorem unreadOf_eq_zero_iff :
    unreadOf db f = 0 ↔ groupOf (withReadFeeds config false) db f = [] := by
  rw [← countP_groupOf (withReadFeeds config true), List.countP_eq_length_filter, groupOf_false,
    List.length_eq_zero_iff]

end Groups

/-- Both lists have a row for each feed with unread entries, in the same order. -/
theorem feedRows_false_eq (config : Config) (db : Db) :
    feedRows (withReadFeeds config false) db = db.feed.rows.filterMap fun f =>
      if unreadOf db f = 0 then none
      else some (groupRow f (groupOf (withReadFeeds config false) db f)) := by
  rw [feedRows_eq]
  simp only [List.isEmpty_iff, unreadOf_eq_zero_iff config db]

theorem filter_feedRows_true_eq
    (config : Config) {db : Db} (h : Marked db) :
    ((feedRows (withReadFeeds config true) db).filter fun row => row.unread ≠ 0) =
      db.feed.rows.filterMap fun f =>
        if unreadOf db f = 0 then none
        else some (groupRow f (groupOf (withReadFeeds config true) db f)) := by
  rw [feedRows_eq, List.filter_filterMap]
  apply List.filterMap_congr
  intro f _
  have hunread := unread_groupRow h (withReadFeeds config true) f
  by_cases hzero : unreadOf db f = 0
  · rw [hzero] at hunread
    rw [if_pos hzero]
    split
    · rfl
    · rw [Option.filter_some, hunread]
      rfl
  · have hsome : groupOf (withReadFeeds config true) db f ≠ [] := by
      intro hempty
      apply hzero
      rw [← countP_groupOf (withReadFeeds config true), hempty]
      rfl
    rw [if_neg hzero, if_neg (by simpa using hsome), Option.filter_some, if_pos]
    rw [hunread]
    simpa using hzero

/-- Whatever is read, the feeds and their unread numbers are those of the full
list. -/
theorem ids_and_unread_feedRows_false
    (config : Config) {db : Db} (h : Marked db) :
    (feedRows (withReadFeeds config false) db).map (fun row => (row.feedID, row.unread)) =
      ((feedRows (withReadFeeds config true) db).filter fun row => row.unread ≠ 0).map
        fun row => (row.feedID, row.unread) := by
  rw [feedRows_false_eq, filter_feedRows_true_eq config h, List.map_filterMap, List.map_filterMap]
  apply List.filterMap_congr
  intro f _
  split
  · rfl
  · rw [Option.map_some, Option.map_some, unread_groupRow h, unread_groupRow h]
    rfl

/-- A list that only filters keeps the totals, so the shorter group of a feed
with unread entries is its group. -/
theorem FiltersOnly.groupOf_eq
    {config : Config} {db : Db} (hmarked : Marked db) (h : FiltersOnly config db) {f : Feed}
    (hf : f ∈ db.feed.rows) (hunread : unreadOf db f ≠ 0) :
    groupOf (withReadFeeds config false) db f = groupOf (withReadFeeds config true) db f := by
  have hrow : groupRow f (groupOf (withReadFeeds config false) db f) ∈
      feedRows (withReadFeeds config false) db := by
    rw [feedRows_false_eq, List.mem_filterMap]
    exact ⟨f, hf, if_neg hunread⟩
  rw [h, filter_feedRows_true_eq config hmarked, List.mem_filterMap] at hrow
  obtain ⟨g, hg, hsome⟩ := hrow
  split at hsome
  · cases hsome
  · have heq := Option.some.inj hsome
    have hid : g.feedID = f.feedID := congrArg FeedRow.feedID heq
    obtain rfl := db.feed.eq_of_key_eq hg hf hid
    have hcount : (groupOf (withReadFeeds config true) db g).length =
        (groupOf (withReadFeeds config false) db g).length := congrArg FeedRow.count heq
    rw [groupOf_false] at hcount ⊢
    exact List.filter_eq_self.mpr (List.length_filter_eq_length_iff.mp hcount.symm)

theorem unreadOf_ne_zero
    (config : Config) {db : Db} {f : Feed} {e : Entry} (he : e ∈ db.entry.rows)
    (hid : e.feedID = f.feedID) (hviewed : e.viewed = 0) :
    unreadOf db f ≠ 0 := by
  rw [Ne, unreadOf_eq_zero_iff config, groupOf_false]
  apply List.ne_nil_of_mem (a := e)
  rw [List.mem_filter, mem_groupOf_true]
  exact ⟨⟨he, hid⟩, beq_iff_eq.mpr hviewed⟩

theorem FiltersOnly.unmixed
    {config : Config} {db : Db} (hdb : Cache.Integrity db) (hmarked : Marked db)
    (h : FiltersOnly config db) :
    Unmixed db := by
  intro e he x hx hfeed hviewed
  obtain ⟨f, hf, hid⟩ := hdb.owned e he
  have hsame := h.groupOf_eq hmarked hf (unreadOf_ne_zero config he hid.symm hviewed)
  have hxin : x ∈ groupOf (withReadFeeds config true) db f :=
    (mem_groupOf_true config db f).mpr ⟨hx, hfeed.trans hid.symm⟩
  rw [← hsame, groupOf_false, List.mem_filter] at hxin
  exact beq_iff_eq.mp hxin.2

/-- Without mixed feeds, the group of a feed with an unread entry has no other. -/
theorem Unmixed.groupOf_eq
    {db : Db} (h : Unmixed db) (config : Config) {f : Feed} (hunread : unreadOf db f ≠ 0) :
    groupOf (withReadFeeds config false) db f = groupOf (withReadFeeds config true) db f := by
  rw [Ne, unreadOf_eq_zero_iff config, groupOf_false] at hunread
  obtain ⟨e, he⟩ := List.exists_mem_of_ne_nil _ hunread
  obtain ⟨hin, hviewed⟩ := List.mem_filter.mp he
  obtain ⟨he, hid⟩ := (mem_groupOf_true config db f).mp hin
  rw [groupOf_false]
  refine List.filter_eq_self.mpr fun x hx => ?_
  obtain ⟨hx, hxid⟩ := (mem_groupOf_true config db f).mp hx
  exact beq_iff_eq.mpr (h e he x hx (hxid.trans hid.symm) (beq_iff_eq.mp hviewed))

theorem Unmixed.filtersOnly
    {db : Db} (h : Unmixed db) (hmarked : Marked db) (config : Config) :
    FiltersOnly config db := by
  rw [FiltersOnly, feedRows_false_eq, filter_feedRows_true_eq config hmarked]
  apply List.filterMap_congr
  intro f _
  split
  · rfl
  · next hunread => rw [h.groupOf_eq config hunread]

/-- The option only filters the list just if no feed has both read and unread
entries. -/
theorem filtersOnly_iff
    (config : Config) {ops : List Op} (hops : ∀ op ∈ ops, Issued op) :
    FiltersOnly config (Cache.run config.cache ops) ↔ Unmixed (Cache.run config.cache ops) := by
  have hmarked := marked_run config.cache hops
  constructor
  · exact FiltersOnly.unmixed (Cache.integrity_run config.cache ops) hmarked
  · intro hunmixed
    exact hunmixed.filtersOnly hmarked config

/-- A feed of which nothing is read yet. -/
theorem filters_unread_feed :
    FiltersOnly unreadOnly (Cache.run unreadOnly.cache [.refresh (guidlessRefresh 65)]) := by
  refine (filtersOnly_iff unreadOnly fun op hop => ?_).mpr (by unfold Unmixed; decide +kernel)
  obtain rfl := List.mem_singleton.mp hop
  trivial

/-- After one of its two entries is marked, the row of the feed is `[1/2]` in the
full list, and `[1/1]` in the other. -/
theorem read_entry_shrinks_total :
    let db := Cache.run unreadOnly.cache [.refresh (guidlessRefresh 65), .toggleRead 1 (-1)]
    (feedRows (withReadFeeds unreadOnly true) db).map (fun row => (row.unread, row.count)) =
        [(1, 2)] ∧
      (feedRows (withReadFeeds unreadOnly false) db).map (fun row => (row.unread, row.count)) =
        [(1, 1)] ∧
      ¬FiltersOnly unreadOnly db := by
  refine ⟨by decide +kernel, by decide +kernel, fun h => ?_⟩
  have hcounts := congrArg (List.map FeedRow.count) h
  exact absurd hcounts (by decide +kernel)

end View
end Newsbaoter
