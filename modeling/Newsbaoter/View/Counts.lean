import Mathlib.Algebra.Order.Floor.Div
import Newsbaoter.Cache.Marks
import Newsbaoter.Cache.Numbered
import Newsbaoter.Support.Grouping
import Newsbaoter.View.Pages
import Newsbaoter.View.RowText

/-!
# The unread numbers of the lists

The aggregate row counts unread entries with a filter, the rows of the feeds
subtract a sum from a count group by group, and the aggregate list joins entries
with their feeds.  These agree because marks are `0` or `1`, every entry has a
feed, and no two feeds share an id.
-/

namespace Newsbaoter
namespace View

open Newsbaoter.Support
open Newsbaoter.Cache (Db Entry Feed Integrity Issued Marked Op getNumUnread guidlessRefresh
  getNumUnread_refreshUpTo integrity_run marked_run refreshUpTo)

/-- `tot_ent-r_ent` -/
def FeedRow.unread (row : FeedRow) : ℤ :=
  row.count - row.viewed

/-! ## The groups -/

/-- The entries that the query groups for a feed. -/
def groupOf (config : Config) (db : Db) (f : Feed) : List Entry :=
  db.entry.rows.filter fun e =>
    e.feedID == f.feedID && (config.showReadFeeds || e.viewed == 0)

/-- The result row of a group. -/
def groupRow (f : Feed) (es : List Entry) : FeedRow where
  title := f.title
  url := f.url
  viewed := (es.map Entry.viewed).sum
  count := es.length
  feedID := f.feedID

theorem feedRows_eq (config : Config) (db : Db) :
    feedRows config db = db.feed.rows.filterMap fun f =>
      if (groupOf config db f).isEmpty then none else some (groupRow f (groupOf config db f)) :=
  rfl

/-- The unread entries of a feed. -/
def unreadOf (db : Db) (f : Feed) : ℕ :=
  db.entry.rows.countP fun e => e.feedID == f.feedID && e.viewed == 0

/-- With marks of `0` and `1` the difference counts the unread ones. -/
theorem length_sub_sum_viewed
    {es : List Entry} (h : ∀ e ∈ es, e.viewed = 0 ∨ e.viewed = 1) :
    (es.length : ℤ) - (es.map Entry.viewed).sum = es.countP fun e => e.viewed == 0 := by
  induction es with
  | nil => rfl
  | cons e es ih =>
      have hrest := ih fun x hx => h x (List.mem_cons_of_mem e hx)
      rw [List.map_cons, List.sum_cons, List.length_cons, List.countP_cons]
      rcases h e List.mem_cons_self with hviewed | hviewed
      · rw [hviewed]
        simp only [beq_self_eq_true, if_true]
        omega
      · have hread : ((1 : ℤ) == 0) = false := by decide
        rw [hviewed, hread, if_neg Bool.false_ne_true]
        omega

theorem countP_groupOf (config : Config) (db : Db) (f : Feed) :
    ((groupOf config db f).countP fun e => e.viewed == 0) = unreadOf db f := by
  rw [groupOf, List.countP_filter, unreadOf]
  apply List.countP_congr
  intro e _
  cases config.showReadFeeds with
  | false => simp
  | true => simp [and_comm]

/-- The number in the row of a feed, whether or not read entries are in its
group. -/
theorem unread_groupRow
    {db : Db} (h : Marked db) (config : Config) (f : Feed) :
    (groupRow f (groupOf config db f)).unread = unreadOf db f := by
  have hmarks : ∀ e ∈ groupOf config db f, e.viewed = 0 ∨ e.viewed = 1 :=
    fun e he => h e (List.mem_of_mem_filter he)
  rw [← countP_groupOf config, ← length_sub_sum_viewed hmarks]
  rfl

/-- The row of a feed comes from its group. -/
theorem exists_of_mem_feedRows
    {config : Config} {db : Db} {row : FeedRow} (hrow : row ∈ feedRows config db) :
    ∃ f ∈ db.feed.rows, groupOf config db f ≠ [] ∧ row = groupRow f (groupOf config db f) := by
  rw [feedRows_eq] at hrow
  obtain ⟨f, hf, hsome⟩ := List.mem_filterMap.mp hrow
  split at hsome
  · cases hsome
  · next hempty =>
      refine ⟨f, hf, ?_, (Option.some.inj hsome).symm⟩
      simpa using hempty

/-! ## The four numbers -/

theorem unread_unreadArticles (db : Db) : (unreadArticles db).unread = getNumUnread db :=
  Int.sub_zero _

/-- Every entry is in the group of just one feed. -/
theorem sum_unreadOf
    {db : Db} (h : Integrity db) :
    (db.feed.rows.map (unreadOf db)).sum = getNumUnread db := by
  have hnodup : (db.feed.rows.map Feed.feedID).Nodup :=
    List.pairwise_map.mpr (db.feed.sorted.imp fun hlt => Int.ne_of_lt hlt)
  have howned : ∀ e ∈ db.entry.rows, e.feedID ∈ db.feed.rows.map Feed.feedID := by
    intro e he
    obtain ⟨f, hf, hid⟩ := h.owned e he
    exact List.mem_map.mpr ⟨f, hf, hid⟩
  have hsum := sum_countP_groups hnodup Entry.feedID (fun e => e.viewed == 0) howned
  rw [List.map_map] at hsum
  exact hsum

theorem sum_feedRows
    {db : Db} (h : Integrity db) (hmarked : Marked db) (config : Config) :
    ((feedRows config db).map FeedRow.unread).sum = getNumUnread db := by
  rw [← sum_unreadOf h, feedRows_eq]
  apply sum_map_filterMap
  · intro f _ row hrow
    split at hrow
    · cases hrow
    · rw [← Option.some.inj hrow]
      exact unread_groupRow hmarked config f
  · intro f _ hnone
    split at hnone
    · next hempty =>
        rw [← countP_groupOf config, List.isEmpty_iff.mp hempty]
        rfl
    · cases hnone

/-- Every unread entry has a feed to be joined with. -/
theorem length_entryRows
    {db : Db} (h : Integrity db) (config : Config) :
    (entryRows config 0 db).length = getNumUnread db := by
  rw [entryRows, if_neg (Int.lt_irrefl 0), newestFirst, List.length_insertionSort,
    List.filterMap_length_eq_length.mpr, ← List.countP_eq_length_filter]
  · rfl
  · intro e he
    obtain ⟨f, hf, hid⟩ := h.owned e (List.mem_of_mem_filter he)
    rw [Option.isSome_map, List.find?_isSome]
    exact ⟨f, hf, beq_iff_eq.mpr hid⟩

/-- The pages of the aggregate list, up to the first one without rows. -/
theorem exists_pages_entries
    {db : Db} (h : Integrity db) (config : Config) {bodyLen : ℕ} (hpos : 0 < bodyLen) :
    ∃ n, (∀ p, listing config db .entries 0 p bodyLen = [] ↔ n ≤ p) ∧
      ((List.range n).map fun p => (listing config db .entries 0 p bodyLen).length).sum =
        getNumUnread db := by
  have hlength : (fullListing config db .entries 0).length = getNumUnread db := by
    rw [fullListing, List.length_map, length_entryRows h]
  have hpage : ∀ p, listing config db .entries 0 p bodyLen =
      page (fullListing config db .entries 0) bodyLen p :=
    fun p => listing_eq_page config db .entries 0 p hpos
  refine ⟨getNumUnread db ⌈/⌉ bodyLen, ?_, ?_⟩
  · intro p
    rw [hpage, page_eq_nil_iff hpos, hlength, ceilDiv_le_iff_le_mul hpos, Nat.mul_comm]
  · have hall : (fullListing config db .entries 0).length ≤
        getNumUnread db ⌈/⌉ bodyLen * bodyLen := by
      rw [hlength, Nat.mul_comm]
      exact le_smul_ceilDiv hpos
    simp only [hpage]
    rw [← hlength, ← List.length_flatMap, hlength, flatMap_page_of_le hall, hlength]

/-! ## The mark and the flag of a row -/

/-- The cell behind the number of the line. -/
def markCell (width ind : ℕ) : ℤ :=
  lineAt width ind + (indexText ind).length

/-- A line that has room for the mark gets an N or a blank, and the name does
not reach it. -/
theorem feedLineCb_markCell
    (loc : Locale) {width ind : ℕ} (hroom : (indexText ind).length < width) (row : FeedRow)
    (t : Lines) :
    (feedLineCb loc width ind row t).body (markCell width ind) =
      if row.viewed < row.count then 78 else 32 := by
  have hlength : (feedPrefix ind row).length =
      (indexText ind).length +
        (ascii (if row.viewed < row.count then "N" else " ")).length + (countText row).length := by
    rw [feedPrefix, List.length_append, List.length_append]
  have hflag : (ascii (if row.viewed < row.count then "N" else " ")).length = 1 := by
    split
    · decide
    · decide
  have hcrop := length_crop width ((feedPrefix ind row).map UInt8.toNat)
  rw [List.length_map] at hcrop
  have hcells : (indexText ind).length < (feedCells loc width ind row).length := by
    rw [feedCells, length_overlay (by omega), hcrop]
    omega
  have hmark : ((feedPrefix ind row).map UInt8.toNat).getD (indexText ind).length 0 =
      if row.viewed < row.count then 78 else 32 := by
    rw [feedPrefix, List.append_assoc, List.map_append, ← List.length_map UInt8.toNat,
      List.getD_append_right _ _ _ _ (Nat.le_refl _), Nat.sub_self]
    split
    · rfl
    · rfl
  rw [markCell, feedLineCb_body, store_add, if_pos hcells, feedCells,
    getD_overlay_of_lt (by omega) (by omega), getD_crop hroom (by rw [List.length_map]; omega),
    hmark]

/-- A line with room for the mark has it just if the number of its row is not
zero, and the flag is that number as an `int`. -/
structure ShowsUnread (width ind : ℕ) (row : FeedRow) (t : Lines) : Prop where
  mark : (indexText ind).length < width →
    t.body (markCell width ind) = if row.unread = 0 then 32 else 78
  flag : (t.lv ind).unread ≠ 0 ↔ ¬(2 ^ 32 : ℤ) ∣ row.unread

/-- A group counts no entry as read more than once. -/
theorem unread_nonneg
    {config : Config} {db : Db} (h : Marked db) {startInd len : ℕ} {row : FeedRow}
    (hrow : row ∈ feedPage config db startInd len) :
    0 ≤ row.unread := by
  have hfeed : ∀ row ∈ feedRows config db, 0 ≤ row.unread := by
    intro row hrow
    obtain ⟨f, _, _, rfl⟩ := exists_of_mem_feedRows hrow
    rw [unread_groupRow h]
    exact Int.natCast_nonneg _
  rw [feedPage] at hrow
  split at hrow
  · rcases List.mem_cons.mp hrow with rfl | hrow
    · rw [unread_unreadArticles]
      exact Int.natCast_nonneg _
    · exact hfeed row (List.mem_of_mem_take hrow)
  · exact hfeed row (List.mem_of_mem_drop (List.mem_of_mem_take hrow))

theorem item_unread_ne_zero_iff (row : FeedRow) :
    row.item.unread ≠ 0 ↔ ¬(2 ^ 32 : ℤ) ∣ row.unread :=
  not_congr (Int.dvd_iff_bmod_eq_zero (a := 2 ^ 32)).symm

theorem showsUnread_writeLines
    (loc : Locale) {width : ℕ} {rows : List FeedRow} (hrows : ∀ row ∈ rows, 0 ≤ row.unread)
    (len : ℕ) (t : Lines) {i : ℕ} (hi : i < rows.length) :
    ShowsUnread width i rows[i] (writeLines (feedLineCb loc width) len width rows t).1 := by
  constructor
  · intro hroom
    have hwidth : 3 ≤ width := by
      have := five_le_length_indexText i
      omega
    obtain ⟨u, hrow⟩ := exists_writeLines_row (writesRow_feedLineCb loc hwidth) len t hi
    have hnonneg : 0 ≤ rows[i].unread := hrows _ (List.getElem_mem hi)
    have hcell := feedLineCb_markCell loc hroom rows[i] u
    rw [markCell] at hcell ⊢
    rw [hrow _ (Nat.le_of_lt hroom), hcell]
    rw [FeedRow.unread] at hnonneg ⊢
    split
    · rw [if_neg (by omega)]
    · rw [if_pos (by omega)]
  · have hsome : rows ≠ [] := List.ne_nil_of_length_pos (Nat.zero_lt_of_lt hi)
    rw [writeLines_lv (storesItem_feedLineCb _ _) hsome _ _ _ hi]
    exact item_unread_ne_zero_iff rows[i]

theorem showsUnread_cacheGenLines
    (config : Config) {mw : MainWindow} (h : Marked mw.db) (hctx : mw.ctxType = .feeds)
    {i : ℕ} (hi : i < (feedPage config mw.db (mw.page * mw.bodyLen) mw.bodyLen).length) :
    ShowsUnread mw.width i (feedPage config mw.db (mw.page * mw.bodyLen) mw.bodyLen)[i]
      (cacheGenLines config mw).1.toLines := by
  have hlines : (cacheGenLines config mw).1.toLines =
      (writeFeedLine config mw.bodyLen mw.width (mw.page * mw.bodyLen) mw.db mw.toLines).1 := by
    simp only [cacheGenLines, hctx]
  rw [hlines, writeFeedLine]
  exact showsUnread_writeLines config.locale (fun row hrow => unread_nonneg h hrow) _ _ hi

/-! ## Every run -/

/-- The marks of a database, and its unread numbers in the lists. -/
structure Agree (config : Config) (db : Db) : Prop where
  marked : Marked db
  aggregate : (unreadArticles db).unread = getNumUnread db
  feeds : ((feedRows config db).map FeedRow.unread).sum = getNumUnread db
  entries : ∀ bodyLen, 0 < bodyLen →
    ∃ n, (∀ p, listing config db .entries 0 p bodyLen = [] ↔ n ≤ p) ∧
      ((List.range n).map fun p => (listing config db .entries 0 p bodyLen).length).sum =
        getNumUnread db
  rows : ∀ mw : MainWindow, mw.db = db → mw.ctxType = .feeds →
    ∀ i (hi : i < (feedPage config db (mw.page * mw.bodyLen) mw.bodyLen).length),
      ShowsUnread mw.width i (feedPage config db (mw.page * mw.bodyLen) mw.bodyLen)[i]
        (cacheGenLines config mw).1.toLines

/-- Whatever the program did to the cache, its unread numbers agree. -/
theorem unread_numbers_agree
    (config : Config) {ops : List Op} (hops : ∀ op ∈ ops, Issued op) :
    Agree config (Cache.run config.cache ops) := by
  have h := integrity_run config.cache ops
  have hmarked := marked_run config.cache hops
  refine
    { marked := hmarked
      aggregate := unread_unreadArticles _
      feeds := sum_feedRows h hmarked config
      entries := fun bodyLen hpos => exists_pages_entries h config hpos
      rows := ?_ }
  intro mw hdb hctx
  rw [← hdb] at hmarked ⊢
  exact fun i hi => showsUnread_cacheGenLines config hmarked hctx hi

/-- A feed with two entries, one of which is marked. -/
theorem unread_numbers_agree_after_toggle :
    Agree unreadOnly (Cache.run unreadOnly.cache
      [.refresh (guidlessRefresh 65), .toggleRead 1 (-1)]) :=
  unread_numbers_agree unreadOnly fun op hop => by
    rcases List.mem_pair.mp hop with rfl | rfl
    · trivial
    · rfl

/-! ## Narrow screens and many entries -/

/-- A body of two rows and five columns. -/
def fiveColumns (db : Db) : MainWindow where
  toLines := blankLines
  bodyLen := 2
  width := 5
  page := 0
  ctxType := .feeds
  ctxId := 0
  db := db

/-- On five columns no row has a mark, whatever its number; and of `2 ^ 32`
unread entries an `int` keeps nothing. -/
theorem mark_and_flag_lost :
    (((feedPage unreadOnly (Cache.run unreadOnly.cache [.refresh (guidlessRefresh 65)])
        0 2).map FeedRow.unread = [2, 2]) ∧
      ∀ m < 12, (cacheGenLines unreadOnly (fiveColumns
        (Cache.run unreadOnly.cache [.refresh (guidlessRefresh 65)]))).1.body (m : ℕ) ≠ 78) ∧
      (unreadArticles (Cache.run unreadOnly.cache
        [.refresh (refreshUpTo (2 ^ 32))])).unread = 2 ^ 32 ∧
      (unreadArticles (Cache.run unreadOnly.cache
        [.refresh (refreshUpTo (2 ^ 32))])).item.unread = 0 := by
  have hcount := getNumUnread_refreshUpTo unreadOnly.cache (Nat.le_refl (2 ^ 32))
  have hunread : (unreadArticles (Cache.run unreadOnly.cache
      [.refresh (refreshUpTo (2 ^ 32))])).unread = 2 ^ 32 := by
    rw [unread_unreadArticles, hcount]
    rfl
  refine ⟨⟨by decide +kernel, by decide +kernel⟩, hunread, ?_⟩
  by_contra hflag
  rw [← ne_eq, item_unread_ne_zero_iff, hunread] at hflag
  exact hflag (dvd_refl _)

end View
end Newsbaoter
