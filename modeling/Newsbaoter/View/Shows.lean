import Newsbaoter.View.Cursor
import Newsbaoter.View.Pages

/-!
# The rows on the screen and the rows of the query

`cache_gen_lines` leaves the old rows in place when the page it is asked for is
empty.  Some handlers look at what it returns and go back to the feed list, whose
own page nobody looks at; so the screen shows what the query returns just as
long as the page that is listed in the end has a row.
-/

namespace Newsbaoter
namespace View

open Newsbaoter.Support
open Newsbaoter.Cache (Db)

/-! ## What is shown -/

/-- `id` is the id of a row in the table that the current list is about, or that
of the aggregate row. -/
def IsListed (s : Ui) (id : ℤ) : Prop :=
  match s.mw.ctxType with
  | .feeds => id = 0 ∨ ∃ f ∈ s.mw.db.feed.rows, id = toInt f.feedID
  | .entries => ∃ e ∈ s.mw.db.entry.rows, id = toInt e.entryID

instance (s : Ui) (id : ℤ) : Decidable (IsListed s id) :=
  match h : s.mw.ctxType with
  | .feeds =>
      decidable_of_iff (id = 0 ∨ ∃ f ∈ s.mw.db.feed.rows, id = toInt f.feedID)
        (by rw [IsListed, h])
  | .entries =>
      decidable_of_iff (∃ e ∈ s.mw.db.entry.rows, id = toInt e.entryID) (by rw [IsListed, h])

/-- The rows `lv[0..content_bw_max]` are those of the current page, as the
database is now. -/
structure Shows (config : Config) (s : Ui) : Prop where
  rows : (List.range (s.contentBwMax + 1)).map s.mw.lv = pageRows config s s.mw.db
  ids : ∀ i ≤ s.contentBwMax, IsListed s (s.mw.lv i).id

instance (config : Config) (s : Ui) : Decidable (Shows config s) :=
  decidable_of_iff
    ((List.range (s.contentBwMax + 1)).map s.mw.lv = pageRows config s s.mw.db ∧
      ∀ i ≤ s.contentBwMax, IsListed s (s.mw.lv i).id)
    ⟨fun h => ⟨h.1, h.2⟩, fun h => ⟨h.rows, h.ids⟩⟩

theorem exists_entry_of_mem_entryRows
    {config : Config} {feedid : ℤ} {db : Db} {row : EntryRow}
    (h : row ∈ entryRows config feedid db) : ∃ e ∈ db.entry.rows, row.entryID = e.entryID := by
  rw [entryRows] at h
  split at h
  · rw [newestFirst, List.mem_insertionSort, List.mem_map] at h
    obtain ⟨e, he, rfl⟩ := h
    exact ⟨e, List.mem_of_mem_filter he, rfl⟩
  · rw [newestFirst, List.mem_insertionSort, List.mem_filterMap] at h
    obtain ⟨e, he, hrow⟩ := h
    obtain ⟨f, -, rfl⟩ := Option.map_eq_some_iff.mp hrow
    exact ⟨e, List.mem_of_mem_filter he, rfl⟩

theorem exists_feed_of_mem_feedRows
    {config : Config} {db : Db} {row : FeedRow} (h : row ∈ feedRows config db) :
    ∃ f ∈ db.feed.rows, row.feedID = f.feedID := by
  obtain ⟨f, hf, hrow⟩ := List.mem_filterMap.mp h
  dsimp only at hrow
  split at hrow
  · cases hrow
  · cases hrow
    exact ⟨f, hf, rfl⟩

/-- Whatever a page lists is a row of its table. -/
theorem isListed_of_mem_pageRows
    {config : Config} {s : Ui} (hpos : 0 < s.mw.bodyLen) {row : Listview}
    (h : row ∈ pageRows config s s.mw.db) : IsListed s row.id := by
  rw [pageRows, listing_eq_page _ _ _ _ _ hpos] at h
  have hfull := List.mem_of_mem_drop (List.mem_of_mem_take h)
  rw [IsListed]
  cases hctx : s.mw.ctxType with
  | feeds =>
      rw [hctx, fullListing, List.map_cons, List.mem_cons] at hfull
      rcases hfull with rfl | hmem
      · exact Or.inl (by rfl)
      · obtain ⟨row, hrow, rfl⟩ := List.mem_map.mp hmem
        obtain ⟨f, hf, hid⟩ := exists_feed_of_mem_feedRows hrow
        exact Or.inr ⟨f, hf, congrArg toInt hid⟩
  | entries =>
      rw [hctx, fullListing] at hfull
      obtain ⟨row, hrow, rfl⟩ := List.mem_map.mp hfull
      obtain ⟨e, he, hid⟩ := exists_entry_of_mem_entryRows hrow
      exact ⟨e, he, congrArg toInt hid⟩

theorem shows_of_rows
    {config : Config} {s : Ui} (hpos : 0 < s.mw.bodyLen)
    (h : (List.range (s.contentBwMax + 1)).map s.mw.lv = pageRows config s s.mw.db) :
    Shows config s := by
  refine ⟨h, ?_⟩
  intro i hi
  apply isListed_of_mem_pageRows hpos
  rw [← h]
  exact List.mem_map_of_mem (List.mem_range.mpr (Nat.lt_succ_of_le hi))

theorem Shows.length {config : Config} {s : Ui} (h : Shows config s) :
    s.contentBwMax + 1 = (pageRows config s s.mw.db).length := by
  rw [← h.rows, List.length_map, List.length_range]

/-! ## What keeps it so -/

/-- With the database `db`, the current page has a row or, if it is empty, the
page of the feed list that comes up instead. -/
def Lists (config : Config) (s : Ui) (db : Db) : Prop :=
  pageRows config s db ≠ [] ∨ feedsRows config s db ≠ []

/-- The condition on the state before a step. -/
def Finds (config : Config) (s : Ui) : Event → Prop
  | .key .select =>
      s.mw.ctxType = .entries →
        Lists config s (Cache.cacheWriteEntryField (s.mw.lv s.cursorI).id s.mw.db)
  | .key .download =>
      s.mw.ctxType = .entries →
        Lists config s (Cache.cacheWriteEntryField (s.mw.lv s.cursorI).id s.mw.db)
  | .key .catchupFeed =>
      (s.mw.ctxType = .feeds →
        pageRows config s (Cache.cacheReadFeed (s.mw.lv s.cursorI).id s.mw.db) ≠ []) ∧
      (s.mw.ctxType = .entries → Lists config s (Cache.cacheReadFeed s.mw.ctxId s.mw.db))
  | .key .catchupAll => Lists config s (Cache.cacheReadFeed 0 s.mw.db)
  | .key .toggleRead =>
      let db := Cache.cacheToggleReadEntry (s.mw.lv s.cursorI).id (-1) s.mw.db
      s.mw.ctxType = .entries →
        (pageRows config s db = [] → feedsRows config s db ≠ []) ∧
        (pageRows config s db ≠ [] → RepaintsToggle config s ∨
          (pageRows config s db).length = s.contentBwMax + 1)
  | .key .exit => s.mw.ctxType = .entries → feedsRows config s s.mw.db ≠ []
  | .fetch rs ended =>
      (ended = true → pageRows config s (refreshed config rs s.mw.db) ≠ []) ∧
      (ended = false →
        pageRows config s (refreshed config rs s.mw.db) = pageRows config s s.mw.db)
  | _ => True

instance (config : Config) (s : Ui) (db : Db) : Decidable (Lists config s db) :=
  inferInstanceAs (Decidable (_ ≠ _ ∨ _ ≠ _))

instance (config : Config) (s : Ui) : ∀ e, Decidable (Finds config s e)
  | .key .select => inferInstanceAs (Decidable (_ → Lists _ _ _))
  | .key .download => inferInstanceAs (Decidable (_ → Lists _ _ _))
  | .key .catchupFeed => inferInstanceAs (Decidable ((_ → _ ≠ _) ∧ (_ → Lists _ _ _)))
  | .key .catchupAll => inferInstanceAs (Decidable (Lists _ _ _))
  | .key .toggleRead => inferInstanceAs (Decidable (_ → (_ → _ ≠ _) ∧ (_ → _ ∨ _)))
  | .key .exit => inferInstanceAs (Decidable (_ → _ ≠ _))
  | .fetch _ _ => inferInstanceAs (Decidable ((_ → _ ≠ _) ∧ (_ → _ = _)))
  | .key .next | .key .prev | .key .low | .key .mid | .key .high | .key .redraw | .key .help =>
      isTrue trivial
  | .winch _ _ => isTrue trivial

/-! ## The invariant -/

/-- The body has the size of the terminal, and the cursor and the row that
leaving restores are rows of it. -/
structure Fitted (s : Ui) : Prop extends Ready s where
  cursorI : s.cursorI < s.mw.bodyLen
  backupCursorI : s.backupCursorI < s.mw.bodyLen
  bodyHeight : s.terminal.bodyHeight = s.mw.bodyLen
  cols : s.terminal.cols = s.mw.width

/-- The screen shows the listing that was asked for last. -/
structure Drawn (s : Ui) : Prop extends Loaded s, Fitted s where
  last : s.contentBwMax + 1 = s.shown.rows.length

/-- That listing is the one of the database. -/
structure Showing (config : Config) (s : Ui) : Prop extends Drawn s where
  rows : s.shown.rows = pageRows config s s.mw.db

theorem Fitted.inBounds {s : Ui} (h : Fitted s) : InBounds s :=
  ⟨h.bwLen, h.cursorI⟩

theorem Fitted.restyled {s : Ui} (h : Fitted s) : Fitted (restyled s) where
  toReady := h.toReady.restyled
  cursorI := h.cursorI
  backupCursorI := h.backupCursorI
  bodyHeight := h.bodyHeight
  cols := h.cols

theorem Fitted.withDb {s : Ui} (h : Fitted s) (db : Db) : Fitted { s with mw.db := db } where
  toReady := h.toReady.withDb db
  cursorI := h.cursorI
  backupCursorI := h.backupCursorI
  bodyHeight := h.bodyHeight
  cols := h.cols

/-- What list is asked for, and where the cursor is, does not matter to the size. -/
theorem Fitted.turned
    {s : Ui} (h : Fitted s) (ctxType : ListContext) (ctxId : ℤ) (page backup : ℕ) {cursor : ℕ}
    (hcursor : cursor < s.mw.bodyLen) :
    Fitted { s with
      mw.ctxType := ctxType
      mw.ctxId := ctxId
      mw.page := page
      backupPageNum := backup
      cursorI := cursor } where
  toReady := ⟨h.bwLen, h.bodyLen_pos, h.width, h.newsize⟩
  cursorI := hcursor
  backupCursorI := h.backupCursorI
  bodyHeight := h.bodyHeight
  cols := h.cols

theorem Drawn.last_lt {s : Ui} (h : Drawn s) : s.contentBwMax < s.mw.bodyLen :=
  Nat.lt_of_lt_of_le (Nat.lt_of_succ_le (Nat.le_of_eq h.last)) h.rows_le

theorem Drawn.rows_ne_nil {s : Ui} (h : Drawn s) : s.shown.rows ≠ [] :=
  List.length_pos_iff.mp h.rows_pos

theorem Drawn.lv_eq {s : Ui} (h : Drawn s) :
    (List.range (s.contentBwMax + 1)).map s.mw.lv = s.shown.rows := by
  rw [h.last]
  apply List.ext_getElem
  · rw [List.length_map, List.length_range]
  · intro i _ hi
    rw [List.getElem_map, List.getElem_range, h.lv i hi]

theorem Drawn.shows_iff {config : Config} {s : Ui} (h : Drawn s) :
    Shows config s ↔ s.shown.rows = pageRows config s s.mw.db := by
  constructor
  · intro hshows
    exact h.lv_eq.symm.trans hshows.rows
  · intro hrows
    exact shows_of_rows h.bodyLen_pos (h.lv_eq.trans hrows)

theorem Showing.shows {config : Config} {s : Ui} (h : Showing config s) : Shows config s :=
  h.toDrawn.shows_iff.mpr h.rows

theorem Drawn.restyled {s : Ui} (h : Drawn s) : Drawn (restyled s) where
  toLoaded := h.toLoaded.restyled h.cursorI
  __ := h.toFitted.restyled
  last := h.last

theorem Showing.restyled
    {config : Config} {s : Ui} (h : Showing config s) : Showing config (restyled s) :=
  ⟨h.toDrawn.restyled, h.rows⟩

theorem Drawn.withDb {s : Ui} (h : Drawn s) (db : Db) : Drawn { s with mw.db := db } where
  toLoaded := h.toLoaded.withDb db
  __ := h.toFitted.withDb db
  last := h.last

theorem Showing.withCursor
    {config : Config} {s : Ui} (h : Showing config s) {c : ℕ} (hc : c < s.mw.bodyLen) :
    Showing config { s with cursorI := c } where
  toLoaded := h.toLoaded.withCursor c
  __ := h.toFitted.turned s.mw.ctxType s.mw.ctxId s.mw.page s.backupPageNum hc
  last := h.last
  rows := h.rows

/-! ## What a handler leaves -/

/-- A handler leaves the rows of its last request. -/
structure Ends (config : Config) (s : Ui) : Prop extends Reloaded s, Fitted s where
  rows : s.shown.rows = pageRows config s s.mw.db

/-- That request has found rows, and `content_bw_max` is up to date where no
repaint is to come. -/
def Fills (r : Ui × KhRet) : Prop :=
  r.1.shown.rows ≠ [] ∧ (r.2 = .ok → r.1.contentBwMax + 1 = r.1.shown.rows.length)

theorem fills_update_iff {s : Ui} : Fills (s, .update) ↔ s.shown.rows ≠ [] := by
  simp [Fills]

theorem Showing.ends {config : Config} {s : Ui} (h : Showing config s) : Ends config s where
  toReloaded := h.toLoaded.reloaded
  __ := h.toFitted
  rows := h.rows

theorem Drawn.fills {s : Ui} (h : Drawn s) (ret : KhRet) : Fills (s, ret) :=
  ⟨h.rows_ne_nil, fun _ => h.last⟩

theorem Ends.restyled {config : Config} {s : Ui} (h : Ends config s) : Ends config (restyled s) where
  toReloaded := h.toReloaded.restyled h.cursorI
  __ := h.toFitted.restyled
  rows := h.rows

/-- A request leaves its rows. -/
theorem Fitted.ends_requestListUpdate
    (config : Config) {s : Ui} (h : Fitted s) : Ends config (requestListUpdate config s).1 where
  toReloaded := h.toReady.reloaded_requestListUpdate config
  cursorI := h.cursorI
  backupCursorI := h.backupCursorI
  bodyHeight := h.bodyHeight
  cols := h.cols
  rows := rfl

/-- Repainting loaded lines draws the screen. -/
theorem Loaded.drawn_drawLines {s : Ui} (h : Loaded s) (hfitted : Fitted s) :
    Drawn (drawLines s) := by
  obtain ⟨hpainted, hmax⟩ := painted_drawRows s.contentBwMax h.painted h.width_pos
    (Nat.zero_add s.mw.bodyLen) h.rows_le
  rw [if_pos h.rows_pos] at hmax
  have hlast : (drawLines s).contentBwMax = s.shown.rows.length - 1 := hmax
  exact
    { toLoaded := h.repaint _ s.cursorI s.backupCursorI hpainted
      cursorI := hfitted.cursorI
      backupCursorI := hfitted.backupCursorI
      bodyHeight := hfitted.bodyHeight
      cols := hfitted.cols
      last := by rw [hlast]; exact Nat.sub_add_cancel h.rows_pos }

theorem Ends.showing_updateView
    {config : Config} {s : Ui} (h : Ends config s) (hrows : s.shown.rows ≠ []) :
    ∃ t, updateView config s = some t ∧ Showing config t :=
  ⟨drawLines s, h.updateView_eq, (h.loaded hrows).drawn_drawLines h.toFitted, h.rows⟩

theorem showing_afterKey
    {config : Config} {r : Ui × KhRet} (h : Ends config r.1) (hfills : Fills r) :
    ∃ t, afterKey config r = some t ∧ Showing config t := by
  obtain ⟨hrows, hlast⟩ := hfills
  rw [afterKey]
  split
  · next hok =>
      exact ⟨r.1, rfl,
        { toLoaded := h.loaded hrows
          __ := h.toFitted
          last := hlast hok
          rows := h.rows }⟩
  · exact h.showing_updateView hrows
  · exact h.showing_updateView hrows

/-- What is shown has a row. -/
theorem Shows.rows_ne_nil {config : Config} {s : Ui} (h : Shows config s) :
    pageRows config s s.mw.db ≠ [] := by
  have hlength := h.length
  exact List.length_pos_iff.mp (by omega)

theorem Ends.rows_ne_nil_of_updateView
    {config : Config} {s t : Ui} (h : Ends config s) (ht : updateView config s = some t)
    (hshows : Shows config t) :
    s.shown.rows ≠ [] := by
  rw [h.updateView_eq] at ht
  cases ht
  rw [h.rows]
  exact hshows.rows_ne_nil

theorem fills_of_shows
    {config : Config} {r : Ui × KhRet} {t : Ui} (h : Ends config r.1)
    (ht : afterKey config r = some t) (hshows : Shows config t) :
    Fills r := by
  rw [afterKey] at ht
  split at ht
  · cases ht
    have hlength := hshows.length
    have hrows := hshows.rows_ne_nil
    rw [← h.rows] at hlength hrows
    exact ⟨hrows, fun _ => hlength⟩
  · next hexit =>
      exact ⟨h.rows_ne_nil_of_updateView ht hshows, fun hok => by rw [hexit] at hok; cases hok⟩
  · next hupdate =>
      exact ⟨h.rows_ne_nil_of_updateView ht hshows, fun hok => by rw [hupdate] at hok; cases hok⟩

end View
end Newsbaoter
