import Newsbaoter.Config.HelpPage
import Newsbaoter.Pager.Page
import Newsbaoter.Program.Runs
import Newsbaoter.View.Shows

/-!
# The processes behind the keys

`select_item` and `download_item` pipe a text of the row at the cursor to a process,
and know the row by its id.  As long as the screen shows the rows of the query, this
is the entry that stands at the cursor.
-/

namespace Newsbaoter
namespace Pager

open Newsbaoter.Cache (Db Entry)
open Newsbaoter.Config (Globals Handler NbConfig handlePrintKeyPairs pipedArgs)
open Newsbaoter.Support
open Newsbaoter.View (EntryRow Shows Ui entryRows idAtCursor pageRows step)

/-! ## Piping -/

/-- The vector that `pipe_to_process` gets, and what is written to the process. -/
structure Piped where
  args : Option (List CStr)
  text : CStr

def pipeFields (config : NbConfig) (id : ℤ) (args : Option (List CStr)) (field : Field) (db : Db) :
    Piped :=
  ⟨args, (cacheWriteEntryField config.htmlPager field id db).2⟩

def downloadEntry (config : NbConfig) (id : ℤ) : Db → Piped :=
  pipeFields config id config.downloader .url

def pipeEntry (config : NbConfig) (id : ℤ) : Db → Piped :=
  pipeFields config id config.pager .all

/-- What an operation pipes, if it gets to it. -/
def piped (wctomb : UInt32 → CStr) (g : Globals) (s : Ui) : Handler → Option Piped
  | .select =>
      match s.mw.ctxType with
      | .feeds => none
      | .entries => (idAtCursor s).map fun id => pipeEntry g.config id s.mw.db
  | .download =>
      match s.mw.ctxType with
      | .feeds => none
      | .entries => (idAtCursor s).map fun id => downloadEntry g.config id s.mw.db
  | .printKeyPairs =>
      (handlePrintKeyPairs wctomb g).map fun lines => ⟨g.config.pager, lines.flatten⟩
  | _ => none

/-- The vectors are those that have to be there. -/
theorem pipedArgs_of_piped
    {wctomb : UInt32 → CStr} {g : Globals} {s : Ui} {h : Handler} {p : Piped}
    (hp : piped wctomb g s h = some p) :
    pipedArgs g.config s h = some p.args := by
  cases h with
  | select =>
      rw [piped] at hp
      rw [pipedArgs]
      cases hctx : s.mw.ctxType with
      | feeds =>
          rw [hctx] at hp
          cases hp
      | entries =>
          rw [hctx] at hp
          obtain ⟨id, -, rfl⟩ := Option.map_eq_some_iff.mp hp
          rfl
  | download =>
      rw [piped] at hp
      rw [pipedArgs]
      cases hctx : s.mw.ctxType with
      | feeds =>
          rw [hctx] at hp
          cases hp
      | entries =>
          rw [hctx] at hp
          obtain ⟨id, -, rfl⟩ := Option.map_eq_some_iff.mp hp
          rfl
  | printKeyPairs =>
      obtain ⟨lines, -, rfl⟩ := Option.map_eq_some_iff.mp hp
      rfl
  | _ => cases hp

/-! ## The row at the cursor -/

/-- A result row is that of an entry. -/
def IsRowOf (row : EntryRow) (e : Entry) : Prop :=
  row.title = e.title ∧ row.viewed = e.viewed ∧ row.pubDate = e.pubDate ∧ row.entryID = e.entryID

theorem exists_isRowOf
    {config : View.Config} {feedid : ℤ} {db : Db} {row : EntryRow}
    (h : row ∈ entryRows config feedid db) :
    ∃ e ∈ db.entry.rows, IsRowOf row e := by
  rw [entryRows] at h
  split at h
  · rw [View.newestFirst, List.mem_insertionSort, List.mem_map] at h
    obtain ⟨e, he, rfl⟩ := h
    exact ⟨e, List.mem_of_mem_filter he, rfl, rfl, rfl, rfl⟩
  · rw [View.newestFirst, List.mem_insertionSort, List.mem_filterMap] at h
    obtain ⟨e, he, hrow⟩ := h
    obtain ⟨f, -, rfl⟩ := Option.map_eq_some_iff.mp hrow
    exact ⟨e, List.mem_of_mem_filter he, rfl, rfl, rfl, rfl⟩

/-- The index of the row at the cursor in the whole list. -/
def rowIndex (s : Ui) : ℕ :=
  s.mw.page * s.mw.bodyLen + s.cursorI

theorem exists_row_at_cursor
    {config : View.Config} {s : Ui} (hshows : Shows config s) (hentries : s.mw.ctxType = .entries)
    (hcursor : s.cursorI ≤ s.contentBwMax) :
    s.cursorI < s.mw.bodyLen ∧
      ∃ row, (entryRows config s.mw.ctxId s.mw.db)[rowIndex s]? = some row ∧
        (s.mw.lv s.cursorI).id = toInt row.entryID := by
  have hlisting : pageRows config s s.mw.db =
      (page (entryRows config s.mw.ctxId s.mw.db) s.mw.bodyLen s.mw.page).map EntryRow.item := by
    rw [pageRows, hentries]
    rfl
  have hlength := hshows.length
  rw [hlisting, List.length_map, length_page] at hlength
  have hlt : s.cursorI < s.mw.bodyLen := by omega
  have hget : (pageRows config s s.mw.db)[s.cursorI]? = some (s.mw.lv s.cursorI) := by
    rw [← hshows.rows, List.getElem?_map, List.getElem?_range (Nat.lt_succ_of_le hcursor)]
    rfl
  rw [hlisting, List.getElem?_map, getElem?_page hlt] at hget
  obtain ⟨row, hrow, hitem⟩ := Option.map_eq_some_iff.mp hget
  refine ⟨hlt, row, hrow, ?_⟩
  rw [← hitem]
  rfl

/-! ## Selecting -/

/-- The database after a key that pipes from an entry list. -/
theorem db_of_step
    {config : View.Config} {s t : Ui} {k : View.Key} (hk : k = .select ∨ k = .download)
    (hentries : s.mw.ctxType = .entries) (hlt : s.cursorI < s.mw.bodyLen)
    (ht : step config s (.key k) = some t) :
    t.mw.db = Cache.cacheWriteEntryField (s.mw.lv s.cursorI).id s.mw.db := by
  have hid : idAtCursor s = some (s.mw.lv s.cursorI).id := if_pos hlt
  obtain ⟨r, hr, hafter⟩ := Option.bind_eq_some_iff.mp ht
  have hr' : r =
      (View.orFeeds config (View.pipeFields config (s.mw.lv s.cursorI).id s), .update) := by
    rcases hk with rfl | rfl
    · rw [View.processKey, View.selectItem, hid, hentries] at hr
      exact (Option.some.inj hr).symm
    · rw [View.processKey, View.downloadItem, hid, hentries] at hr
      exact (Option.some.inj hr).symm
  rw [Program.db_afterKey hafter, hr', Program.db_orFeeds]
  rfl

/-- The entry is marked as read, and nothing else is changed. -/
structure MarksRead (e : Entry) (db db' : Db) : Prop where
  feed : db'.feed = db.feed
  entry : db'.entry.rows = db.entry.rows.map fun x => if x = e then markRead x else x

/-- What `h` pipes is the text of the field of the entry at the cursor. -/
structure PipesRow (wctomb : UInt32 → CStr) (config : View.Config) (g : Globals) (s : Ui)
    (e : Entry) : Prop where
  mem : e ∈ s.mw.db.entry.rows
  row : ∃ row, (entryRows config s.mw.ctxId s.mw.db)[rowIndex s]? = some row ∧ IsRowOf row e
  select : piped wctomb g s .select =
    some ⟨g.config.pager, fieldText g.config.htmlPager .all e⟩
  download : piped wctomb g s .download =
    some ⟨g.config.downloader, fieldText g.config.htmlPager .url e⟩
  marks : ∀ k, k = .select ∨ k = .download → ∀ t, step config s (.key k) = some t →
    MarksRead e s.mw.db t.mw.db

/-- In an entry list that is shown as it is, both keys pipe the entry at the
cursor, to the pager as a page and to the downloader as its link, and mark that
entry alone as read. -/
theorem shown_row_is_piped
    (wctomb : UInt32 → CStr) {config : View.Config} (g : Globals) {s : Ui}
    (hshows : Shows config s) (hentries : s.mw.ctxType = .entries)
    (hcursor : s.cursorI ≤ s.contentBwMax)
    (hids : ∀ e ∈ s.mw.db.entry.rows, -2 ^ 31 ≤ e.entryID ∧ e.entryID < 2 ^ 31) :
    ∃ e, PipesRow wctomb config g s e := by
  obtain ⟨hlt, row, hrow, hid⟩ := exists_row_at_cursor hshows hentries hcursor
  obtain ⟨e, he, hrowOf⟩ := exists_isRowOf (List.mem_of_getElem? hrow)
  have hfits := hids e he
  rw [hrowOf.2.2.2, toInt_of_fits hfits.1 hfits.2] at hid
  have hcursorId : idAtCursor s = some e.entryID := by
    rw [← hid]
    exact if_pos hlt
  refine ⟨e, he, ⟨row, hrow, hrowOf⟩, ?_, ?_, ?_⟩
  · rw [piped, hentries, hcursorId, Option.map_some, pipeEntry, pipeFields,
      (cacheWriteEntryField_of_mem _ _ he).1]
  · rw [piped, hentries, hcursorId, Option.map_some, downloadEntry, pipeFields,
      (cacheWriteEntryField_of_mem _ _ he).1]
  · intro k hk t ht
    obtain ⟨-, hfeed, hentry⟩ := cacheWriteEntryField_of_mem g.config.htmlPager .all he
    rw [db_of_step hk hentries hlt ht, hid]
    exact ⟨hfeed, hentry⟩

/-- The first of two unread entries is listed and piped. -/
theorem unread_row_is_piped :
    ∃ s t, View.startUi View.unreadOnly View.twoUnread View.smallScreen View.blankLines [] none =
        some s ∧
      step View.unreadOnly s (.key .select) = some t ∧
      ∃ e, PipesRow (fun _ => []) View.unreadOnly (Program.beeping 0).globals t e := by
  have hshows : ((View.startUi View.unreadOnly View.twoUnread View.smallScreen View.blankLines []
      none).bind fun s => (step View.unreadOnly s (.key .select)).map fun t =>
        decide (Shows View.unreadOnly t ∧ t.mw.ctxType = .entries ∧ t.cursorI ≤ t.contentBwMax ∧
          ∀ e ∈ t.mw.db.entry.rows, -2 ^ 31 ≤ e.entryID ∧ e.entryID < 2 ^ 31)) = some true := by
    decide +kernel
  obtain ⟨s, hs, hshows⟩ := Option.bind_eq_some_iff.mp hshows
  obtain ⟨t, ht, hshows⟩ := Option.map_eq_some_iff.mp hshows
  obtain ⟨hshown, hentries, hcursor, hids⟩ := of_decide_eq_true hshows
  exact ⟨s, t, hs, ht, shown_row_is_piped _ _ hshown hentries hcursor hids⟩

end Pager
end Newsbaoter
