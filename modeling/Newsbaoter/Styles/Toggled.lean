import Newsbaoter.View.Shows

/-!
# A mark and the rows of its list

The list of a feed with its read entries has the same rows after `toggle_read` has
changed a mark: only the row of that entry is marked otherwise, and it stays where it
is.
-/

namespace Newsbaoter
namespace Styles

open Newsbaoter.Cache (Db Entry)
open Newsbaoter.View (Config EntryRow Listview Ui entryRows newestFirst pageRows)

/-- The result row of an entry in the list of its feed. -/
def rowOf (e : Entry) : EntryRow where
  title := e.title
  viewed := e.viewed
  pubDate := e.pubDate
  entryID := e.entryID
  feedTitle := none

/-- The row with the other mark, if it is that of `id`. -/
def toggled (id : ℤ) (row : EntryRow) : EntryRow :=
  if row.entryID = id then { row with viewed := if row.viewed = 0 then 1 else 0 } else row

theorem pubDate_toggled (id : ℤ) (row : EntryRow) : (toggled id row).pubDate = row.pubDate := by
  rw [toggled]
  split
  · rfl
  · rfl

/-- Marks do not matter to the order. -/
theorem newestFirst_map_toggled (id : ℤ) (rows : List EntryRow) :
    newestFirst (rows.map (toggled id)) = (newestFirst rows).map (toggled id) := by
  symm
  refine List.map_insertionSort _ _ (toggled id) rows ?_
  intro a _ b _
  rw [pubDate_toggled, pubDate_toggled]

/-- The list of a feed with its read entries. -/
theorem entryRows_of_pos
    {config : Config} (hread : config.showReadEntries = true) {feedid : ℤ} (hfeed : 0 < feedid)
    (db : Db) :
    entryRows config feedid db =
      newestFirst ((db.entry.rows.filter fun e => e.feedID == feedid).map rowOf) := by
  rw [entryRows, if_pos hfeed]
  simp only [hread, Bool.true_or, Bool.and_true]
  rfl

theorem entryRows_toggle
    {config : Config} (hread : config.showReadEntries = true) {feedid : ℤ} (hfeed : 0 < feedid)
    (id : ℤ) (db : Db) :
    entryRows config feedid (Cache.cacheToggleReadEntry id (-1) db) =
      (entryRows config feedid db).map (toggled id) := by
  rw [entryRows_of_pos hread hfeed, entryRows_of_pos hread hfeed, ← newestFirst_map_toggled]
  refine congrArg newestFirst ?_
  rw [Cache.cacheToggleReadEntry]
  simp only [Support.KeyedTable.rows_updateWhere, List.filter_map, List.map_map]
  have hlisted : (fun e : Entry => e.feedID == feedid) ∘ (fun e => if e.entryID == id then
      { e with viewed := if (-1 : ℤ) < 0 then (if e.viewed = 0 then 1 else 0) else -1 } else e) =
      fun e => e.feedID == feedid := by
    funext e
    rw [Function.comp_apply]
    split
    · rfl
    · rfl
  rw [hlisted]
  refine List.map_congr_left fun e _ => ?_
  rw [Function.comp_apply, Function.comp_apply, toggled]
  by_cases hid : e.entryID = id
  · rw [if_pos (beq_iff_eq.mpr hid), if_pos (show (rowOf e).entryID = id from hid)]
    rfl
  · rw [if_neg (fun h => hid (beq_iff_eq.mp h)), if_neg (show ¬(rowOf e).entryID = id from hid)]

/-- No entry is listed twice. -/
theorem nodup_entryRows
    {config : Config} (hread : config.showReadEntries = true) {feedid : ℤ} (hfeed : 0 < feedid)
    (db : Db) :
    ((entryRows config feedid db).map EntryRow.entryID).Nodup := by
  have hids : (db.entry.rows.map Entry.entryID).Nodup :=
    List.pairwise_map.mpr (db.entry.sorted.imp fun h => ne_of_lt h)
  have hlisted : (((db.entry.rows.filter fun e => e.feedID == feedid).map rowOf).map
      EntryRow.entryID).Nodup := by
    rw [List.map_map]
    exact hids.sublist (List.filter_sublist.map Entry.entryID)
  rw [entryRows_of_pos hread hfeed, newestFirst]
  exact ((List.perm_insertionSort _ _).map EntryRow.entryID).nodup_iff.mpr hlisted

/-- Every id that a list can show fits into an `int`. -/
def IdsFit (db : Db) : Prop :=
  ∀ e ∈ db.entry.rows, -2 ^ 31 ≤ e.entryID ∧ e.entryID < 2 ^ 31

instance (db : Db) : Decidable (IdsFit db) :=
  inferInstanceAs (Decidable (∀ _ ∈ _, _))

/-- Toggling the entry of a row leaves the other rows of the page as they are. -/
theorem pageRows_toggle_other
    {config : Config} {s : Ui} (hctx : s.mw.ctxType = .entries)
    (hread : config.showReadEntries = true) (hfeed : 0 < s.mw.ctxId) (hids : IdsFit s.mw.db)
    {c i : ℕ} {focus row : Listview} (hc : (pageRows config s s.mw.db)[c]? = some focus)
    (hi : (pageRows config s s.mw.db)[i]? = some row) (hne : i ≠ c) :
    (pageRows config s (Cache.cacheToggleReadEntry focus.id (-1) s.mw.db))[i]? = some row := by
  have hpage : ∀ db, pageRows config s db = (View.entryPage config s.mw.ctxId db
      (s.mw.page * s.mw.bodyLen) s.mw.bodyLen).map EntryRow.item := by
    intro db
    rw [pageRows, hctx]
    rfl
  rw [hpage, View.entryPage, List.getElem?_map] at hc hi ⊢
  obtain ⟨rowC, hrowC, rfl⟩ := Option.map_eq_some_iff.mp hc
  obtain ⟨rowI, hrowI, rfl⟩ := Option.map_eq_some_iff.mp hi
  have hfits : (EntryRow.item rowC).id = rowC.entryID := by
    obtain ⟨e, he, hid⟩ := View.exists_entry_of_mem_entryRows
      (List.mem_of_mem_drop (List.mem_of_mem_take (List.mem_of_getElem? hrowC)))
    have hfit := hids e he
    rw [← hid] at hfit
    exact toInt_of_fits hfit.1 hfit.2
  have hother : rowI.entryID ≠ rowC.entryID := by
    have hsub : ((((entryRows config s.mw.ctxId s.mw.db).drop (s.mw.page * s.mw.bodyLen)).take
        s.mw.bodyLen).map EntryRow.entryID).Nodup :=
      (nodup_entryRows hread hfeed s.mw.db).sublist
        (((List.take_sublist _ _).trans (List.drop_sublist _ _)).map _)
    intro hsame
    refine hne ((List.getElem?_inj ?_ hsub).mp ?_)
    · rw [List.length_map]
      exact (List.getElem?_eq_some_iff.mp hrowI).1
    · rw [List.getElem?_map, List.getElem?_map, hrowI, hrowC, Option.map_some, Option.map_some,
        hsame]
  rw [entryRows_toggle hread hfeed, ← List.map_drop, ← List.map_take, List.getElem?_map, hrowI,
    hfits, Option.map_some, Option.map_some, toggled, if_neg hother]

end Styles
end Newsbaoter
