import Newsbaoter.View.Settled

/-!
# Repaints between two list updates

`print_crop` rewrites the row it prints, and a row that counts as filled on one
repaint has to count as filled on the next.  So whatever is repainted, and
however often, `content_bw_max` is the last row that the latest successful list
update produced.
-/

namespace Newsbaoter
namespace View

open Newsbaoter.Support
open Newsbaoter.Cache (Db)

/-- What happens to the lines while the terminal keeps its size: a repaint of
the view, a repaint of the cursor row wherever the cursor is, and a list update
for whatever page the window is at by then. -/
inductive Repaint
  | view
  | focusItem (cursor : ℕ)
  | list (ctxType : ListContext) (ctxId : ℤ) (page : ℕ) (db : Db)

/-- The window at another page. -/
def atPage (ctxType : ListContext) (ctxId : ℤ) (page : ℕ) (db : Db) (s : Ui) : Ui :=
  { s with
    mw.ctxType := ctxType
    mw.ctxId := ctxId
    mw.page := page
    mw.db := db }

def Repaint.step (config : Config) (s : Ui) : Repaint → Option Ui
  | .view => updateView config s
  | .focusItem cursor => restyleFocusItem { s with cursorI := cursor }
  | .list ctxType ctxId page db =>
      some (requestListUpdate config (atPage ctxType ctxId page db s)).1

/-- The rows of the latest list update that found some. -/
def Repaint.relist (config : Config) (bodyLen : ℕ) (rows : List Listview) :
    Repaint → List Listview
  | .list ctxType ctxId page db =>
      let found := listing config db ctxType ctxId page bodyLen
      if found.isEmpty then rows else found
  | _ => rows

def latestRows (config : Config) (bodyLen : ℕ) (es : List Repaint) : List Listview :=
  es.foldl (Repaint.relist config bodyLen) []

/-- The invariant: the body is painted like the rows, if there are any yet. -/
structure Filled (bodyLen : ℕ) (s : Ui) (rows : List Listview) : Prop extends Ready s where
  bodyLen_eq : s.mw.bodyLen = bodyLen
  rows_le : rows.length ≤ bodyLen
  painted : rows ≠ [] → Painted s.mw.body s.mw.width bodyLen rows.length

theorem filled_of_ready {s : Ui} (h : Ready s) : Filled s.mw.bodyLen s [] where
  toReady := h
  bodyLen_eq := rfl
  rows_le := Nat.zero_le _
  painted := fun hrows => absurd rfl hrows

variable {config : Config} {bodyLen : ℕ} {s : Ui} {rows : List Listview}

theorem Filled.width_pos (h : Filled bodyLen s rows) : 0 < s.mw.width :=
  Nat.lt_of_lt_of_le (by decide) h.width

/-- Painting rows anew, and the cursor, do not matter to the invariant. -/
theorem Filled.repaint
    (h : Filled bodyLen s rows) {body : Cells} (last cursor : ℕ)
    (hpainted : rows ≠ [] → Painted body s.mw.width bodyLen rows.length) :
    Filled bodyLen { s with mw.body := body, contentBwMax := last, cursorI := cursor } rows where
  bwLen := h.bwLen
  bodyLen_pos := h.bodyLen_pos
  width := h.width
  newsize := h.newsize
  bodyLen_eq := h.bodyLen_eq
  rows_le := h.rows_le
  painted := hpainted

theorem Filled.restyleFocusItem
    {t : Ui} {cursor : ℕ} (h : Filled bodyLen s rows)
    (hstep : restyleFocusItem { s with cursorI := cursor } = some t) : Filled bodyLen t rows := by
  rw [View.restyleFocusItem] at hstep
  split at hstep
  · next hcursor =>
      obtain rfl := Option.some.inj hstep
      apply h.repaint s.contentBwMax cursor
      intro hrows
      exact (painted_printCrop (h.painted hrows) h.width_pos (h.bodyLen_eq ▸ hcursor.2)).2
  · cases hstep

/-- A repaint of the view keeps the rows, and finds the last of them. -/
theorem Filled.updateView
    (config : Config) (h : Filled bodyLen s rows) :
    ∃ t, updateView config s = some t ∧ Filled bodyLen t rows ∧
      (rows ≠ [] → t.contentBwMax + 1 = rows.length) := by
  have hdrawn := fun hrows => painted_drawRows s.contentBwMax (h.painted hrows) h.width_pos
    (Nat.zero_add bodyLen) h.rows_le
  rw [← h.bodyLen_eq] at hdrawn
  refine ⟨drawLines s, h.updateView_eq, ?_, ?_⟩
  · apply h.repaint _ s.cursorI
    intro hrows
    rw [← h.bodyLen_eq]
    exact (hdrawn hrows).1
  · intro hrows
    have hpos : 0 < rows.length := List.length_pos_iff.mpr hrows
    have hlast := (hdrawn hrows).2
    rw [if_pos hpos] at hlast
    have hmax : (drawLines s).contentBwMax = rows.length - 1 := hlast
    rw [hmax]
    exact Nat.sub_add_cancel hpos

/-- A list update paints the rows it finds, and leaves the others if it finds
none. -/
theorem Filled.list
    (h : Filled bodyLen s rows) (ctxType : ListContext) (ctxId : ℤ) (page : ℕ) (db : Db) :
    Filled bodyLen (requestListUpdate config (atPage ctxType ctxId page db s)).1
      (Repaint.relist config bodyLen rows (.list ctxType ctxId page db)) := by
  have hready : Ready (atPage ctxType ctxId page db s) :=
    ⟨h.bwLen, h.bodyLen_pos, h.width, h.newsize⟩
  have hpage : pageRows config (atPage ctxType ctxId page db s) db =
      listing config db ctxType ctxId page bodyLen :=
    congrArg (listing config db ctxType ctxId page) h.bodyLen_eq
  rw [Repaint.relist]
  split
  · next hempty =>
      have hnone : pageRows config (atPage ctxType ctxId page db s) db = [] :=
        hpage.trans (List.isEmpty_iff.mp hempty)
      have hsame : (requestListUpdate config (atPage ctxType ctxId page db s)).1.mw =
          (atPage ctxType ctxId page db s).mw := by
        rw [requestListUpdate, cacheGenLines_of_nil hnone]
      refine ⟨⟨h.bwLen, h.bodyLen_pos, h.width, h.newsize⟩, h.bodyLen_eq, h.rows_le, ?_⟩
      rw [hsame]
      exact h.painted
  · next hsome =>
      have hrows : pageRows config (atPage ctxType ctxId page db s) db ≠ [] := by
        rw [hpage]
        simpa using hsome
      have hloaded : Loaded (requestListUpdate config (atPage ctxType ctxId page db s)).1 :=
        hready.loaded_requestListUpdate hrows
      have hshown : (requestListUpdate config (atPage ctxType ctxId page db s)).1.shown.rows =
          listing config db ctxType ctxId page bodyLen := hpage
      have hsize : (requestListUpdate config (atPage ctxType ctxId page db s)).1.mw.bodyLen =
          bodyLen := h.bodyLen_eq
      have hle := hloaded.rows_le
      have hpainted := hloaded.painted
      rw [hshown, hsize] at hle hpainted
      exact ⟨hloaded.toReady, hsize, hle, fun _ => hpainted⟩

theorem Filled.step
    {t : Ui} (h : Filled bodyLen s rows) (e : Repaint) (hstep : e.step config s = some t) :
    Filled bodyLen t (e.relist config bodyLen rows) := by
  cases e with
  | view =>
      obtain ⟨u, hu, hfilled, -⟩ := h.updateView config
      obtain rfl := Option.some.inj (hu.symm.trans hstep)
      exact hfilled
  | focusItem cursor => exact h.restyleFocusItem hstep
  | list ctxType ctxId page db =>
      obtain rfl := Option.some.inj hstep
      exact h.list ctxType ctxId page db

/-- Whatever was in the buffers before, and however often rows were repainted
since the latest list update that found rows: a row counts as filled just if it
is one of those rows, and `update_view` sets `content_bw_max` to the last. -/
theorem contentBwMax_after_repaints
    (config : Config) {s t : Ui} (hready : Ready s) {es : List Repaint}
    (hruns : runs (Repaint.step config) s es = some t)
    (hlisted : latestRows config s.mw.bodyLen es ≠ []) :
    (∀ i < s.mw.bodyLen, (printCrop t.mw.body (lineAt t.mw.width i) t.mw.width).2 =
        decide (i < (latestRows config s.mw.bodyLen es).length)) ∧
      ∃ u, updateView config t = some u ∧
        u.contentBwMax + 1 = (latestRows config s.mw.bodyLen es).length := by
  have hfilled : Filled s.mw.bodyLen t (latestRows config s.mw.bodyLen es) :=
    refines_runs (R := Filled s.mw.bodyLen) (fun _ _ e _ h hstep => h.step e hstep)
      (filled_of_ready hready) hruns
  obtain ⟨u, hu, -, hlast⟩ := hfilled.updateView config
  refine ⟨?_, u, hu, hlast hlisted⟩
  intro i hi
  exact (painted_printCrop (hfilled.painted hlisted) hfilled.width_pos hi).1

/-- The aggregate row and the feed are listed and painted twice; then a page
without rows is asked for, and the row at the cursor is painted once more. -/
def paintedTwice : List Repaint :=
  [.list .feeds 0 0 twoUnread, .view, .focusItem 1, .view, .list .feeds 0 7 twoUnread,
    .focusItem 0]

theorem contentBwMax_painted_twice :
    ∃ t, runs (Repaint.step unreadOnly) (laidOut twoUnread smallScreen blankLines) paintedTwice =
        some t ∧
      ∃ u, updateView unreadOnly t = some u ∧ u.contentBwMax = 1 := by
  have hready : Ready (laidOut twoUnread smallScreen blankLines) :=
    ⟨rfl, smallScreen.bodyHeight_pos, by decide, rfl⟩
  have hruns : (runs (Repaint.step unreadOnly) (laidOut twoUnread smallScreen blankLines)
      paintedTwice).isSome = true := by
    decide +kernel
  have hrows : (latestRows unreadOnly 2 paintedTwice).length = 2 := by
    decide +kernel
  obtain ⟨t, ht⟩ := Option.isSome_iff_exists.mp hruns
  have hlisted : latestRows unreadOnly 2 paintedTwice ≠ [] :=
    List.ne_nil_of_length_pos (by rw [hrows]; decide)
  obtain ⟨-, u, hu, hlast⟩ := contentBwMax_after_repaints unreadOnly hready ht hlisted
  exact ⟨t, ht, u, hu, Nat.succ.inj (hlast.trans hrows)⟩

end View
end Newsbaoter
