import Newsbaoter.View.Inside
import Newsbaoter.View.Painted

/-!
# A screen that shows its listing

After a request that found rows, the lines are loaded: `lv` holds the rows and
the body is painted like them.  The next `update_view` settles the screen, which
makes `content_bw_max` the last row.
-/

namespace Newsbaoter
namespace View

open Newsbaoter.Support
open Newsbaoter.Cache (Db)

/-! ## Repainting a painted body -/

/-- Printing one of the rows again keeps the body painted, and tells whether the
row is written. -/
theorem painted_printCrop
    {mem : Cells} {width bodyLen k i : ℕ} (h : Painted mem width bodyLen k)
    (hwidth : 0 < width) (hi : i < bodyLen) :
    (printCrop mem (lineAt width i) width).2 = decide (i < k) ∧
      Painted (printCrop mem (lineAt width i) width).1 width bodyLen k := by
  have hother : ∀ j ≠ i, ∀ m < width,
      (printCrop mem (lineAt width i) width).1 (lineAt width j + m) =
        mem (lineAt width j + m) :=
    fun _ hj _ hm => printCrop_other mem hj hm
  have hblank : ∀ j ≠ i, Blank mem (lineAt width j) width →
      Blank (printCrop mem (lineAt width i) width).1 (lineAt width j) width := by
    intro j hj hold
    have hfirst := hother j hj 0 hwidth
    rw [Int.natCast_zero, Int.add_zero] at hfirst
    rcases hold with hzero | hspaces
    · left
      rw [hfirst, hzero]
    · right
      intro m hm
      rw [hother j hj m hm, hspaces m hm]
  by_cases hik : i < k
  · obtain ⟨hreport, hwritten⟩ := printCrop_written (h.written i hi hik)
    refine ⟨by rw [hreport, decide_eq_true hik], ?_, ?_⟩
    · intro j hj hjk
      by_cases hji : j = i
      · rw [hji]
        exact hwritten
      · exact (h.written j hj hjk).congr (hother j hji)
    · intro j hj hjk
      exact hblank j (by omega) (h.blank j hj hjk)
  · obtain ⟨hreport, hrow⟩ := printCrop_blank (h.blank i hi (Nat.le_of_not_lt hik))
    refine ⟨by rw [hreport, decide_eq_false hik], ?_, ?_⟩
    · intro j hj hjk
      exact (h.written j hj hjk).congr (hother j (by omega))
    · intro j hj hjk
      by_cases hji : j = i
      · rw [hji]
        exact hrow
      · exact hblank j hji (h.blank j hj hjk)

/-- The loop of `update_view` ends with the index of the last written row. -/
theorem painted_drawRows
    {mem : Cells} {width bodyLen k i n : ℕ} (last : ℕ) (h : Painted mem width bodyLen k)
    (hwidth : 0 < width) (hn : i + n = bodyLen) (hk : k ≤ bodyLen) :
    Painted (drawRows width i n (mem, last)).1 width bodyLen k ∧
      (drawRows width i n (mem, last)).2 = if i < k then k - 1 else last := by
  induction n generalizing mem i last with
  | zero =>
      refine ⟨h, ?_⟩
      rw [if_neg (by omega)]
      rfl
  | succ n ih =>
      obtain ⟨hreport, hpainted⟩ := painted_printCrop h hwidth (i := i) (by omega)
      rw [drawRows, hreport]
      obtain ⟨hrest, hlast⟩ := ih (if decide (i < k) then i else last) hpainted
        (i := i + 1) (by omega)
      refine ⟨hrest, ?_⟩
      dsimp only
      rw [hlast]
      by_cases hik : i < k
      · rw [if_pos hik]
        split
        · rfl
        · rw [decide_eq_true hik, if_pos rfl]
          omega
      · rw [if_neg hik, if_neg (by omega), decide_eq_false hik]
        rfl

/-! ## The invariant -/

/-- No resize is pending, and a row shows a digit of its number. -/
structure Ready (s : Ui) : Prop where
  bwLen : s.bwLen = s.mw.bodyLen
  bodyLen_pos : 0 < s.mw.bodyLen
  width : 3 ≤ s.mw.width
  newsize : s.newsize = false

/-- The lines are those of the current listing. -/
structure Loaded (s : Ui) : Prop extends Ready s where
  ctxType : s.shown.ctxType = s.mw.ctxType
  ctxId : s.shown.ctxId = s.mw.ctxId
  page : s.shown.page = s.mw.page
  rows_pos : 0 < s.shown.rows.length
  rows_le : s.shown.rows.length ≤ s.mw.bodyLen
  lv : ∀ i (hi : i < s.shown.rows.length), s.mw.lv i = s.shown.rows[i]
  painted : Painted s.mw.body s.mw.width s.mw.bodyLen s.shown.rows.length

/-- The cursor and `content_bw_max` agree with the lines. -/
structure Settled (s : Ui) : Prop extends Loaded s where
  last : s.contentBwMax + 1 = s.shown.rows.length
  cursorI : s.cursorI ≤ s.contentBwMax

theorem Settled.cursor_lt {s : Ui} (h : Settled s) : s.cursorI < s.shown.rows.length := by
  have hlast := h.last
  have hcursor := h.cursorI
  omega

theorem Loaded.inBounds
    {s : Ui} (h : Loaded s) (hcursor : s.cursorI < s.mw.bodyLen) : InBounds s :=
  ⟨h.bwLen, hcursor⟩

theorem Settled.inBounds {s : Ui} (h : Settled s) : InBounds s :=
  h.toLoaded.inBounds (Nat.lt_of_lt_of_le h.cursor_lt h.rows_le)

/-- What is painted and where the cursor is does not matter to the lines, as
long as the rows stay painted. -/
theorem Loaded.repaint
    {s : Ui} (h : Loaded s) {body : Cells} (last cursor backup : ℕ)
    (hpainted : Painted body s.mw.width s.mw.bodyLen s.shown.rows.length) :
    Loaded { s with
      mw.body := body
      contentBwMax := last
      cursorI := cursor
      backupCursorI := backup } where
  bwLen := h.bwLen
  bodyLen_pos := h.bodyLen_pos
  width := h.width
  newsize := h.newsize
  ctxType := h.ctxType
  ctxId := h.ctxId
  page := h.page
  rows_pos := h.rows_pos
  rows_le := h.rows_le
  lv := h.lv
  painted := hpainted

theorem Loaded.withCursor {s : Ui} (h : Loaded s) (c : ℕ) : Loaded { s with cursorI := c } :=
  h.repaint s.contentBwMax c s.backupCursorI h.painted

theorem Loaded.width_pos {s : Ui} (h : Loaded s) : 0 < s.mw.width :=
  Nat.lt_of_lt_of_le (by decide) h.width

/-- Nor does a change of the database, until the next request. -/
theorem Loaded.withDb {s : Ui} (h : Loaded s) (db : Db) : Loaded { s with mw.db := db } where
  bwLen := h.bwLen
  bodyLen_pos := h.bodyLen_pos
  width := h.width
  newsize := h.newsize
  ctxType := h.ctxType
  ctxId := h.ctxId
  page := h.page
  rows_pos := h.rows_pos
  rows_le := h.rows_le
  lv := h.lv
  painted := h.painted

/-- Styling the row at the cursor keeps the lines as they are. -/
theorem Loaded.restyled
    {s : Ui} (h : Loaded s) (hcursor : s.cursorI < s.mw.bodyLen) : Loaded (restyled s) :=
  h.repaint s.contentBwMax s.cursorI s.backupCursorI
    (painted_printCrop h.painted h.width_pos hcursor).2

theorem Settled.restyled {s : Ui} (h : Settled s) : Settled (restyled s) where
  toLoaded := h.toLoaded.restyled h.inBounds.cursorI
  last := h.last
  cursorI := h.cursorI

theorem Ready.updateView_eq
    {config : Config} {s : Ui} (h : Ready s) : updateView config s = some (drawLines s) := by
  rw [updateView, h.newsize, Option.bind_eq_bind]
  exact if_pos (Nat.le_of_eq h.bwLen.symm)

/-- Repainting loaded lines settles the screen, if the cursor has a row. -/
theorem Loaded.settled_updateView
    {config : Config} {s : Ui} (h : Loaded s) (hcursor : s.cursorI < s.shown.rows.length) :
    ∃ t, updateView config s = some t ∧ Settled t := by
  obtain ⟨hpainted, hlast⟩ := painted_drawRows s.contentBwMax h.painted h.width_pos
    (Nat.zero_add s.mw.bodyLen) h.rows_le
  rw [if_pos h.rows_pos] at hlast
  have hmax : (drawLines s).contentBwMax = s.shown.rows.length - 1 := hlast
  refine ⟨drawLines s, h.updateView_eq, h.repaint _ s.cursorI s.backupCursorI hpainted, ?_, ?_⟩
  · rw [hmax]
    exact Nat.sub_add_cancel h.rows_pos
  · rw [hmax]
    exact Nat.le_sub_one_of_lt hcursor

/-! ## Requests -/

/-- The rows of the current page if the database is `db`. -/
def pageRows (config : Config) (s : Ui) (db : Db) : List Listview :=
  listing config db s.mw.ctxType s.mw.ctxId s.mw.page s.mw.bodyLen

/-- A request that finds rows loads them. -/
theorem Ready.loaded_requestListUpdate
    {config : Config} {s : Ui} (h : Ready s) (hrows : pageRows config s s.mw.db ≠ []) :
    Loaded (requestListUpdate config s).1 where
  bwLen := h.bwLen
  bodyLen_pos := h.bodyLen_pos
  width := h.width
  newsize := h.newsize
  ctxType := rfl
  ctxId := rfl
  page := rfl
  rows_pos := List.length_pos_iff.mpr hrows
  rows_le := length_listing_le config s.mw.db s.mw.ctxType s.mw.ctxId s.mw.page h.bodyLen_pos
  lv := (cacheGenLines_of_ne_nil h.width hrows).2.2
  painted := (cacheGenLines_of_ne_nil h.width hrows).2.1

theorem Ready.requestListUpdate_snd
    {config : Config} {s : Ui} (h : Ready s) :
    (requestListUpdate config s).2 = true ↔ pageRows config s s.mw.db = [] := by
  constructor
  · intro hnone
    by_contra hrows
    have hfound : (requestListUpdate config s).2 = false :=
      (cacheGenLines_of_ne_nil h.width hrows).1
    rw [hfound] at hnone
    cases hnone
  · intro hrows
    rw [requestListUpdate, cacheGenLines_of_nil hrows]

/-- The screen after a request, whether or not it found rows. -/
structure Reloaded (s : Ui) : Prop extends Ready s where
  loaded : s.shown.rows ≠ [] → Loaded s

theorem Ready.reloaded_requestListUpdate
    (config : Config) {s : Ui} (h : Ready s) : Reloaded (requestListUpdate config s).1 :=
  ⟨⟨h.bwLen, h.bodyLen_pos, h.width, h.newsize⟩, h.loaded_requestListUpdate⟩

theorem Loaded.reloaded {s : Ui} (h : Loaded s) : Reloaded s :=
  ⟨h.toReady, fun _ => h⟩

theorem Ready.restyled {s : Ui} (h : Ready s) : Ready (restyled s) :=
  ⟨h.bwLen, h.bodyLen_pos, h.width, h.newsize⟩

theorem Reloaded.restyled
    {s : Ui} (h : Reloaded s) (hcursor : s.cursorI < s.mw.bodyLen) : Reloaded (restyled s) :=
  ⟨h.toReady.restyled, fun hrows => (h.loaded hrows).restyled hcursor⟩

/-! ## After a change of the database -/

theorem Ready.withDb {s : Ui} (h : Ready s) (db : Db) : Ready { s with mw.db := db } :=
  ⟨h.bwLen, h.bodyLen_pos, h.width, h.newsize⟩

theorem Ready.listAfter_snd
    {config : Config} {change : Db → Db} {s : Ui} (h : Ready s) :
    (listAfter config change s).2 = true ↔ pageRows config s (change s.mw.db) = [] :=
  (h.withDb (change s.mw.db)).requestListUpdate_snd

theorem Ready.reloaded_listAfter
    {config : Config} {change : Db → Db} {s : Ui} (h : Ready s) :
    Reloaded (listAfter config change s).1 :=
  (h.withDb (change s.mw.db)).reloaded_requestListUpdate config

theorem Ready.reloaded_viewToFeeds
    (config : Config) {s : Ui} (h : Ready s) : Reloaded (viewToFeeds config s) := by
  have hready : Ready (toFeeds s) := ⟨h.bwLen, h.bodyLen_pos, h.width, h.newsize⟩
  exact hready.reloaded_requestListUpdate config

end View
end Newsbaoter
