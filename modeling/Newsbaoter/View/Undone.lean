import Newsbaoter.View.Position
import Newsbaoter.View.Reprint
import Newsbaoter.View.Visit

/-!
# Steps that are undone

At the end of a list `next_item` turns the page and turns it back, and
`select_item` opens an empty list and goes back to the feeds.  Both leave the
screen as it was, also the second, which lists the feeds again.
-/

namespace Newsbaoter
namespace View

open Newsbaoter.Support
open Newsbaoter.Cache (Db Refresh)

/-! ## The window and the context -/

/-- The windows and the lines fit each other, and the feed list is that of all
feeds. -/
structure Windowed (s : Ui) : Prop where
  bwLen : s.bwLen = s.mw.bodyLen
  bodyLen_pos : 0 < s.mw.bodyLen
  ctxId : s.mw.ctxType = .feeds → s.mw.ctxId = 0

theorem Windowed.nextRow
    (config : Config) {s : Ui} (h : Windowed s) : Windowed (nextRow config s).1 := by
  rw [View.nextRow]
  split
  · exact ⟨h.bwLen, h.bodyLen_pos, h.ctxId⟩
  · split
    · dsimp only
      split
      · exact ⟨h.bwLen, h.bodyLen_pos, h.ctxId⟩
      · exact ⟨h.bwLen, h.bodyLen_pos, h.ctxId⟩
    · exact h

theorem Windowed.prevRow
    (config : Config) {s : Ui} (h : Windowed s) : Windowed (prevRow config s).1 := by
  rw [View.prevRow]
  split
  · exact ⟨h.bwLen, h.bodyLen_pos, h.ctxId⟩
  · split
    · exact ⟨h.bwLen, h.bodyLen_pos, h.ctxId⟩
    · exact h

theorem Windowed.viewToFeeds
    (config : Config) {s : Ui} (h : Windowed s) : Windowed (viewToFeeds config s) :=
  ⟨h.bwLen, h.bodyLen_pos, fun _ => rfl⟩

theorem Windowed.listAfter
    (config : Config) (change : Db → Db) {s : Ui} (h : Windowed s) :
    Windowed (listAfter config change s).1 :=
  ⟨h.bwLen, h.bodyLen_pos, h.ctxId⟩

theorem Windowed.restyled {s : Ui} (h : Windowed s) : Windowed (restyled s) :=
  ⟨h.bwLen, h.bodyLen_pos, h.ctxId⟩

theorem Handled.windowed
    {config : Config} {k : Key} {s t : Ui} (h : Handled config s k t) (hs : Windowed s) :
    Windowed t := by
  cases h with
  | same => exact hs
  | next => exact (hs.restyled.nextRow config).restyled
  | prev => exact (hs.restyled.prevRow config).restyled
  | row _ i => exact ⟨hs.bwLen, hs.bodyLen_pos, hs.ctxId⟩
  | listed _ change => exact hs.listAfter config change
  | focused _ change => exact (hs.listAfter config change).restyled
  | emptied hexit change => exact (hs.listAfter config change).viewToFeeds config
  | exited => exact ⟨hs.bwLen, hs.bodyLen_pos, fun _ => rfl⟩
  | opened id hfeeds => exact ⟨hs.bwLen, hs.bodyLen_pos, by rintro ⟨⟩⟩
  | missed id hfeeds => exact ⟨hs.bwLen, hs.bodyLen_pos, fun _ => rfl⟩
  | redrawn => exact ⟨hs.bwLen, hs.bodyLen_pos, hs.ctxId⟩

/-- A resize makes the windows and the lines as many as there is room for. -/
theorem Windowed.resizeMainwindow
    {s t : Ui} (h : Windowed s) (ht : resizeMainwindow s = some t) : Windowed t := by
  have hpos := s.terminal.bodyHeight_pos
  rw [View.resizeMainwindow] at ht
  split at ht
  · obtain ⟨u, hu, ht⟩ := Option.bind_eq_some_iff.mp ht
    cases ht
    obtain ⟨-, hu⟩ := Option.ite_none_right_eq_some.mp hu
    cases hu
    exact ⟨rfl, hpos, h.ctxId⟩
  · next hsame =>
      cases ht
      rw [not_or, not_not, not_not] at hsame
      exact ⟨h.bwLen.trans hsame.2, hpos, h.ctxId⟩

theorem Windowed.updateView
    {config : Config} {s t : Ui} (h : Windowed s) (ht : updateView config s = some t) :
    Windowed t := by
  have hdrawn : ∀ u : Ui, Windowed u →
      (if u.mw.bodyLen ≤ u.bwLen then some (drawLines u) else none) = some t → Windowed t := by
    intro u hu hdraw
    split at hdraw
    · cases hdraw
      exact ⟨hu.bwLen, hu.bodyLen_pos, hu.ctxId⟩
    · cases hdraw
  rw [View.updateView] at ht
  split at ht
  · obtain ⟨u, hu, ht⟩ := Option.bind_eq_some_iff.mp ht
    obtain ⟨v, hv, rfl⟩ := Option.map_eq_some_iff.mp hu
    have hresized := h.resizeMainwindow hv
    exact hdrawn (requestListUpdate config { v with newsize := false }).1
      ⟨hresized.bwLen, hresized.bodyLen_pos, hresized.ctxId⟩ ht
  · exact hdrawn s h ht

theorem windowed_step
    {config : Config} (s : Ui) (e : Event) (t : Ui) (h : Windowed s)
    (ht : step config s e = some t) : Windowed t := by
  cases e with
  | key k =>
      obtain ⟨r, hr, ht⟩ := Option.bind_eq_some_iff.mp ht
      have hprocessed := (handled_of_processKey hr).windowed h
      rw [afterKey] at ht
      split at ht
      · cases ht
        exact hprocessed
      · exact hprocessed.updateView ht
      · exact hprocessed.updateView ht
  | fetch rs ended =>
      rw [step, handleUrls] at ht
      split at ht
      · exact (h.listAfter config _).updateView ht
      · cases ht
        exact ⟨h.bwLen, h.bodyLen_pos, h.ctxId⟩
  | winch terminal fresh =>
      cases ht
      exact ⟨h.bwLen, h.bodyLen_pos, h.ctxId⟩

theorem windowed_startUi
    {config : Config} {db : Db} {terminal : Terminal} {fresh : Lines} {rs : List Refresh}
    {winch : Option (Terminal × Lines)} {s : Ui}
    (h : startUi config db terminal fresh rs winch = some s) : Windowed s := by
  rw [startUi, setupUi_eq, Option.bind_eq_bind, Option.bind_some] at h
  refine Windowed.updateView ?_ h
  cases winch with
  | none => exact ⟨rfl, terminal.bodyHeight_pos, fun _ => rfl⟩
  | some w => exact ⟨rfl, terminal.bodyHeight_pos, fun _ => rfl⟩

/-! ## What is on the screen -/

/-- The lines of the current page, written over `t`. -/
def generated (config : Config) (s : Ui) (t : Lines) : Lines :=
  (cacheGenLines config { s.mw with toLines := t }).1.toLines

/-- The screen shows the rows of the current page with their texts. -/
structure OnScreen (config : Config) (s : Ui) : Prop extends Shows config s where
  texts : ∃ t, ∀ i < s.mw.bodyLen,
    Printed (generated config s t).body s.mw.body (lineAt s.mw.width i) s.mw.width

theorem overwrites_generated
    {config : Config} {s : Ui} (hfeeds : s.mw.ctxType = .feeds)
    (hrows : pageRows config s s.mw.db ≠ []) :
    Overwrites s.mw.width (generated config s) := by
  have hgenerated : generated config s = fun t =>
      (writeFeedLine config s.mw.bodyLen s.mw.width (s.mw.page * s.mw.bodyLen) s.mw.db t).1 := by
    funext t
    rw [generated, cacheGenLines, hfeeds]
  rw [pageRows, hfeeds, listing, Ne, List.map_eq_nil_iff] at hrows
  rw [hgenerated]
  exact overwrites_writeFeedLine hrows

/-- The place and what is shown there are the same. -/
structure Unmoved (s t : Ui) : Prop where
  ctxType : t.mw.ctxType = s.mw.ctxType
  ctxId : t.mw.ctxId = s.mw.ctxId
  page : t.mw.page = s.mw.page
  cursorI : t.cursorI = s.cursorI
  contentBwMax : t.contentBwMax = s.contentBwMax
  lv : ∀ i ≤ s.contentBwMax, t.mw.lv i = s.mw.lv i
  bodyLen : t.mw.bodyLen = s.mw.bodyLen
  width : t.mw.width = s.mw.width
  texts : ∀ i < s.mw.bodyLen,
    shownText t.mw.body (lineAt s.mw.width i) s.mw.width =
      shownText s.mw.body (lineAt s.mw.width i) s.mw.width

theorem Windowed.inBounds
    {config : Config} {s : Ui} (h : Windowed s) (hshows : Shows config s)
    (hcursor : s.cursorI ≤ s.contentBwMax) : InBounds s := by
  have hlength := hshows.length
  have hle : (pageRows config s s.mw.db).length ≤ s.mw.bodyLen :=
    length_listing_le config s.mw.db s.mw.ctxType s.mw.ctxId s.mw.page h.bodyLen_pos
  exact ⟨h.bwLen, by omega⟩

/-! ## The two steps -/

/-- At the last row, with no row behind it, `next_item` only prints the row
again. -/
theorem nextRow_at_end
    {config : Config} {s : Ui} (hcursor : s.cursorI = s.contentBwMax)
    (hnil : pageRows config (nextPage s) s.mw.db = []) :
    nextRow config s = (s, .ok) := by
  have hback : { s with cursorI := s.contentBwMax } = s :=
    congrArg (fun c => { s with cursorI := c }) hcursor.symm
  rw [nextRow, if_neg (by omega)]
  split
  · have hnone : (requestListUpdate config (nextPage s)).2 = true := by
      rw [requestListUpdate, cacheGenLines_snd_iff]
      exact hnil
    dsimp only
    rw [if_pos hnone, undoPage_of_nil hnil, hback]
  · rfl

theorem unmoved_next
    {config : Config} {s : Ui} (h : Windowed s) (hshows : Shows config s)
    (hcursor : s.cursorI = s.contentBwMax) (hnil : pageRows config (nextPage s) s.mw.db = []) :
    ∃ t, step config s (.key .next) = some t ∧ Unmoved s t := by
  have hbounds := h.inBounds hshows (Nat.le_of_eq hcursor)
  have hmove : nextRow config (restyled s) = (restyled s, .ok) := nextRow_at_end hcursor hnil
  refine ⟨restyled (restyled s), ?_, rfl, rfl, rfl, rfl, rfl, fun _ _ => rfl, rfl, rfl, ?_⟩
  · rw [step, processKey, nextItem, moveItem_of_eq hbounds hmove (inBounds_restyled hbounds)]
    rfl
  · intro i _
    exact (shownText_printCrop _ s.mw.width s.cursorI i).trans
      (shownText_printCrop _ s.mw.width s.cursorI i)

/-- A list that turns out empty brings the feeds back, which are listed again. -/
theorem selectItem_of_nil
    {config : Config} {s : Ui} (h : InBounds s) (hfeeds : s.mw.ctxType = .feeds)
    (hnil : pageRows config (openEntries (s.mw.lv s.cursorI).id s) s.mw.db = []) :
    selectItem config s =
      some (viewToFeeds config (requestListUpdate config
        (openEntries (s.mw.lv s.cursorI).id s)).1, .ok) := by
  have hnone : (requestListUpdate config (openEntries (s.mw.lv s.cursorI).id s)).2 = true := by
    rw [requestListUpdate, cacheGenLines_snd_iff]
    exact hnil
  rw [selectItem, idAtCursor_of_inBounds h, Option.bind_eq_bind, Option.bind_some, hfeeds]
  exact if_pos hnone

theorem mw_viewToFeeds
    {config : Config} {s : Ui} {id : ℤ} (h : Windowed s) (hfeeds : s.mw.ctxType = .feeds)
    (hnil : pageRows config (openEntries id s) s.mw.db = []) :
    (viewToFeeds config (requestListUpdate config (openEntries id s)).1).mw =
      (cacheGenLines config s.mw).1 := by
  have hgen : cacheGenLines config (openEntries id s).mw = ((openEntries id s).mw, true) :=
    cacheGenLines_of_nil hnil
  have hopened : (requestListUpdate config (openEntries id s)).1.mw = (openEntries id s).mw := by
    rw [requestListUpdate, hgen]
  have hback : { s.mw with ctxType := .feeds, ctxId := 0 } = s.mw := by
    rw [← hfeeds, ← h.ctxId hfeeds]
  have hlisted : (viewToFeeds config (requestListUpdate config (openEntries id s)).1).mw =
      (cacheGenLines config { (requestListUpdate config (openEntries id s)).1.mw with
        page := s.mw.page, ctxType := .feeds, ctxId := 0 }).1 := rfl
  rw [hlisted, hopened]
  exact congrArg (fun mw => (cacheGenLines config mw).1) hback

theorem unmoved_select
    {config : Config} {s : Ui} (h : Windowed s) (hscreen : OnScreen config s)
    (hfeeds : s.mw.ctxType = .feeds) (hcursor : s.cursorI ≤ s.contentBwMax)
    (hnil : pageRows config (openEntries (s.mw.lv s.cursorI).id s) s.mw.db = []) :
    ∃ t, step config s (.key .select) = some t ∧ Unmoved s t := by
  have hbounds := h.inBounds hscreen.toShows hcursor
  have hrows := hscreen.toShows.rows_ne_nil
  have hlast := hscreen.toShows.length
  have hmw := mw_viewToFeeds h hfeeds hnil
  set t := viewToFeeds config (requestListUpdate config
    (openEntries (s.mw.lv s.cursorI).id s)).1
  have hstep : step config s (.key .select) = some t := by
    rw [step, processKey, selectItem_of_nil hbounds hfeeds hnil]
    rfl
  have hlv := (showsPage_cacheGenLines config s.mw h.bodyLen_pos hrows).lv
  refine ⟨t, hstep, hfeeds.symm, (h.ctxId hfeeds).symm, rfl, rfl, rfl, ?_, rfl, rfl, ?_⟩
  · intro i hi
    have hlt : i < (pageRows config s s.mw.db).length := by omega
    have hold : (pageRows config s s.mw.db)[i] = s.mw.lv i := by
      simp only [← hscreen.rows, List.getElem_map, List.getElem_range]
    rw [hmw, hlv i hlt]
    exact hold
  · intro i hi
    obtain ⟨t₀, htexts⟩ := hscreen.texts
    have hagain := (overwrites_generated hfeeds hrows).shownText (htexts i hi)
    rw [hmw]
    exact hagain

/-! ## Every reachable screen -/

/-- A repaint after a request that found rows puts them on the screen. -/
theorem Aimed.onScreen_drawLines
    {config : Config} {k : ℕ} {s : Ui} (h : Aimed config k s) (hlegible : Legible s)
    (hone : s.mw.bodyLen = 1 → s.contentBwMax = 0) :
    OnScreen config (drawLines (requestListUpdate config s).1) := by
  have hlisted : Aimed config k (requestListUpdate config s).1 :=
    ⟨h.bwLen, h.bodyLen_pos, h.newsize, h.row, h.page, h.cursorI⟩
  refine ⟨(hlisted.at_drawLines h.lined_requestListUpdate hlegible hone).shows, s.mw.toLines, ?_⟩
  intro i hi
  exact printed_drawRows s.mw.width (requestListUpdate config s).1.mw.body s.contentBwMax
    (Nat.zero_le i) (by rw [Nat.zero_add]; exact hi)

theorem onScreen_startUi
    (config : Config) (db : Db) {terminal : Terminal}
    (hlegible : 3 ≤ terminal.cols ∨ terminal.bodyHeight = 1) (fresh : Lines) :
    ∃ s, startUi config db terminal fresh [] none = some s ∧ OnScreen config s := by
  rw [startUi, setupUi_eq, Option.bind_eq_bind, Option.bind_some]
  have haimed := aimed_laidOut config db terminal fresh
  exact ⟨_, updateView_of_bwLen haimed.bwLen haimed.newsize,
    haimed.onScreen_drawLines hlegible fun _ => rfl⟩

/-- In every state that the program can reach with the rows of the current page
on the screen, `next` at the end of the list and the opening of an empty list
leave the place and what is shown there as they were. -/
theorem nowhere_to_go
    (config : Config) (db : Db) (terminal : Terminal) (fresh : Lines) (rs : List Refresh)
    (winch : Option (Terminal × Lines)) {es : List Event} {s₀ s : Ui}
    (hs₀ : startUi config db terminal fresh rs winch = some s₀)
    (hs : runs (step config) s₀ es = some s) (hscreen : OnScreen config s) :
    (s.cursorI = s.contentBwMax → pageRows config (nextPage s) s.mw.db = [] →
        ∃ t, step config s (.key .next) = some t ∧ Unmoved s t) ∧
      (s.mw.ctxType = .feeds → s.cursorI ≤ s.contentBwMax →
        pageRows config (openEntries (s.mw.lv s.cursorI).id s) s.mw.db = [] →
        ∃ t, step config s (.key .select) = some t ∧ Unmoved s t) := by
  have hwindowed : Windowed s := inv_of_runs windowed_step (windowed_startUi hs₀) hs
  refine ⟨?_, ?_⟩
  · intro hcursor hnil
    exact unmoved_next hwindowed hscreen.toShows hcursor hnil
  · intro hfeeds hcursor hnil
    exact unmoved_select hwindowed hscreen hfeeds hcursor hnil

/-- Without any feed there is just the aggregate row, which fills a body of one row:
`next` turns to an empty page and back, and the row has no entries. -/
theorem empty_cache_unmoved :
    ∃ s, startUi unreadOnly Cache.emptyDb oneLine blankLines [] none = some s ∧
      s.contentBwMax + 1 = s.mw.bodyLen ∧
      (∃ t, step unreadOnly s (.key .next) = some t ∧ Unmoved s t) ∧
      ∃ t, step unreadOnly s (.key .select) = some t ∧ Unmoved s t := by
  have hcols : 3 ≤ oneLine.cols ∨ oneLine.bodyHeight = 1 := by decide
  obtain ⟨s, hs, hscreen⟩ := onScreen_startUi unreadOnly Cache.emptyDb hcols blankLines
  have hempty : ((startUi unreadOnly Cache.emptyDb oneLine blankLines [] none).map fun s =>
      decide (s.cursorI = s.contentBwMax ∧ s.contentBwMax + 1 = s.mw.bodyLen ∧
        pageRows unreadOnly (nextPage s) s.mw.db = [] ∧ s.mw.ctxType = .feeds ∧
        pageRows unreadOnly (openEntries (s.mw.lv s.cursorI).id s) s.mw.db = [])) = some true := by
    decide +kernel
  rw [hs] at hempty
  obtain ⟨hcursor, hfull, hnext, hfeeds, hnil⟩ := of_decide_eq_true (Option.some.inj hempty)
  have hgo := nowhere_to_go unreadOnly Cache.emptyDb oneLine blankLines [] none hs
    (runs_nil (step unreadOnly) s) hscreen
  exact ⟨s, hs, hfull, hgo.1 hcursor hnext, hgo.2 hfeeds (Nat.le_of_eq hcursor) hnil⟩

end View
end Newsbaoter
