import Newsbaoter.Styles.Screen
import Newsbaoter.Styles.Toggled
import Newsbaoter.View.Stale

/-!
# Repainting a row and repainting them all

The handlers print one row or two where nothing else has changed.  As long as the
screen shows the rows of the query, every row has the style that `update_view` would
give it.
-/

namespace Newsbaoter
namespace Styles

open Newsbaoter.Cache (Db Refresh)
open Newsbaoter.Support
open Newsbaoter.View (Config Drawn Event Finds KhRet Key Lines Showing Terminal Ui idAtCursor
  nextRow pageRows prevRow refreshed requestListUpdate restyled toggleReadIpc)

/-- Each row has the style of `update_view`. -/
def Styled (s : Screen) : Prop :=
  ∀ i ≤ s.ui.contentBwMax, s.styles i = fbStyle s.ui i

instance (s : Screen) : Decidable (Styled s) :=
  inferInstanceAs (Decidable (∀ i ≤ _, _))

/-- The condition on the state before a step: a row is listed, and a mark is changed
in the list of a feed, at a row of it. -/
def Restyles (config : Config) (s : Screen) (e : Event) : Prop :=
  Finds config s.ui e ∧
    (match e with
      | .key .toggleRead => s.ui.mw.ctxType = .entries → s.ui.cursorI ≤ s.ui.contentBwMax ∧
          0 ≤ s.ui.mw.ctxId ∧ IdsFit s.ui.mw.db
      | _ => True)

instance (config : Config) (s : Screen) : ∀ e, Decidable (Restyles config s e)
  | .key .toggleRead => inferInstanceAs (Decidable (Finds _ _ _ ∧ (_ → _ ≤ _ ∧ _ ≤ _ ∧ IdsFit _)))
  | .key .exit | .key .next | .key .prev | .key .low | .key .mid | .key .high | .key .select
  | .key .download | .key .catchupFeed | .key .catchupAll | .key .redraw | .key .help
  | .fetch _ _ | .winch _ _ => inferInstanceAs (Decidable (Finds _ _ _ ∧ True))

/-! ## Full repaints -/

theorem styled_of_updateView
    {config : Config} {s t : Screen} (ht : updateView config s = some t) (hdrawn : Drawn t.ui) :
    Styled t := by
  obtain ⟨ui, -, rfl⟩ := Option.map_eq_some_iff.mp ht
  intro i hi
  exact if_pos (Nat.lt_of_le_of_lt hi hdrawn.last_lt)

/-! ## The same rows again -/

/-- What is drawn of the same rows looks the same. -/
theorem lv_eq_of_rows
    {s t : Ui} (hs : Drawn s) (ht : Drawn t) (hrows : t.shown.rows = s.shown.rows) :
    t.contentBwMax = s.contentBwMax ∧ ∀ i ≤ s.contentBwMax, t.mw.lv i = s.mw.lv i := by
  have hslast := hs.last
  have htlast := ht.last
  rw [hrows] at htlast
  refine ⟨by omega, fun i hi => ?_⟩
  have hlt : i < s.shown.rows.length := by omega
  have hlt' : i < t.shown.rows.length := by rw [hrows]; exact hlt
  rw [ht.lv i hlt', hs.lv i hlt]
  simp only [hrows]

/-- Both repaints of a move. -/
theorem styled_of_moved
    {s t : Screen} (h : Styled s) (hs : Drawn s.ui) (ht : Drawn t.ui)
    (hrows : t.ui.shown.rows = s.ui.shown.rows)
    (hstyles : t.styles = Function.update
      (Function.update s.styles s.ui.cursorI (fiiStyle cpListnormal s.ui s.ui.cursorI))
      t.ui.cursorI (fiiStyle cpListfocus t.ui t.ui.cursorI)) :
    Styled t := by
  obtain ⟨hlast, hlv⟩ := lv_eq_of_rows hs ht hrows
  intro i hi
  rw [hlast] at hi
  rw [hstyles, fbStyle]
  by_cases hfocus : i = t.ui.cursorI
  · rw [hfocus, Function.update_self, if_neg (not_not_intro rfl)]
  · rw [Function.update_of_ne hfocus, if_pos hfocus]
    have hsame : ∀ base, fiiStyle base t.ui i = fiiStyle base s.ui i := by
      intro base
      rw [fiiStyle, fiiStyle, hlv i hi]
    by_cases hleft : i = s.ui.cursorI
    · rw [hsame, hleft, Function.update_self]
    · rw [Function.update_of_ne hleft, h i hi, fbStyle, if_pos hleft, hsame]

/-- A row keeps its style where neither the rows nor the cursor change. -/
theorem styled_of_kept
    {s t : Screen} (h : Styled s) (hs : Drawn s.ui) (ht : Drawn t.ui)
    (hrows : t.ui.shown.rows = s.ui.shown.rows) (hcursor : t.ui.cursorI = s.ui.cursorI)
    (hstyles : t.styles = s.styles) :
    Styled t := by
  obtain ⟨hlast, hlv⟩ := lv_eq_of_rows hs ht hrows
  intro i hi
  rw [hlast] at hi
  rw [hstyles, h i hi, fbStyle, fbStyle, fiiStyle, fiiStyle, hcursor, hlv i hi]

/-! ## Moving -/

theorem eq_of_restyleFocusItem
    {base : ℕ} {s t : Screen} (h : restyleFocusItem base s = some t) :
    t.ui = restyled s.ui ∧ t.styles =
      Function.update s.styles s.ui.cursorI (fiiStyle base s.ui s.ui.cursorI) := by
  obtain ⟨ui, hui, rfl⟩ := Option.map_eq_some_iff.mp h
  exact ⟨View.eq_of_restyleFocusItem hui, rfl⟩

theorem eq_of_moveItem
    {move : Ui → Ui × KhRet} {s : Screen} {r : Screen × KhRet} (h : moveItem move s = some r) :
    r.1.ui = restyled (move (restyled s.ui)).1 ∧ r.2 = (move (restyled s.ui)).2 ∧
      r.1.styles = Function.update
        (Function.update s.styles s.ui.cursorI (fiiStyle cpListnormal s.ui s.ui.cursorI))
        r.1.ui.cursorI (fiiStyle cpListfocus r.1.ui r.1.ui.cursorI) := by
  obtain ⟨t, ht, h⟩ := Option.bind_eq_some_iff.mp h
  obtain ⟨u, hu, h⟩ := Option.bind_eq_some_iff.mp h
  cases h
  obtain ⟨htui, htstyles⟩ := eq_of_restyleFocusItem ht
  obtain ⟨huui, hustyles⟩ := eq_of_restyleFocusItem hu
  dsimp only at huui hustyles ⊢
  rw [htui] at huui hustyles
  rw [huui, hustyles, htstyles, htui]
  exact ⟨rfl, rfl, rfl⟩

/-- A move that asks for no repaint is one within the page. -/
def KeepsPage (config : Config) (move : Ui → Ui × KhRet) : Prop :=
  ∀ s, (move s).2 = .ok → pageRows config (move s).1 (move s).1.mw.db = pageRows config s s.mw.db

theorem keepsPage_nextRow (config : Config) : KeepsPage config (nextRow config) := by
  intro s hok
  rw [nextRow] at hok ⊢
  split
  · rfl
  · split
    · dsimp only
      split
      · rfl
      · next hmore hlast hfound =>
          rw [if_neg hmore, if_pos hlast] at hok
          dsimp only at hok
          rw [if_neg hfound] at hok
          cases hok
    · rfl

theorem keepsPage_prevRow (config : Config) : KeepsPage config (prevRow config) := by
  intro s hok
  rw [prevRow] at hok ⊢
  split
  · rfl
  · split
    · next hfirst hpage =>
        rw [if_neg hfirst, if_pos hpage] at hok
        cases hok
    · rfl

theorem keepsPage_row (config : Config) (target : Ui → ℕ) :
    KeepsPage config fun s => ({ s with cursorI := target s }, .ok) :=
  fun _ _ => rfl

theorem styled_moveItem
    {config : Config} {move : Ui → Ui × KhRet} (hmove : KeepsPage config move) {s t : Screen}
    (h : Styled s) (hs : Showing config s.ui) (hr : moveItem move s = some (t, .ok))
    (ht : Showing config t.ui) :
    Styled t := by
  obtain ⟨hui, hret, hstyles⟩ := eq_of_moveItem hr
  refine styled_of_moved h hs.toDrawn ht.toDrawn ?_ hstyles
  rw [ht.rows, hs.rows]
  dsimp only at hui
  rw [hui]
  exact hmove (restyled s.ui) hret.symm

/-! ## The other handlers -/

theorem styled_selectItem
    {config : Config} {s t : Screen} (h : Styled s) (hs : Showing config s.ui)
    (hr : selectItem config s = some (t, .ok)) (ht : Showing config t.ui) :
    Styled t := by
  obtain ⟨id, -, hr⟩ := Option.bind_eq_some_iff.mp hr
  cases hctx : s.ui.mw.ctxType with
  | entries =>
      rw [hctx] at hr
      cases hr
  | feeds =>
      rw [hctx] at hr
      dsimp only at hr
      split at hr
      · cases hr
        refine styled_of_kept h hs.toDrawn ht.toDrawn ?_ rfl rfl
        rw [ht.rows, hs.rows, pageRows, pageRows, hctx]
        rfl
      · obtain ⟨u, -, hr⟩ := Option.bind_eq_some_iff.mp hr
        obtain ⟨v, -, hr⟩ := Option.bind_eq_some_iff.mp hr
        cases hr

theorem getElem?_of_drawn
    {s : Ui} (h : Drawn s) {i : ℕ} (hi : i ≤ s.contentBwMax) :
    s.shown.rows[i]? = some (s.mw.lv i) := by
  have hlast := h.last
  have hlt : i < s.shown.rows.length := by omega
  rw [h.lv i hlt]
  exact List.getElem?_eq_getElem hlt

/-- A change of a mark that asks for no repaint. -/
theorem eq_of_toggleRead
    {config : Config} {s t : Screen} (hctx : s.ui.mw.ctxType = .entries)
    (hr : toggleRead config s = some (t, .ok)) :
    t.ui = restyled (toggleReadIpc config (s.ui.mw.lv s.ui.cursorI).id s.ui).1 ∧
      t.styles = Function.update s.styles s.ui.cursorI
        (fiiStyle cpListfocus t.ui s.ui.cursorI) ∧
      s.ui.mw.ctxId ≠ 0 ∧ config.showReadEntries = true := by
  rw [toggleRead, hctx] at hr
  obtain ⟨id, hid, hr⟩ := Option.bind_eq_some_iff.mp hr
  have hfocus : (s.ui.mw.lv s.ui.cursorI).id = id := by
    rw [idAtCursor] at hid
    split at hid
    · exact Option.some.inj hid
    · cases hid
  rw [hfocus]
  dsimp only at hr
  split at hr
  · cases hr
  · obtain ⟨u, hu, hr⟩ := Option.bind_eq_some_iff.mp hr
    obtain ⟨hui, hstyles⟩ := eq_of_restyleFocusItem hu
    obtain ⟨rfl, hret⟩ := Prod.mk.inj (Option.some.inj hr)
    have hctxId : u.ui.mw.ctxId = s.ui.mw.ctxId := by
      rw [hui]
      rfl
    have hquiet : ¬(u.ui.mw.ctxId = 0 ∨ (!config.showReadEntries) = true) := by
      intro hrepaints
      rw [if_pos hrepaints] at hret
      cases hret
    rw [not_or, Bool.not_eq_true', Bool.not_eq_false, hctxId] at hquiet
    refine ⟨hui, ?_, hquiet⟩
    rw [hui]
    exact hstyles

/-- The row of the changed mark is printed again, and it is the only one that the
new list has otherwise. -/
theorem styled_toggleRead
    {config : Config} {s t : Screen} (h : Styled s) (hs : Showing config s.ui)
    (hplace : s.ui.mw.ctxType = .entries → s.ui.cursorI ≤ s.ui.contentBwMax ∧
      0 ≤ s.ui.mw.ctxId ∧ IdsFit s.ui.mw.db)
    (hr : toggleRead config s = some (t, .ok)) (ht : Showing config t.ui) :
    Styled t := by
  cases hctx : s.ui.mw.ctxType with
  | feeds =>
      rw [toggleRead, hctx] at hr
      cases hr
      exact h
  | entries =>
      obtain ⟨hcursor, hctxId, hids⟩ := hplace hctx
      obtain ⟨hui, hstyles, hfeed, hread⟩ := eq_of_toggleRead hctx hr
      have hnew : ∀ i ≤ s.ui.contentBwMax,
          (pageRows config s.ui (Cache.cacheToggleReadEntry (s.ui.mw.lv s.ui.cursorI).id (-1)
            s.ui.mw.db))[i]? = some (t.ui.mw.lv i) := by
        intro i hi
        have hrow := getElem?_of_drawn ht.toDrawn (i := i) (by rw [hui]; exact hi)
        rw [ht.rows] at hrow
        rw [← hrow, hui]
        rfl
      have hold : ∀ i ≤ s.ui.contentBwMax,
          (pageRows config s.ui s.ui.mw.db)[i]? = some (s.ui.mw.lv i) := by
        intro i hi
        rw [← hs.rows]
        exact getElem?_of_drawn hs.toDrawn hi
      have hcursorI : t.ui.cursorI = s.ui.cursorI := by
        rw [hui]
        rfl
      intro i hi
      have hi' : i ≤ s.ui.contentBwMax := by
        rw [hui] at hi
        exact hi
      rw [hstyles, fbStyle, hcursorI]
      by_cases hfocus : i = s.ui.cursorI
      · rw [hfocus, Function.update_self, if_neg (not_not_intro rfl)]
      · have hkept := pageRows_toggle_other hctx hread (lt_of_le_of_ne hctxId hfeed.symm) hids
          (hold _ hcursor) (hold i hi') hfocus
        rw [hnew i hi'] at hkept
        rw [Function.update_of_ne hfocus, h i hi', fbStyle, fiiStyle, fiiStyle,
          Option.some.inj hkept]

/-- A key that asks for no repaint. -/
theorem styled_processKey
    {config : Config} {k : Key} {s t : Screen} (h : Styled s) (hs : Showing config s.ui)
    (hrestyles : Restyles config s (.key k)) (hr : processKey config k s = some (t, .ok))
    (ht : Showing config t.ui) :
    Styled t := by
  cases k with
  | next => exact styled_moveItem (keepsPage_nextRow config) h hs hr ht
  | prev => exact styled_moveItem (keepsPage_prevRow config) h hs hr ht
  | low => exact styled_moveItem (keepsPage_row config fun s => s.contentBwMax) h hs hr ht
  | mid => exact styled_moveItem (keepsPage_row config fun s => s.contentBwMax / 2) h hs hr ht
  | high => exact styled_moveItem (keepsPage_row config fun _ => 0) h hs hr ht
  | select => exact styled_selectItem h hs hr ht
  | toggleRead => exact styled_toggleRead h hs hrestyles.2 hr ht
  | catchupFeed =>
      rw [processKey, catchupFeed] at hr
      split at hr
      · obtain ⟨id, -, hr⟩ := Option.bind_eq_some_iff.mp hr
        obtain ⟨u, -, hr⟩ := Option.bind_eq_some_iff.mp hr
        cases hr
      · cases hr
  | download =>
      obtain ⟨r, hr', hr⟩ := Option.map_eq_some_iff.mp hr
      rw [View.downloadItem] at hr'
      split at hr'
      · cases hr'
        cases hr
      · obtain ⟨id, -, hr'⟩ := Option.bind_eq_some_iff.mp hr'
        cases hr'
        cases hr
  | exit =>
      obtain ⟨r, hr', hr⟩ := Option.map_eq_some_iff.mp hr
      rw [View.contextExit] at hr'
      split at hr'
      · cases hr'
        cases hr
      · cases hr'
        cases hr
  | catchupAll => cases hr
  | redraw => cases hr
  | help => cases hr

/-! ## Runs -/

/-- What a step keeps, as long as it meets the condition. -/
def Kept (config : Config) (s : Screen) : Prop :=
  Showing config s.ui ∧ Styled s

theorem kept_step
    (config : Config) {s : Screen} {e : Event} (he : ¬e.IsWinch) (h : Kept config s)
    (hrestyles : Restyles config s e) :
    ∃ t, step config s e = some t ∧ Kept config t := by
  obtain ⟨ui, hui, hshowing⟩ := View.showing_step config he h.1 hrestyles.1
  rw [← ui_step] at hui
  obtain ⟨t, ht, rfl⟩ := Option.map_eq_some_iff.mp hui
  refine ⟨t, ht, hshowing, ?_⟩
  cases e with
  | winch terminal fresh => exact absurd trivial he
  | fetch rs ended =>
      rw [step, handleUrls] at ht
      split at ht
      · exact styled_of_updateView ht hshowing.toDrawn
      · cases ht
        exact h.2
  | key k =>
      obtain ⟨⟨u, ret⟩, hr, hafter⟩ := Option.bind_eq_some_iff.mp ht
      cases ret with
      | ok =>
          cases hafter
          exact styled_processKey h.2 h.1 hrestyles hr hshowing
      | exit => exact styled_of_updateView hafter hshowing.toDrawn
      | update => exact styled_of_updateView hafter hshowing.toDrawn

/-- The page listed again, and all of its rows printed. -/
def repaint (config : Config) (s : Screen) : Option Screen :=
  updateView config { s with ui := (requestListUpdate config s.ui).1 }

/-- A full repaint would print the same rows in the same styles. -/
def AsRepainted (config : Config) (s : Screen) : Prop :=
  ∃ t, repaint config s = some t ∧ t.ui.contentBwMax = s.ui.contentBwMax ∧
    ∀ i ≤ s.ui.contentBwMax, t.ui.mw.lv i = s.ui.mw.lv i ∧ t.styles i = s.styles i

theorem Kept.asRepainted {config : Config} {s : Screen} (h : Kept config s) :
    AsRepainted config s := by
  have hends := h.1.toFitted.ends_requestListUpdate config
  have hrows : (requestListUpdate config s.ui).1.shown.rows = s.ui.shown.rows := h.1.rows.symm
  obtain ⟨ui, hui, hshowing⟩ := hends.showing_updateView (by rw [hrows]; exact h.1.rows_ne_nil)
  have hcursor : ui.cursorI = s.ui.cursorI := by
    rw [← Option.some.inj (hends.updateView_eq.symm.trans hui)]
    rfl
  have hrows' : ui.shown.rows = s.ui.shown.rows := by
    rw [← hrows, ← Option.some.inj (hends.updateView_eq.symm.trans hui)]
    rfl
  have hmap : (repaint config s).map Screen.ui = some ui := (ui_updateView config _).trans hui
  obtain ⟨t, ht, rfl⟩ := Option.map_eq_some_iff.mp hmap
  obtain ⟨hlast, hlv⟩ := lv_eq_of_rows h.1.toDrawn hshowing.toDrawn hrows'
  have hstyled := styled_of_updateView ht hshowing.toDrawn
  refine ⟨t, ht, hlast, fun i hi => ⟨hlv i hi, ?_⟩⟩
  rw [hstyled i (hi.trans hlast.ge), h.2 i hi, fbStyle, fbStyle, fiiStyle,
    fiiStyle, hcursor, hlv i hi]

/-- What `main` and `run_ui` print before the first event, on windows that have
`styles`. -/
def startScreen (config : Config) (db : Db) (terminal : Terminal) (fresh : Lines)
    (rs : List Refresh) (styles : ℕ → ℕ) : Option Screen := do
  let s ← View.setupUi db terminal fresh
  let s := (requestListUpdate config s).1
  updateView config ⟨{ s with mw.db := refreshed config rs s.mw.db }, styles⟩

theorem ui_startScreen
    (config : Config) (db : Db) (terminal : Terminal) (fresh : Lines) (rs : List Refresh)
    (styles : ℕ → ℕ) :
    (startScreen config db terminal fresh rs styles).map Screen.ui =
      View.startUi config db terminal fresh rs none := by
  rw [startScreen, View.startUi, View.setupUi_eq]
  exact ui_updateView config _

/-- Without resizes, in a run whose steps meet the condition, the rows that the
handlers print one by one look as if all rows were listed and printed again. -/
theorem stays_as_repainted
    (config : Config) (db : Db) {terminal : Terminal} (hcols : 3 ≤ terminal.cols) (fresh : Lines)
    (rs : List Refresh) (styles : ℕ → ℕ) (es : List Event) (hes : ∀ e ∈ es, ¬e.IsWinch)
    (hfirst : View.listing config (refreshed config rs db) .feeds 0 0 terminal.bodyHeight =
      View.listing config db .feeds 0 0 terminal.bodyHeight) :
    ∃ s, startScreen config db terminal fresh rs styles = some s ∧
      (Meets (step config) (Restyles config) s es →
        Stays (step config) (AsRepainted config) s es) := by
  obtain ⟨ui, hui, hdrawn, hshown, hpage⟩ := View.drawn_startUi config db hcols fresh rs
  rw [← ui_startScreen config db terminal fresh rs styles] at hui
  obtain ⟨s, hs, rfl⟩ := Option.map_eq_some_iff.mp hui
  have hprinted := hs
  rw [startScreen, View.setupUi_eq] at hprinted
  have hkept : Kept config s :=
    ⟨⟨hdrawn, by rw [hshown, hpage, hfirst]⟩, styled_of_updateView hprinted hdrawn⟩
  refine ⟨s, hs, stays_of_meets (fun _ h => Kept.asRepainted h) ?_ hkept⟩
  intro t e he ht hrestyles
  exact kept_step config (hes e he) ht hrestyles

/-- Read entries are listed as well. -/
def listsRead : Config :=
  { View.unreadOnly with showReadEntries := true }

/-- Open the feed, change the marks of both entries, and leave. -/
theorem changed_marks_as_repainted :
    ∃ s, startScreen listsRead View.twoUnread View.smallScreen View.blankLines []
        (fun _ => cpListnormal) = some s ∧
      Stays (step listsRead) (AsRepainted listsRead) s
        [.key .next, .key .select, .key .toggleRead, .key .next, .key .toggleRead, .key .exit] := by
  obtain ⟨s, hs, hstays⟩ := stays_as_repainted listsRead View.twoUnread
    (show 3 ≤ View.smallScreen.cols by decide) View.blankLines [] (fun _ => cpListnormal)
    [.key .next, .key .select, .key .toggleRead, .key .next, .key .toggleRead, .key .exit]
    (by simp [Event.IsWinch]) rfl
  refine ⟨s, hs, hstays ?_⟩
  have hmeets : ((startScreen listsRead View.twoUnread View.smallScreen View.blankLines []
      (fun _ => cpListnormal)).map fun s => decide (Meets (step listsRead) (Restyles listsRead) s
        [.key .next, .key .select, .key .toggleRead, .key .next, .key .toggleRead, .key .exit])) =
          some true := by
    decide +kernel
  rw [hs] at hmeets
  exact of_decide_eq_true (Option.some.inj hmeets)

end Styles
end Newsbaoter
