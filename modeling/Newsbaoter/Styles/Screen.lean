import Newsbaoter.View.Keys

/-!
# The styles of the rows

A row on the screen has the style in which it was printed last: `update_view` prints
all rows, and `restyle_focus_item` the one at the cursor.  The handlers are those of
the main window, with what they print.
-/

namespace Newsbaoter
namespace Styles

open Newsbaoter.Cache (Refresh)
open Newsbaoter.View (Config Event KhRet Key Ui catchupEntries idAtCursor nextRow openEntries
  orFeeds pipeFields prevRow refreshed requestListUpdate toFirstRow toggleReadIpc viewToFeeds)

/-! ## Styles -/

/-- `CP_LISTNORMAL` -/
def cpListnormal : ℕ := 1

/-- `CP_LISTFOCUS` -/
def cpListfocus : ℕ := 2

/-- `FII_STYLE(base,i)`; there is a `lv` once the window is set up. -/
def fiiStyle (base : ℕ) (s : Ui) (i : ℕ) : ℕ :=
  base + if (s.mw.lv i).unread ≠ 0 then 2 else 0

/-- `FB_STYLE` -/
def fbStyle (s : Ui) (i : ℕ) : ℕ :=
  fiiStyle (if i ≠ s.cursorI then cpListnormal else cpListfocus) s i

/-- The main window, and the style of each row of the body on the screen. -/
structure Screen where
  ui : Ui
  styles : ℕ → ℕ

/-! ## Printing -/

/-- `restyle_focus_item` -/
def restyleFocusItem (base : ℕ) (s : Screen) : Option Screen :=
  (View.restyleFocusItem s.ui).map fun ui =>
    { ui := ui
      styles := Function.update s.styles s.ui.cursorI (fiiStyle base s.ui s.ui.cursorI) }

/-- `update_view` -/
def updateView (config : Config) (s : Screen) : Option Screen :=
  (View.updateView config s.ui).map fun ui =>
    { ui := ui
      styles := fun i => if i < ui.mw.bodyLen then fbStyle ui i else s.styles i }

/-! ## The handlers -/

def moveItem (move : Ui → Ui × KhRet) (s : Screen) : Option (Screen × KhRet) := do
  let s ← restyleFocusItem cpListnormal s
  let r := move s.ui
  let s ← restyleFocusItem cpListfocus { s with ui := r.1 }
  some (s, r.2)

def selectItem (config : Config) (s : Screen) : Option (Screen × KhRet) := do
  let id ← idAtCursor s.ui
  match s.ui.mw.ctxType with
  | .feeds =>
      let r := requestListUpdate config (openEntries id s.ui)
      if r.2 then some ({ s with ui := viewToFeeds config r.1 }, .ok)
      else
        let t ← restyleFocusItem cpListnormal { s with ui := r.1 }
        let t ← restyleFocusItem cpListfocus { t with ui := toFirstRow t.ui }
        some (t, .update)
  | .entries => some ({ s with ui := orFeeds config (pipeFields config id s.ui) }, .update)

def catchupFeed (config : Config) (s : Screen) : Option (Screen × KhRet) :=
  match s.ui.mw.ctxType with
  | .feeds => do
      let id ← idAtCursor s.ui
      let t ← restyleFocusItem cpListfocus { s with ui := (catchupEntries config id s.ui).1 }
      some (t, .update)
  | .entries =>
      some ({ s with ui := orFeeds config (catchupEntries config s.ui.mw.ctxId s.ui) }, .update)

def toggleRead (config : Config) (s : Screen) : Option (Screen × KhRet) :=
  match s.ui.mw.ctxType with
  | .feeds => some (s, .ok)
  | .entries => do
      let id ← idAtCursor s.ui
      let r := toggleReadIpc config id s.ui
      if r.2 then some ({ s with ui := viewToFeeds config r.1 }, .update)
      else
        let t ← restyleFocusItem cpListfocus { s with ui := r.1 }
        some (t, if t.ui.mw.ctxId = 0 ∨ !config.showReadEntries then .update else .ok)

/-- What a handler leaves that prints nothing. -/
def unprinted (s : Screen) (r : Option (Ui × KhRet)) : Option (Screen × KhRet) :=
  r.map fun r => ({ s with ui := r.1 }, r.2)

def processKey (config : Config) (k : Key) (s : Screen) : Option (Screen × KhRet) :=
  match k with
  | .next => moveItem (nextRow config) s
  | .prev => moveItem (prevRow config) s
  | .low => moveItem (fun s => ({ s with cursorI := s.contentBwMax }, .ok)) s
  | .mid => moveItem (fun s => ({ s with cursorI := s.contentBwMax / 2 }, .ok)) s
  | .high => moveItem (fun s => ({ s with cursorI := 0 }, .ok)) s
  | .select => selectItem config s
  | .catchupFeed => catchupFeed config s
  | .toggleRead => toggleRead config s
  | .exit => unprinted s (View.contextExit config s.ui)
  | .download => unprinted s (View.downloadItem config s.ui)
  | .catchupAll => unprinted s (View.catchupAll config s.ui)
  | .redraw => unprinted s (View.redrawScreen s.ui)
  | .help => unprinted s (View.printKeyPairs s.ui)

/-! ## The loop -/

def afterKey (config : Config) (r : Screen × KhRet) : Option Screen :=
  match r.2 with
  | .ok => some r.1
  | .exit => updateView config r.1
  | .update => updateView config r.1

def handleUrls (config : Config) (rs : List Refresh) (ended : Bool) (s : Screen) : Option Screen :=
  if ended then
    updateView config { s with ui := (View.listAfter config (refreshed config rs) s.ui).1 }
  else some { s with ui.mw.db := refreshed config rs s.ui.mw.db }

def step (config : Config) (s : Screen) : Event → Option Screen
  | .key k => (processKey config k s).bind (afterKey config)
  | .fetch rs ended => handleUrls config rs ended s
  | .winch terminal fresh => some { s with ui := View.catchresize terminal fresh s.ui }

/-! ## The window under it -/

theorem ui_updateView (config : Config) (s : Screen) :
    (updateView config s).map Screen.ui = View.updateView config s.ui := by
  rw [updateView, Option.map_map]
  exact Option.map_id'

/-- What a handler leaves of the window. -/
def withUi (r : Screen × KhRet) : Ui × KhRet :=
  (r.1.ui, r.2)

theorem ui_moveItem (move : Ui → Ui × KhRet) (s : Screen) :
    (moveItem move s).map withUi = View.moveItem move s.ui := by
  simp only [moveItem, View.moveItem, restyleFocusItem, Option.bind_eq_bind]
  cases View.restyleFocusItem s.ui with
  | none => rfl
  | some u =>
      simp only [Option.map_some, Option.bind_some]
      cases View.restyleFocusItem (move u).1 with
      | none => rfl
      | some v => rfl

theorem ui_selectItem (config : Config) (s : Screen) :
    (selectItem config s).map withUi = View.selectItem config s.ui := by
  simp only [selectItem, View.selectItem, Option.bind_eq_bind]
  cases idAtCursor s.ui with
  | none => rfl
  | some id =>
      simp only [Option.bind_some]
      cases s.ui.mw.ctxType with
      | entries => rfl
      | feeds =>
          dsimp only
          split
          · rfl
          · simp only [restyleFocusItem]
            cases View.restyleFocusItem (requestListUpdate config (openEntries id s.ui)).1 with
            | none => rfl
            | some u =>
                simp only [Option.map_some, Option.bind_some]
                cases View.restyleFocusItem (toFirstRow u) with
                | none => rfl
                | some v => rfl

theorem ui_catchupFeed (config : Config) (s : Screen) :
    (catchupFeed config s).map withUi = View.catchupFeed config s.ui := by
  rw [catchupFeed, View.catchupFeed]
  cases s.ui.mw.ctxType with
  | entries => rfl
  | feeds =>
      simp only [Option.bind_eq_bind]
      cases idAtCursor s.ui with
      | none => rfl
      | some id =>
          simp only [Option.bind_some, restyleFocusItem]
          cases View.restyleFocusItem (catchupEntries config id s.ui).1 with
          | none => rfl
          | some u => rfl

theorem ui_toggleRead (config : Config) (s : Screen) :
    (toggleRead config s).map withUi = View.toggleRead config s.ui := by
  rw [toggleRead, View.toggleRead]
  cases s.ui.mw.ctxType with
  | feeds => rfl
  | entries =>
      simp only [Option.bind_eq_bind]
      cases idAtCursor s.ui with
      | none => rfl
      | some id =>
          simp only [Option.bind_some]
          split
          · rfl
          · simp only [restyleFocusItem]
            cases View.restyleFocusItem (toggleReadIpc config id s.ui).1 with
            | none => rfl
            | some u => rfl

theorem ui_unprinted (s : Screen) (r : Option (Ui × KhRet)) : (unprinted s r).map withUi = r := by
  rw [unprinted, Option.map_map]
  exact Option.map_id'

theorem ui_processKey (config : Config) (k : Key) (s : Screen) :
    (processKey config k s).map withUi = View.processKey config k s.ui := by
  cases k with
  | next => exact ui_moveItem (nextRow config) s
  | prev => exact ui_moveItem (prevRow config) s
  | low => exact ui_moveItem (fun s => ({ s with cursorI := s.contentBwMax }, .ok)) s
  | mid => exact ui_moveItem (fun s => ({ s with cursorI := s.contentBwMax / 2 }, .ok)) s
  | high => exact ui_moveItem (fun s => ({ s with cursorI := 0 }, .ok)) s
  | select => exact ui_selectItem config s
  | catchupFeed => exact ui_catchupFeed config s
  | toggleRead => exact ui_toggleRead config s
  | exit => exact ui_unprinted s (View.contextExit config s.ui)
  | download => exact ui_unprinted s (View.downloadItem config s.ui)
  | catchupAll => exact ui_unprinted s (View.catchupAll config s.ui)
  | redraw => exact ui_unprinted s (View.redrawScreen s.ui)
  | help => exact ui_unprinted s (View.printKeyPairs s.ui)

theorem ui_afterKey (config : Config) (r : Screen × KhRet) :
    (afterKey config r).map Screen.ui = View.afterKey config (withUi r) := by
  obtain ⟨s, ret⟩ := r
  cases ret with
  | ok => rfl
  | exit => exact ui_updateView config s
  | update => exact ui_updateView config s

/-- The steps of the window are those of the other modules. -/
theorem ui_step (config : Config) (s : Screen) (e : Event) :
    (step config s e).map Screen.ui = View.step config s.ui e := by
  cases e with
  | key k =>
      rw [step, View.step, ← ui_processKey, Option.map_bind, Option.bind_map]
      exact congrArg _ (funext (ui_afterKey config))
  | fetch rs ended =>
      rw [step, View.step, handleUrls, View.handleUrls]
      split
      · exact ui_updateView config _
      · rfl
  | winch terminal fresh => rfl

end Styles
end Newsbaoter
