import Newsbaoter.View.Window

/-!
# The keys

The handlers of `view.c`, and one turn of the loop of `run_ui`.
-/

namespace Newsbaoter
namespace View

open Newsbaoter.Cache (Db Refresh)

/-- `enum hk_ret`, as far as a handler returns it. -/
inductive KhRet
  | ok | exit | update
deriving DecidableEq

/-! ## Moving the cursor -/

/-- The handlers that move the cursor restyle the row it leaves and the row it
comes to, and differ in the move between. -/
def moveItem (move : Ui → Ui × KhRet) (s : Ui) : Option (Ui × KhRet) := do
  let s ← restyleFocusItem s
  let r := move s
  let s ← restyleFocusItem r.1
  some (s, r.2)

def lowItem : Ui → Option (Ui × KhRet) :=
  moveItem fun s => ({ s with cursorI := s.contentBwMax }, .ok)

def midItem : Ui → Option (Ui × KhRet) :=
  moveItem fun s => ({ s with cursorI := s.contentBwMax / 2 }, .ok)

def highItem : Ui → Option (Ui × KhRet) :=
  moveItem fun s => ({ s with cursorI := 0 }, .ok)

def nextPage (s : Ui) : Ui :=
  { s with cursorI := 0, mw.page := s.mw.page + 1 }

/-- End of list: the page before is the current one again, and it is what is
shown. -/
def undoPage (shown : Shown) (s : Ui) : Ui :=
  { s with cursorI := s.contentBwMax, mw.page := s.mw.page - 1, shown := shown }

def nextRow (config : Config) (s : Ui) : Ui × KhRet :=
  if s.cursorI < s.contentBwMax then ({ s with cursorI := s.cursorI + 1 }, .ok)
  else if s.contentBwMax + 1 = s.mw.bodyLen then
    let r := requestListUpdate config (nextPage s)
    if r.2 then (undoPage s.shown r.1, .ok) else (r.1, .update)
  else (s, .ok)

def nextItem (config : Config) : Ui → Option (Ui × KhRet) :=
  moveItem (nextRow config)

def prevPage (s : Ui) : Ui :=
  { s with mw.page := s.mw.page - 1, cursorI := s.mw.bodyLen - 1 }

def prevRow (config : Config) (s : Ui) : Ui × KhRet :=
  if 0 < s.cursorI then ({ s with cursorI := s.cursorI - 1 }, .ok)
  else if 0 < s.mw.page then ((requestListUpdate config (prevPage s)).1, .update)
  else (s, .ok)

def prevItem (config : Config) : Ui → Option (Ui × KhRet) :=
  moveItem (prevRow config)

/-! ## Acting on the row at the cursor -/

/-- `lv[cursor_i].id` -/
def idAtCursor (s : Ui) : Option ℤ :=
  if s.cursorI < s.mw.bodyLen then some (s.mw.lv s.cursorI).id else none

def toFeeds (s : Ui) : Ui :=
  { s with mw.page := s.backupPageNum, mw.ctxType := .feeds, mw.ctxId := 0 }

def viewToFeeds (config : Config) (s : Ui) : Ui :=
  (requestListUpdate config (toFeeds s)).1

/-- Change the database and list again. -/
def listAfter (config : Config) (change : Db → Db) (s : Ui) : Ui × Bool :=
  requestListUpdate config { s with mw.db := change s.mw.db }

/-- `pipe_fields`, behind `download_entry` and `pipe_entry`. -/
def pipeFields (config : Config) (id : ℤ) : Ui → Ui × Bool :=
  listAfter config (Cache.cacheWriteEntryField id)

def catchupEntries (config : Config) (id : ℤ) : Ui → Ui × Bool :=
  listAfter config (Cache.cacheReadFeed id)

def toggleReadIpc (config : Config) (id : ℤ) : Ui → Ui × Bool :=
  listAfter config (Cache.cacheToggleReadEntry id (-1))

/-- `if(...) view_to_feeds(mw);` -/
def orFeeds (config : Config) (r : Ui × Bool) : Ui :=
  if r.2 then viewToFeeds config r.1 else r.1

/-- Turn to the first page of the entries of a feed. -/
def openEntries (id : ℤ) (s : Ui) : Ui :=
  { s with
    mw.ctxType := .entries
    mw.ctxId := id
    backupPageNum := s.mw.page
    mw.page := 0 }

/-- Save the row of the feed and go to the first row. -/
def toFirstRow (s : Ui) : Ui :=
  { s with backupCursorI := s.cursorI, cursorI := 0 }

def selectItem (config : Config) (s : Ui) : Option (Ui × KhRet) := do
  let id ← idAtCursor s
  match s.mw.ctxType with
  | .feeds =>
      let r := requestListUpdate config (openEntries id s)
      if r.2 then some (viewToFeeds config r.1, .ok)
      else
        let t ← restyleFocusItem r.1
        let t ← restyleFocusItem (toFirstRow t)
        some (t, .update)
  | .entries => some (orFeeds config (pipeFields config id s), .update)

def downloadItem (config : Config) (s : Ui) : Option (Ui × KhRet) :=
  match s.mw.ctxType with
  | .feeds => some (s, .update)
  | .entries => do
      let id ← idAtCursor s
      some (orFeeds config (pipeFields config id s), .update)

def catchupFeed (config : Config) (s : Ui) : Option (Ui × KhRet) :=
  match s.mw.ctxType with
  | .feeds => do
      let id ← idAtCursor s
      let t ← restyleFocusItem (catchupEntries config id s).1
      some (t, .update)
  | .entries => some (orFeeds config (catchupEntries config s.mw.ctxId s), .update)

def toggleRead (config : Config) (s : Ui) : Option (Ui × KhRet) :=
  match s.mw.ctxType with
  | .feeds => some (s, .ok)
  | .entries => do
      let id ← idAtCursor s
      let r := toggleReadIpc config id s
      if r.2 then some (viewToFeeds config r.1, .update)
      else
        let t ← restyleFocusItem r.1
        some (t, if t.mw.ctxId = 0 ∨ !config.showReadEntries then .update else .ok)

def catchupAll (config : Config) (s : Ui) : Option (Ui × KhRet) :=
  some (orFeeds config (catchupEntries config 0 s), .update)

def contextExit (config : Config) (s : Ui) : Option (Ui × KhRet) :=
  match s.mw.ctxType with
  | .feeds => some (s, .exit)
  | .entries => some (viewToFeeds config { s with cursorI := s.backupCursorI }, .update)

/-- `handle_redraw_screen` -/
def redrawScreen (s : Ui) : Option (Ui × KhRet) :=
  some (catchresize s.terminal s.fresh s, .update)

/-- `handle_print_key_pairs`, which leaves this state alone. -/
def printKeyPairs (s : Ui) : Option (Ui × KhRet) :=
  some (s, .update)

/-! ## The loop -/

/-- The operations keys can be bound to, but for `reload-all`. -/
inductive Key
  | exit | next | prev | low | mid | high | select | download | catchupFeed | catchupAll
  | toggleRead | redraw | help
deriving DecidableEq

def processKey (config : Config) : Key → Ui → Option (Ui × KhRet)
  | .exit => contextExit config
  | .next => nextItem config
  | .prev => prevItem config
  | .low => lowItem
  | .mid => midItem
  | .high => highItem
  | .select => selectItem config
  | .download => downloadItem config
  | .catchupFeed => catchupFeed config
  | .catchupAll => catchupAll config
  | .toggleRead => toggleRead config
  | .redraw => redrawScreen
  | .help => printKeyPairs

/-- What happens to the running program.  `fetch` is a call of `handle_urls`,
from the loop or from `refresh_all`: the transfers it finished, and whether the
cycle ended with it. -/
inductive Event
  | key (k : Key)
  | fetch (rs : List Refresh) (ended : Bool)
  | winch (terminal : Terminal) (fresh : Lines)

/-- The run is over when `KH_RET_EXIT` is confirmed, so here it is declined. -/
def afterKey (config : Config) (r : Ui × KhRet) : Option Ui :=
  match r.2 with
  | .ok => some r.1
  | .exit => updateView config r.1
  | .update => updateView config r.1

def handleUrls (config : Config) (rs : List Refresh) (ended : Bool) (s : Ui) : Option Ui :=
  if ended then updateView config (listAfter config (refreshed config rs) s).1
  else some { s with mw.db := refreshed config rs s.mw.db }

def step (config : Config) (s : Ui) : Event → Option Ui
  | .key k => (processKey config k s).bind (afterKey config)
  | .fetch rs ended => handleUrls config rs ended s
  | .winch terminal fresh => some (catchresize terminal fresh s)

/-! ## What a key does -/

theorem eq_of_restyleFocusItem {s t : Ui} (h : restyleFocusItem s = some t) : t = restyled s := by
  rw [restyleFocusItem] at h
  split at h
  · exact (Option.some.inj h).symm
  · cases h

theorem eq_of_moveItem
    {move : Ui → Ui × KhRet} {s : Ui} {r : Ui × KhRet} (h : moveItem move s = some r) :
    r.1 = restyled (move (restyled s)).1 := by
  obtain ⟨t, ht, h⟩ := Option.bind_eq_some_iff.mp h
  obtain ⟨u, hu, h⟩ := Option.bind_eq_some_iff.mp h
  cases h
  rw [eq_of_restyleFocusItem ht] at hu
  exact eq_of_restyleFocusItem hu

/-- All states a handler can leave, by what it has called. -/
inductive Handled (config : Config) (s : Ui) : Key → Ui → Prop
  | same (k : Key) : Handled config s k s
  | next : Handled config s .next (restyled (nextRow config (restyled s)).1)
  | prev : Handled config s .prev (restyled (prevRow config (restyled s)).1)
  | row (k : Key) (i : ℕ) : Handled config s k (restyled { restyled s with cursorI := i })
  | listed (k : Key) (change : Db → Db) : Handled config s k (listAfter config change s).1
  | focused (k : Key) (change : Db → Db) :
      Handled config s k (restyled (listAfter config change s).1)
  | emptied {k : Key} (hk : k ≠ .exit) (change : Db → Db) :
      Handled config s k (viewToFeeds config (listAfter config change s).1)
  | exited : Handled config s .exit (viewToFeeds config { s with cursorI := s.backupCursorI })
  | opened (id : ℤ) (hfeeds : s.mw.ctxType = .feeds) :
      Handled config s .select
        (restyled (toFirstRow (restyled (requestListUpdate config (openEntries id s)).1)))
  | missed (id : ℤ) (hfeeds : s.mw.ctxType = .feeds) :
      Handled config s .select (viewToFeeds config (requestListUpdate config (openEntries id s)).1)
  | redrawn : Handled config s .redraw (catchresize s.terminal s.fresh s)

theorem handled_orFeeds
    (config : Config) (change : Db → Db) (s : Ui) {k : Key} (hk : k ≠ .exit) :
    Handled config s k (orFeeds config (listAfter config change s)) := by
  rw [orFeeds]
  split
  · exact .emptied hk change
  · exact .listed k change

theorem handled_of_selectItem
    {config : Config} {s : Ui} {r : Ui × KhRet} (h : selectItem config s = some r) :
    Handled config s .select r.1 := by
  obtain ⟨id, -, h⟩ := Option.bind_eq_some_iff.mp h
  cases hctx : s.mw.ctxType with
  | entries =>
      rw [hctx] at h
      cases h
      exact handled_orFeeds config _ s (by decide)
  | feeds =>
      rw [hctx] at h
      dsimp only at h
      split at h
      · cases h
        exact .missed id hctx
      · obtain ⟨t, ht, h⟩ := Option.bind_eq_some_iff.mp h
        obtain ⟨u, hu, h⟩ := Option.bind_eq_some_iff.mp h
        cases h
        rw [eq_of_restyleFocusItem ht] at hu
        rw [eq_of_restyleFocusItem hu]
        exact .opened id hctx

theorem handled_of_toggleRead
    {config : Config} {s : Ui} {r : Ui × KhRet} (h : toggleRead config s = some r) :
    Handled config s .toggleRead r.1 := by
  rw [toggleRead] at h
  split at h
  · cases h
    exact .same _
  · obtain ⟨id, -, h⟩ := Option.bind_eq_some_iff.mp h
    dsimp only at h
    split at h
    · cases h
      exact .emptied (by decide) _
    · obtain ⟨t, ht, h⟩ := Option.bind_eq_some_iff.mp h
      cases h
      rw [eq_of_restyleFocusItem ht]
      exact .focused _ _

theorem handled_of_catchupFeed
    {config : Config} {s : Ui} {r : Ui × KhRet} (h : catchupFeed config s = some r) :
    Handled config s .catchupFeed r.1 := by
  rw [catchupFeed] at h
  split at h
  · obtain ⟨id, -, h⟩ := Option.bind_eq_some_iff.mp h
    obtain ⟨t, ht, h⟩ := Option.bind_eq_some_iff.mp h
    cases h
    rw [eq_of_restyleFocusItem ht]
    exact .focused _ _
  · cases h
    exact handled_orFeeds config _ s (by decide)

/-- One key, whatever it is bound to. -/
theorem handled_of_processKey
    {config : Config} {k : Key} {s : Ui} {r : Ui × KhRet} (h : processKey config k s = some r) :
    Handled config s k r.1 := by
  cases k with
  | next =>
      rw [eq_of_moveItem h]
      exact .next
  | prev =>
      rw [eq_of_moveItem h]
      exact .prev
  | low =>
      rw [eq_of_moveItem h]
      exact .row _ _
  | mid =>
      rw [eq_of_moveItem h]
      exact .row _ _
  | high =>
      rw [eq_of_moveItem h]
      exact .row _ _
  | select => exact handled_of_selectItem h
  | download =>
      rw [processKey, downloadItem] at h
      split at h
      · cases h
        exact .same _
      · obtain ⟨id, -, h⟩ := Option.bind_eq_some_iff.mp h
        cases h
        exact handled_orFeeds config _ s (by decide)
  | catchupFeed => exact handled_of_catchupFeed h
  | catchupAll =>
      cases h
      exact handled_orFeeds config _ s (by decide)
  | toggleRead => exact handled_of_toggleRead h
  | exit =>
      rw [processKey, contextExit] at h
      split at h
      · cases h
        exact .same _
      · cases h
        exact .exited
  | redraw =>
      cases h
      exact .redrawn
  | help =>
      cases h
      exact .same _

/-! ## A redraw at the same size -/

/-- No resize is pending, and the body has the size of the terminal. -/
structure Sized (s : Ui) : Prop where
  newsize : s.newsize = false
  bodyHeight : s.terminal.bodyHeight = s.mw.bodyLen
  cols : s.terminal.cols = s.mw.width

/-- The state with lines allocated for the terminal. -/
def relined (s : Ui) : Ui :=
  { s with
    mw.toLines := reallocLines s
    mw.bodyLen := s.terminal.bodyHeight
    mw.width := s.terminal.cols }

/-- A redraw allocates lines of the old size and lists the page again. -/
theorem step_redraw
    {config : Config} {s : Ui} (h : Sized s) :
    step config s (.key .redraw) = updateView config (requestListUpdate config (relined s)).1 := by
  have hsame : ¬((catchresize s.terminal s.fresh s).mw.width ≠ s.terminal.cols ∨
      (catchresize s.terminal s.fresh s).mw.bodyLen ≠ s.terminal.bodyHeight) := by
    rw [not_or, not_not, not_not]
    exact ⟨h.cols.symm, h.bodyHeight.symm⟩
  have hresize : resizeMainwindow (catchresize s.terminal s.fresh s) =
      some { relined s with newsize := true } := by
    rw [resizeMainwindow]
    exact (if_neg hsame).trans rfl
  have hrelined : { relined s with newsize := false } = relined s := by
    rw [← h.newsize]
    rfl
  have hready : (requestListUpdate config (relined s)).1.newsize = false := h.newsize
  have hasked : updateView config (catchresize s.terminal s.fresh s) =
      updateView config (requestListUpdate config { relined s with newsize := false }).1 := by
    rw [updateView, updateView, hresize]
    rfl
  rw [hrelined] at hasked
  exact hasked

end View
end Newsbaoter
