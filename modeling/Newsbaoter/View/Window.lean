import Newsbaoter.View.Listing

/-!
# The main window

The state of `view.c` and the functions that paint it.  `realloc` keeps what
there is, and what it adds is arbitrary.  An index into `body_w` or `lv` that is
out of range makes the step impossible.
-/

namespace Newsbaoter
namespace View

open Newsbaoter.Cache (Db Refresh)

/-- What `TIOCGWINSZ` reports. -/
structure Terminal where
  lines : ℕ
  cols : ℕ
  lines_ge : 3 ≤ lines

/-- `BODY_HEIGHT` -/
def Terminal.bodyHeight (t : Terminal) : ℕ :=
  t.lines - 2

theorem Terminal.bodyHeight_pos (t : Terminal) : 0 < t.bodyHeight :=
  Nat.sub_pos_of_lt t.lines_ge

/-- The listing that was asked for last. -/
structure Shown where
  ctxType : ListContext
  ctxId : ℤ
  page : ℕ
  rows : List Listview

/-- The main window and the static variables of `view.c`.  The last three
fields are outside of the program: the size of the terminal, what fresh memory
holds, and a record of the listing asked for. -/
structure Ui where
  mw : MainWindow
  bwLen : ℕ
  contentBwMax : ℕ
  cursorI : ℕ
  backupCursorI : ℕ
  backupPageNum : ℕ
  newsize : Bool
  terminal : Terminal
  fresh : Lines
  shown : Shown

/-- `request_list_update`; the flag is the returned `1`. -/
def requestListUpdate (config : Config) (s : Ui) : Ui × Bool :=
  let r := cacheGenLines config s.mw
  ({ s with
      mw := r.1
      shown :=
        { ctxType := s.mw.ctxType
          ctxId := s.mw.ctxId
          page := s.mw.page
          rows := listing config s.mw.db s.mw.ctxType s.mw.ctxId s.mw.page s.mw.bodyLen } },
    r.2)

/-- The row at the cursor printed again. -/
def restyled (s : Ui) : Ui :=
  { s with mw.body := (printCrop s.mw.body (lineAt s.mw.width s.cursorI) s.mw.width).1 }

/-- `restyle_focus_item` -/
def restyleFocusItem (s : Ui) : Option Ui :=
  if s.cursorI < s.bwLen ∧ s.cursorI < s.mw.bodyLen then some (restyled s) else none

/-- The loop of `update_view` over `n` rows from row `i` on, with the value of
`content_bw_max`. -/
def drawRows (width : ℕ) : ℕ → ℕ → Cells × ℕ → Cells × ℕ
  | _, 0, t => t
  | i, n + 1, t =>
      let r := printCrop t.1 (lineAt width i) width
      drawRows width (i + 1) n (r.1, if r.2 then i else t.2)

def drawLines (s : Ui) : Ui :=
  let r := drawRows s.mw.width 0 s.mw.bodyLen (s.mw.body, s.contentBwMax)
  { s with mw.body := r.1, contentBwMax := r.2 }

/-- `regen_windows`; the style of the focus looks at the old `lv`, unless there
is none yet. -/
def regenWindows (s : Ui) : Option Ui :=
  let h := s.terminal.bodyHeight
  let cursor := if h < s.bwLen then 0 else s.cursorI
  if cursor < h ∧ (s.mw.bodyLen = 0 ∨ cursor < s.mw.bodyLen) then
    some { s with cursorI := cursor, bwLen := h }
  else none

/-- The two `redo_allocation`s of the lines, and the emptying of each. -/
def reallocLines (s : Ui) : Lines :=
  let kept : ℤ := s.mw.bodyLen * (s.mw.width + 1)
  { body := clearRows s.terminal.cols 0 s.terminal.bodyHeight fun p =>
      if 0 ≤ p ∧ p < kept then s.mw.body p else s.fresh.body p
    lv := fun i => if i < s.mw.bodyLen then s.mw.lv i else s.fresh.lv i }

/-- `resize_mainwindow` -/
def resizeMainwindow (s : Ui) : Option Ui := do
  let t ←
    if s.mw.width ≠ s.terminal.cols ∨ s.mw.bodyLen ≠ s.terminal.bodyHeight then regenWindows s
    else some s
  some { t with
    mw.toLines := reallocLines t
    mw.bodyLen := t.terminal.bodyHeight
    mw.width := t.terminal.cols }

/-- `update_view` -/
def updateView (config : Config) (s : Ui) : Option Ui := do
  let t ←
    if s.newsize then
      (resizeMainwindow s).map fun t => (requestListUpdate config { t with newsize := false }).1
    else some s
  if t.mw.bodyLen ≤ t.bwLen then some (drawLines t) else none

/-- The signal handler `catchresize`, when the terminal has a new size. -/
def catchresize (terminal : Terminal) (fresh : Lines) (s : Ui) : Ui :=
  { s with newsize := true, terminal := terminal, fresh := fresh }

/-! ## The start -/

/-- The state `setup_ui` begins with: all zero, and the database that `init_db`
opens. -/
def zeroUi (db : Db) (terminal : Terminal) (fresh : Lines) : Ui where
  mw :=
    { toLines := fresh
      bodyLen := 0
      width := 0
      page := 0
      ctxType := .feeds
      ctxId := 0
      db := db }
  bwLen := 0
  contentBwMax := 0
  cursorI := 0
  backupCursorI := 0
  backupPageNum := 0
  newsize := false
  terminal := terminal
  fresh := fresh
  shown := { ctxType := .feeds, ctxId := 0, page := 0, rows := [] }

def setupUi (db : Db) (terminal : Terminal) (fresh : Lines) : Option Ui :=
  resizeMainwindow (zeroUi db terminal fresh)

/-- The first windows, and lines of their size. -/
def laidOut (db : Db) (terminal : Terminal) (fresh : Lines) : Ui :=
  { zeroUi db terminal fresh with
    bwLen := terminal.bodyHeight
    mw.toLines := reallocLines (zeroUi db terminal fresh)
    mw.bodyLen := terminal.bodyHeight
    mw.width := terminal.cols }

theorem setupUi_eq (db : Db) (terminal : Terminal) (fresh : Lines) :
    setupUi db terminal fresh = some (laidOut db terminal fresh) := by
  have hpos := terminal.bodyHeight_pos
  have hregen : regenWindows (zeroUi db terminal fresh) =
      some { zeroUi db terminal fresh with bwLen := terminal.bodyHeight } := by
    have hcursor : (if terminal.bodyHeight < 0 then 0 else 0) < terminal.bodyHeight := by
      rwa [ite_self]
    simp only [regenWindows, zeroUi, ite_self] at hcursor ⊢
    exact if_pos ⟨hcursor, Or.inl trivial⟩
  have hheight : (zeroUi db terminal fresh).mw.bodyLen ≠
      (zeroUi db terminal fresh).terminal.bodyHeight :=
    Nat.ne_of_lt hpos
  rw [setupUi, resizeMainwindow, hregen, if_pos (Or.inr hheight)]
  rfl

/-- The database after the documents of some finished transfers. -/
def refreshed (config : Config) (rs : List Refresh) (db : Db) : Db :=
  rs.foldl (fun db r => (Cache.xmlprocUpdateCache config.cache r db).1) db

/-- What `main` and `run_ui` do before the first event: set up, list the feeds,
begin to fetch with `auto_reload`, and paint. -/
def startUi (config : Config) (db : Db) (terminal : Terminal) (fresh : Lines)
    (rs : List Refresh) (winch : Option (Terminal × Lines)) : Option Ui := do
  let s ← setupUi db terminal fresh
  let s := (requestListUpdate config s).1
  let s := { s with mw.db := refreshed config rs s.mw.db }
  updateView config (winch.elim s fun w => catchresize w.1 w.2 s)

end View
end Newsbaoter
