import Newsbaoter.View.Inside
import Newsbaoter.View.RowText

/-!
# Names that overrun their row

`feed_line_cb` gives the name of a feed the room of a whole line, although the
line number and the counts stand before it.  A row is left just when these and
the name do not fit together.
-/

namespace Newsbaoter
namespace View

/-- Whatever there was, `feed_line_cb` changes no cell outside of its row. -/
def StaysInRow (loc : Locale) (len ind : ℕ) (row : FeedRow) : Prop :=
  ∀ (t : Lines) (p : ℤ), p < lineAt len ind ∨ lineAt len ind + len < p →
    (feedLineCb loc len ind row t).body p = t.body p

/-! ## Lengths -/

/-- The cell of the line where the name begins, if there is room for all that
stands before it: the number of the line, the mark and the counts. -/
def nameStart (ind : ℕ) (row : FeedRow) : ℕ :=
  let number := min 255 (max 3 (decimal (ind + 1)).length + 2)
  let counts :=
    min 49 ((decimalLong (row.count - row.viewed)).length + (decimal row.count).length + 3)
  number + 1 + max 11 (counts + 2)

/-- The cells of a text and its terminator, which an invalid text lacks. -/
def cellCount (loc : Locale) (s : CStr) : ℕ :=
  (loc.decode s).1.length + if (loc.decode s).2 then 1 else 0

theorem length_indexText (ind : ℕ) :
    (indexText ind).length = min 255 (max 3 (decimal (ind + 1)).length + 2) := by
  simp only [indexText, snprintf, List.length_take, List.length_append, List.length_replicate]
  have hgap : (ascii "  ").length = 2 := by decide
  omega

theorem length_countText (row : FeedRow) :
    (countText row).length =
      max 11 (min 49 ((decimalLong (row.count - row.viewed)).length +
        (decimal row.count).length + 3) + 2) := by
  simp only [countText, snprintf, List.length_take, List.length_append, List.length_replicate]
  have hopen : (ascii "[").length = 1 := by decide
  have hslash : (ascii "/").length = 1 := by decide
  have hclose : (ascii "]").length = 1 := by decide
  have hgap : (ascii " ").length = 1 := by decide
  omega

theorem length_feedPrefix (ind : ℕ) (row : FeedRow) :
    (feedPrefix ind row).length = nameStart ind row := by
  have hflag : (ascii (if row.viewed < row.count then "N" else " ")).length = 1 := by
    split
    · decide
    · decide
  rw [feedPrefix, List.length_append, List.length_append, length_indexText, hflag,
    length_countText, nameStart]

theorem length_textCells (loc : Locale) (s : CStr) (max : ℕ) :
    (textCells loc s max).length = min max (cellCount loc s) := by
  rw [textCells, cellCount]
  split
  · rw [List.length_take]
    omega
  · split
    · rw [List.length_append, List.length_singleton]
      omega
    · omega

theorem length_feedCells (loc : Locale) (len ind : ℕ) (row : FeedRow) :
    (feedCells loc len ind row).length =
      max (min len (nameStart ind row + 1))
        (min len (nameStart ind row) + min len (cellCount loc (feedName row))) := by
  have hlength := length_crop len ((feedPrefix ind row).map UInt8.toNat)
  rw [List.length_map, length_feedPrefix] at hlength
  rw [feedCells, length_feedPrefix, length_overlay (by omega), hlength, length_textCells]

/-! ## The row -/

/-- Lines in which the cell at `p` is not what is about to be written there. -/
def unlike (c : TChar) : Lines where
  body := fun _ => c + 1
  lv := fun _ => { unread := 0, id := 0 }

theorem not_staysInRow
    {loc : Locale} {len ind : ℕ} {row : FeedRow}
    (hover : len + 1 < (feedCells loc len ind row).length) :
    ¬StaysInRow loc len ind row := by
  intro hstays
  have hcell := hstays (unlike ((feedCells loc len ind row).getD (len + 1) 0))
    (lineAt len ind + (len + 1 : ℕ)) (Or.inr (by omega))
  rw [feedLineCb_body, store_add, if_pos hover] at hcell
  exact Nat.ne_of_lt (Nat.lt_succ_self _) hcell

/-- The row is kept to just if the name with its terminator fits behind what
stands before it. -/
theorem staysInRow_iff (loc : Locale) (len ind : ℕ) (row : FeedRow) :
    StaysInRow loc len ind row ↔
      min len (nameStart ind row) + min len (cellCount loc (feedName row)) ≤ len + 1 := by
  have hlength := length_feedCells loc len ind row
  constructor
  · intro hstays
    by_contra hover
    exact not_staysInRow (by omega) hstays
  · intro hfits t p hp
    rw [feedLineCb_body]
    apply store_of_not_mem
    omega

/-- The window of `smallScreen` with the feed list of two unread entries, before
its lines are written. -/
def unwritten : MainWindow where
  toLines := unlike 0
  bodyLen := 2
  width := 20
  page := 0
  ctxType := .feeds
  ctxId := 0
  db := twoUnread

/-- A title of four letters in the last row of a screen of 20 columns: its
terminator is written behind the end of the body. -/
theorem title_overruns_body :
    (∃ row ∈ feedPage unreadOnly twoUnread 0 2, feedName row = ascii "Feed" ∧
      ¬StaysInRow byteLocale 20 1 row) ∧
      (cacheGenLines unreadOnly unwritten).1.body (lineAt 20 2) = 0 ∧
      unwritten.body (lineAt 20 2) = 1 := by
  have hpage : (feedPage unreadOnly twoUnread 0 2).map (fun row =>
      decide (feedName row = ascii "Feed" ∧ 20 + 1 < (feedCells byteLocale 20 1 row).length)) =
        [false, true] := by
    decide +kernel
  have htrue : true ∈ (feedPage unreadOnly twoUnread 0 2).map (fun row =>
      decide (feedName row = ascii "Feed" ∧ 20 + 1 < (feedCells byteLocale 20 1 row).length)) := by
    rw [hpage]
    decide
  obtain ⟨row, hrow, htrue⟩ := List.mem_map.mp htrue
  obtain ⟨hname, hover⟩ := of_decide_eq_true htrue
  exact ⟨⟨row, hrow, hname, not_staysInRow hover⟩, by decide +kernel, rfl⟩

end View
end Newsbaoter
