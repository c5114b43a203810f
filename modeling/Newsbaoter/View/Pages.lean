import Newsbaoter.Support.Pages
import Newsbaoter.View.Inside
import Newsbaoter.View.Painted

/-!
# The pages of a list

The window of the feed list begins with the aggregate row on the first page,
and on every later page it begins one feed earlier for that.  The pages of each
list tile it all the same.
-/

namespace Newsbaoter
namespace View

open Newsbaoter.Support
open Newsbaoter.Cache (Db)

/-! ## The whole list -/

/-- The rows of a list over all its pages. -/
def fullListing (config : Config) (db : Db) (ctxType : ListContext) (ctxId : ℤ) :
    List Listview :=
  match ctxType with
  | .feeds => (unreadArticles db :: feedRows config db).map FeedRow.item
  | .entries => (entryRows config ctxId db).map EntryRow.item

/-- The shorter first window and the shifted later ones are windows of the list
with the aggregate row in front. -/
theorem feedPage_eq
    (config : Config) (db : Db) (startInd : ℕ) {len : ℕ} (hlen : 0 < len) :
    feedPage config db startInd len =
      ((unreadArticles db :: feedRows config db).drop startInd).take len := by
  rw [feedPage]
  cases startInd with
  | zero =>
      obtain ⟨n, rfl⟩ := Nat.exists_eq_succ_of_ne_zero (Nat.ne_of_gt hlen)
      rw [if_pos rfl, List.drop_zero, List.take_succ_cons, Nat.succ_sub_one]
  | succ n => rw [if_neg (Nat.succ_ne_zero n), List.drop_succ_cons, Nat.succ_sub_one]

theorem listing_eq_page
    (config : Config) (db : Db) (ctxType : ListContext) (ctxId : ℤ) (p : ℕ) {bodyLen : ℕ}
    (hpos : 0 < bodyLen) :
    listing config db ctxType ctxId p bodyLen =
      page (fullListing config db ctxType ctxId) bodyLen p := by
  cases ctxType with
  | feeds => rw [listing, fullListing, ← map_page, feedPage_eq config db _ hpos, page]
  | entries => rw [listing, fullListing, ← map_page, entryPage, page]

/-! ## The header -/

/-- `head` of `set_title_string`; without a row for the feed it is what the
stack holds. -/
def titleHead (stack : CStr) (mw : MainWindow) : CStr :=
  match mw.ctxType with
  | .feeds => ascii "Your Feeds"
  | .entries =>
      if mw.ctxId = 0 then ascii "Unread Articles"
      else
        match mw.db.feed.rows.find? fun f => f.feedID == mw.ctxId with
        | some f => snprintf 256 (f.title.getD (ascii "(null)"))
        | none => stack

/-- `"(Page %d)"` -/
def titleTail (page : ℕ) : CStr :=
  snprintf 256 (ascii "(Page " ++ decimal (page + 1) ++ ascii ")")

def setTitleString (config : Config) (stack : CStr) (mw : MainWindow) (header : Cells) :
    Cells :=
  let tmp := snprintf 256 (titleHead stack mw ++ ascii " " ++ titleTail mw.page)
  (charsToWidechars config.locale header 0 tmp mw.width).1

/-- `cache_gen_lines` with the header it writes. -/
def cacheGenPage (config : Config) (stack : CStr) (mw : MainWindow) (header : Cells) :
    MainWindow × Cells × Bool :=
  let r := cacheGenLines config mw
  (r.1, if r.2 then header else setTitleString config stack r.1 header, r.2)

/-! ## What a page looks like -/

/-- The window shows these rows, and the lines behind them are empty. -/
structure ShowsPage (mw : MainWindow) (rows : List Listview) : Prop where
  fits : rows.length ≤ mw.bodyLen
  lv : ∀ i (hi : i < rows.length), mw.lv i = rows[i]
  empty : ∀ i, rows.length ≤ i → i < mw.bodyLen → mw.body (lineAt mw.width i) = 0

theorem writeLines_empty
    {ρ : Type*} (cb : ℕ → ρ → Lines → Lines) {len width i : ℕ} {rows : List ρ} (hrows : rows ≠ [])
    (t : Lines) (hle : rows.length ≤ i) (hlt : i < len) :
    (writeLines cb len width rows t).1.body (lineAt width i) = 0 := by
  have hzero : clearRows width rows.length (len - rows.length) (execRows cb 0 rows t).body
      (lineAt width (rows.length + (i - rows.length))) = 0 :=
    clearRows_apply rows.length _ (by omega)
  rw [Nat.add_sub_of_le hle] at hzero
  rw [writeLines, if_neg (by simpa using hrows)]
  exact hzero

theorem writeLines_snd
    {ρ : Type*} (cb : ℕ → ρ → Lines → Lines) (len width : ℕ) (rows : List ρ) (t : Lines) :
    (writeLines cb len width rows t).2 = rows.isEmpty := by
  rw [writeLines]
  split
  · next hempty => exact hempty.symm
  · next hsome => exact (Bool.eq_false_iff.mpr hsome).symm

theorem cacheGenLines_snd_iff
    (config : Config) (mw : MainWindow) :
    (cacheGenLines config mw).2 = true ↔
      listing config mw.db mw.ctxType mw.ctxId mw.page mw.bodyLen = [] := by
  cases hctx : mw.ctxType with
  | feeds => simp [cacheGenLines, hctx, listing, writeFeedLine, writeLines_snd]
  | entries => simp [cacheGenLines, hctx, listing, writeEntryLine, writeLines_snd]

theorem showsPage_cacheGenLines
    (config : Config) (mw : MainWindow) (hpos : 0 < mw.bodyLen)
    (hrows : listing config mw.db mw.ctxType mw.ctxId mw.page mw.bodyLen ≠ []) :
    ShowsPage (cacheGenLines config mw).1
      (listing config mw.db mw.ctxType mw.ctxId mw.page mw.bodyLen) := by
  have hfits := length_listing_le config mw.db mw.ctxType mw.ctxId mw.page hpos
  cases hctx : mw.ctxType with
  | feeds =>
      rw [hctx] at hrows hfits
      simp only [listing, Ne, List.map_eq_nil_iff, List.length_map] at hrows hfits ⊢
      simp only [cacheGenLines, hctx, writeFeedLine]
      refine ⟨by simpa using hfits, ?_, ?_⟩
      · intro i hi
        rw [List.length_map] at hi
        rw [List.getElem_map]
        exact writeLines_lv (storesItem_feedLineCb _ _) hrows _ _ _ hi
      · intro i hle hlt
        rw [List.length_map] at hle
        exact writeLines_empty _ hrows _ hle hlt
  | entries =>
      rw [hctx] at hrows hfits
      simp only [listing, Ne, List.map_eq_nil_iff, List.length_map] at hrows hfits ⊢
      simp only [cacheGenLines, hctx, writeEntryLine]
      refine ⟨by simpa using hfits, ?_, ?_⟩
      · intro i hi
        rw [List.length_map] at hi
        rw [List.getElem_map]
        exact writeLines_lv (storesItem_entryLineCb _ _) hrows _ _ _ hi
      · intro i hle hlt
        rw [List.length_map] at hle
        exact writeLines_empty _ hrows _ hle hlt

/-! ## The tiling -/

/-- The pages of each list tile it: each fits the window, together they are the
whole list, and past its end nothing is changed. -/
theorem pages_tile
    (config : Config) (stack : CStr) (mw : MainWindow) (header : Cells)
    (hpos : 0 < mw.bodyLen) :
    let full := fullListing config mw.db mw.ctxType mw.ctxId
    let rows := fun p => listing config mw.db mw.ctxType mw.ctxId p mw.bodyLen
    let generated := fun p => cacheGenPage config stack { mw with page := p } header
    (∀ p, (generated p).2.2 = true ↔ full.length ≤ p * mw.bodyLen) ∧
      (∀ p, (generated p).2.2 = true → generated p = ({ mw with page := p }, header, true)) ∧
      (∀ p, (generated p).2.2 = false → ShowsPage (generated p).1 (rows p)) ∧
      (∀ n, (List.range n).flatMap rows = full.take (n * mw.bodyLen)) ∧
      ∀ n, full.length ≤ n * mw.bodyLen → (List.range n).flatMap rows = full := by
  intro full rows generated
  have hpages : rows = page full mw.bodyLen :=
    funext fun p => listing_eq_page config mw.db mw.ctxType mw.ctxId p hpos
  have hsnd : ∀ p, (generated p).2.2 = true ↔ rows p = [] :=
    fun p => cacheGenLines_snd_iff config { mw with page := p }
  refine ⟨?_, ?_, ?_, ?_, ?_⟩
  · intro p
    rw [hsnd, hpages, page_eq_nil_iff hpos]
  · intro p hpast
    have hnil : cacheGenLines config { mw with page := p } = ({ mw with page := p }, true) :=
      cacheGenLines_of_nil ((hsnd p).mp hpast)
    simp only [generated, cacheGenPage, hnil, if_true]
  · intro p hfound
    apply showsPage_cacheGenLines config { mw with page := p } hpos
    intro hnil
    rw [(hsnd p).mpr hnil] at hfound
    cases hfound
  · intro n
    rw [hpages, flatMap_page]
  · intro n hn
    rw [hpages, flatMap_page_of_le hn]

/-- The list of all unread entries in a window of one row. -/
def oneRow : MainWindow where
  toLines := blankLines
  bodyLen := 1
  width := 20
  page := 0
  ctxType := .entries
  ctxId := 0
  db := twoUnread

theorem pages_tile_one_row :
    (List.range 2).flatMap (fun p => listing unreadOnly twoUnread .entries 0 p 1) =
      fullListing unreadOnly twoUnread .entries 0 :=
  (pages_tile unreadOnly [] oneRow blankLines.body (by decide)).2.2.2.2 2 (by decide)

end View
end Newsbaoter
