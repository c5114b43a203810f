import Mathlib.Data.List.Sort
import Mathlib.Logic.Function.Basic
import Newsbaoter.Cache.Refresh
import Newsbaoter.View.Cells

/-!
# The lines of a listing

`viewio.c`: the queries behind the feed list and the entry lists, and the
callbacks that turn each result row into a line of the body.
-/

namespace Newsbaoter
namespace View

open Newsbaoter.Cache (Db Entry)

/-- The options and the library functions the lists depend on. -/
structure Config where
  showReadFeeds : Bool
  showReadEntries : Bool
  cache : Cache.Config
  locale : Locale

/-- `struct listview`; the line of row `i` begins at cell `i * (width + 1)`. -/
structure Listview where
  unread : ℤ
  id : ℤ
deriving DecidableEq

/-- What `mw->body` and `mw->data.lv` point to. -/
structure Lines where
  body : Cells
  lv : ℕ → Listview

def lineAt (width ind : ℕ) : ℤ :=
  ind * (width + 1)

/-! ## The queries -/

/-- A result row of the feed list; `viewed` is `SUM(Entry.Viewed)`. -/
structure FeedRow where
  title : Option CStr
  url : Option CStr
  viewed : ℤ
  count : ℕ
  feedID : ℤ

/-- The row that stands for the unread entries of all feeds. -/
def unreadArticles (db : Db) : FeedRow where
  title := some (ascii "Unread Articles")
  url := some (ascii "None")
  viewed := 0
  count := Cache.getNumUnread db
  feedID := 0

/-- `... FROM Feed,Entry WHERE Feed.FeedID=Entry.FeedID ... GROUP BY
Feed.FeedID`; the groups come in the order of their key. -/
def feedRows (config : Config) (db : Db) : List FeedRow :=
  db.feed.rows.filterMap fun f =>
    let es := db.entry.rows.filter fun e =>
      e.feedID == f.feedID && (config.showReadFeeds || e.viewed == 0)
    if es.isEmpty then none
    else
      some
        { title := f.title
          url := f.url
          viewed := (es.map Entry.viewed).sum
          count := es.length
          feedID := f.feedID }

/-- The rows of a window of `len` lines from `startInd` on; the first window
begins with the aggregate row. -/
def feedPage (config : Config) (db : Db) (startInd len : ℕ) : List FeedRow :=
  if startInd = 0 then unreadArticles db :: (feedRows config db).take (len - 1)
  else ((feedRows config db).drop (startInd - 1)).take len

/-- A result row of an entry list; only the aggregate has a column for the
title of the feed, which may be NULL in it. -/
structure EntryRow where
  title : Option CStr
  viewed : ℤ
  pubDate : ℤ
  entryID : ℤ
  feedTitle : Option (Option CStr)

/-- `ORDER BY PubDate DESC`; equal dates stay in the order of the scan. -/
def newestFirst (rows : List EntryRow) : List EntryRow :=
  rows.insertionSort fun a b => b.pubDate ≤ a.pubDate

def entryRows (config : Config) (feedid : ℤ) (db : Db) : List EntryRow :=
  if 0 < feedid then
    newestFirst <|
      (db.entry.rows.filter fun e =>
        e.feedID == feedid && (config.showReadEntries || e.viewed == 0)).map fun e =>
          { title := e.title
            viewed := e.viewed
            pubDate := e.pubDate
            entryID := e.entryID
            feedTitle := none }
  else
    newestFirst <|
      (db.entry.rows.filter fun e => e.viewed == 0).filterMap fun e =>
        (db.feed.rows.find? fun f => f.feedID == e.feedID).map fun f =>
          { title := e.title
            viewed := e.viewed
            pubDate := e.pubDate
            entryID := e.entryID
            feedTitle := some f.title }

def entryPage (config : Config) (feedid : ℤ) (db : Db) (startInd len : ℕ) :
    List EntryRow :=
  ((entryRows config feedid db).drop startInd).take len

/-! ## The texts of a line -/

/-- `%d` of a natural number. -/
def decimal (n : ℕ) : CStr :=
  (Nat.toDigits 10 n).map fun c => c.toNat.toUInt8

/-- `%ld`. -/
def decimalLong (n : ℤ) : CStr :=
  if n < 0 then 45 :: decimal n.natAbs else decimal n.natAbs

/-- The text `snprintf` leaves in an array of `size` bytes. -/
def snprintf (size : ℕ) (s : CStr) : CStr :=
  s.take (size - 1)

/-- `"%3d  "` of the line number. -/
def indexText (ind : ℕ) : CStr :=
  let digits := decimal (ind + 1)
  snprintf 256 (List.replicate (3 - digits.length) 32 ++ digits ++ ascii "  ")

/-- `"%*c%s "` of the unread and the total number. -/
def countText (row : FeedRow) : CStr :=
  let urt := snprintf 50 (ascii "[" ++ decimalLong (row.count - row.viewed) ++ ascii "/" ++
    decimal row.count ++ ascii "]")
  snprintf 256 (List.replicate (max (10 - urt.length) 1) 32 ++ urt ++ ascii " ")

/-- `"%s | "` of the title of the feed. -/
def feedTitleText (title : Option CStr) : CStr :=
  snprintf 256 (title.getD (ascii "(null)") ++ ascii " | ")

/-- One `off+=chars_to_widechars(line+off,s,len-off)`. -/
def putText (loc : Locale) (line : ℤ) (len : ℕ) (s : CStr) (t : Cells × ℤ) : Cells × ℤ :=
  let r := charsToWidechars loc t.1 (line + t.2) s (len - t.2)
  (r.1, t.2 + r.2)

/-! ## The callbacks -/

def FeedRow.item (row : FeedRow) : Listview where
  unread := toInt (row.count - row.viewed)
  id := toInt row.feedID

/-- The name of the feed goes in with the full length `fla->len`, whatever the
offset is. -/
def feedLineCb (loc : Locale) (len ind : ℕ) (row : FeedRow) (t : Lines) : Lines :=
  let line := lineAt len ind
  let text := putText loc line len (indexText ind) (t.body, 0)
  let text := putText loc line len (ascii (if row.viewed < row.count then "N" else " ")) text
  let text := putText loc line len (countText row) text
  let name := (row.title.or row.url).getD (ascii "Unknown")
  { body := (charsToWidechars loc text.1 (line + text.2) name len).1
    lv := Function.update t.lv ind row.item }

def EntryRow.item (row : EntryRow) : Listview where
  unread := if row.viewed = 0 then 1 else 0
  id := toInt row.entryID

/-- A title is never NULL in what a refresh stores. -/
def entryLineCb (loc : Locale) (len ind : ℕ) (row : EntryRow) (t : Lines) : Lines :=
  let line := lineAt len ind
  let text := putText loc line len (indexText ind) (t.body, 0)
  let text := putText loc line len (ascii (if row.viewed = 0 then "N" else " ")) text
  let text := putText loc line len (loc.dayMonth row.pubDate) text
  let text := match row.feedTitle with
    | some title => putText loc line len (feedTitleText title) text
    | none => text
  let text := putText loc line len (row.title.getD []) text
  { body := text.1
    lv := Function.update t.lv ind row.item }

/-! ## The lines of a page -/

/-- `nb_sqlite3_exec`: the callback for one row after the other. -/
def execRows {ρ : Type*} (cb : ℕ → ρ → Lines → Lines) : ℕ → List ρ → Lines → Lines
  | _, [], t => t
  | ind, row :: rows, t => execRows cb (ind + 1) rows (cb ind row t)

/-- `for(;ind<len;ind++) lv[ind].line[0]=0;` -/
def clearRows (width : ℕ) : ℕ → ℕ → Cells → Cells
  | _, 0, mem => mem
  | ind, n + 1, mem => clearRows width (ind + 1) n (store mem (lineAt width ind) [0])

/-- What `write_feed_line` and `write_entry_line` do with their rows; the flag
is the returned `1` for a page without rows. -/
def writeLines {ρ : Type*} (cb : ℕ → ρ → Lines → Lines) (len width : ℕ) (rows : List ρ)
    (t : Lines) : Lines × Bool :=
  if rows.isEmpty then (t, true)
  else
    let u := execRows cb 0 rows t
    ({ u with body := clearRows width rows.length (len - rows.length) u.body }, false)

def writeFeedLine (config : Config) (len width startInd : ℕ) (db : Db) (t : Lines) :
    Lines × Bool :=
  writeLines (feedLineCb config.locale width) len width (feedPage config db startInd len) t

def writeEntryLine (config : Config) (len width : ℕ) (feedid : ℤ) (startInd : ℕ) (db : Db)
    (t : Lines) : Lines × Bool :=
  writeLines (entryLineCb config.locale width) len width
    (entryPage config feedid db startInd len) t

/-- `CTX_FEEDS` and `CTX_ENTRIES`, the contexts that are ever set. -/
inductive ListContext
  | feeds | entries
deriving DecidableEq

/-- The rows of a page of a list, as `lv` holds them. -/
def listing (config : Config) (db : Db) (ctxType : ListContext) (ctxId : ℤ)
    (page bodyLen : ℕ) : List Listview :=
  match ctxType with
  | .feeds => (feedPage config db (page * bodyLen) bodyLen).map FeedRow.item
  | .entries => (entryPage config ctxId db (page * bodyLen) bodyLen).map EntryRow.item

/-- `struct mainwindow`. -/
structure MainWindow extends Lines where
  bodyLen : ℕ
  width : ℕ
  page : ℕ
  ctxType : ListContext
  ctxId : ℤ
  db : Db

/-- `cache_gen_lines`; a page without rows leaves everything as it is. -/
def cacheGenLines (config : Config) (mw : MainWindow) : MainWindow × Bool :=
  let poff := mw.page * mw.bodyLen
  let r := match mw.ctxType with
    | .feeds => writeFeedLine config mw.bodyLen mw.width poff mw.db mw.toLines
    | .entries => writeEntryLine config mw.bodyLen mw.width mw.ctxId poff mw.db mw.toLines
  ({ mw with toLines := r.1 }, r.2)

/-! ## The length of a page -/

theorem length_listing_le
    (config : Config) (db : Db) (ctxType : ListContext) (ctxId : ℤ) (page : ℕ) {bodyLen : ℕ}
    (hpos : 0 < bodyLen) :
    (listing config db ctxType ctxId page bodyLen).length ≤ bodyLen := by
  cases ctxType with
  | feeds =>
      rw [listing, List.length_map, feedPage]
      split
      · rw [List.length_cons, List.length_take]
        omega
      · rw [List.length_take]
        exact Nat.min_le_left _ _
  | entries =>
      rw [listing, List.length_map, entryPage, List.length_take]
      exact Nat.min_le_left _ _

/-- The first page of the feed list has the aggregate row. -/
theorem listing_feeds_ne_nil
    (config : Config) (db : Db) (ctxId : ℤ) (bodyLen : ℕ) :
    listing config db .feeds ctxId 0 bodyLen ≠ [] := by
  rw [listing, feedPage, if_pos (Nat.zero_mul bodyLen), List.map_cons]
  exact List.cons_ne_nil _ _

end View
end Newsbaoter
