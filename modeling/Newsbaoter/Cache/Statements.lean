import Newsbaoter.Cache.Schema

/-!
# The statements of `create.c`

Each function issues one SQL statement.  `INSERT OR REPLACE` with an integer
primary key replaces the row that has the key, a NULL key takes a fresh rowid,
and a column that is not listed takes its default.
-/

open Newsbaoter.Support

namespace Newsbaoter
namespace Cache

/-- `CYCLES_UNTIL_DELETE`. -/
def cyclesUntilDelete : ℤ := 2

/-- `UPDATE Entry SET Current=Current-1 WHERE FeedID=feedid`. -/
def cacheInitCleanup (feedid : ℤ) (db : Db) : Db :=
  { db with
    entry := db.entry.updateWhere (fun e => e.feedID == feedid)
      (fun e => { e with current := e.current - 1 }) fun _ => rfl }

/-- `strftime('%s','now')-%d` with the retention time printed for `%d`.  The
two minus signs in front of a negative number start a comment that ends the
statement. -/
def cutoff (entryRetention now : ℤ) : ℤ :=
  if entryRetention < 0 then now else now - entryRetention

/-- The `WHERE` clause of `cache_cleanup_old`. -/
def isOld (entryRetention now feedid : ℤ) (e : Entry) : Bool :=
  e.feedID == feedid && e.current ≤ -cyclesUntilDelete && 0 < e.viewed &&
    e.pubDate < cutoff entryRetention now

/-- `DELETE FROM Entry WHERE ...`. -/
def cacheCleanupOld (entryRetention now feedid : ℤ) (db : Db) : Db :=
  { db with entry := db.entry.deleteWhere (isOld entryRetention now feedid) }

/-- `(SELECT FeedID FROM Feed WHERE URL=?1)`. -/
def feedIdOf (db : Db) (url : Option CStr) : Option ℤ :=
  (db.feed.rows.find? fun f => sqlEq f.url url).map Feed.feedID

/-- The row `cache_update_feed` writes; the parameters are bound through `map`,
so `?1` is the URL and occurs twice. -/
def feedRow (db : Db) (data : FeedField → Option CStr) : Feed where
  feedID := (feedIdOf db (data .url)).getD db.feed.freshKey
  title := data .title
  url := data .url
  description := data .desc
  authorName := data .authName
  authorEmail := data .authEmail
  imageURL := data .iurl
  imageText := data .itext

/-- `INSERT OR REPLACE INTO Feed ...`, with `sqlite3_last_insert_rowid`. -/
def cacheUpdateFeed (data : FeedField → Option CStr) (db : Db) : Db × ℤ :=
  ({ db with feed := db.feed.insertOrReplace (feedRow db data) },
    (feedRow db data).feedID)

/-- The row found by `WHERE FeedID=?1 AND UniqueId=?2`. -/
def entryOf (db : Db) (feedid : ℤ) (uid : Option CStr) : Option Entry :=
  db.entry.rows.find? fun e => e.feedID == feedid && sqlEq e.uniqueId uid

/-- A date parameter: `strtol` of the text or `0`, through `sqlite3_bind_int`. -/
def bindDate (text : Option CStr) : ℤ :=
  toInt ((text.map strtol).getD 0)

/-- The row `cache_update_entry` writes.  `Current` is not listed in the
statement and takes its default `1`. -/
def entryRow (db : Db) (feedid : ℤ) (data : EntryField → Option CStr) : Entry where
  entryID := ((entryOf db feedid (data .uid)).map Entry.entryID).getD
    db.entry.freshKey
  feedID := feedid
  viewed := ((entryOf db feedid (data .uid)).map Entry.viewed).getD 0
  pubDate := bindDate (data .pdate)
  modDate := bindDate (data .udate)
  uniqueId := data .uid
  title := data .title
  url := data .url
  authorName := data .authName
  authorEmail := data .authEmail
  description := data .desc
  content := data .content
  current := 1

/-- `INSERT OR REPLACE INTO Entry ...`. -/
def cacheUpdateEntry (feedid : ℤ) (data : EntryField → Option CStr) (db : Db) :
    Db :=
  { db with entry := db.entry.insertOrReplace (entryRow db feedid data) }

/-- `UPDATE Entry SET Viewed=NOT Viewed` for a negative `v`, else
`UPDATE Entry SET Viewed=v`, `WHERE EntryID=id`. -/
def cacheToggleReadEntry (id v : ℤ) (db : Db) : Db :=
  { db with
    entry := db.entry.updateWhere (fun e => e.entryID == id)
      (fun e => { e with
        viewed := if v < 0 then (if e.viewed = 0 then 1 else 0) else v })
      fun _ => rfl }

/-- `UPDATE Entry SET Viewed=1`, for one feed or, with `0`, for all. -/
def cacheReadFeed (feedid : ℤ) (db : Db) : Db :=
  { db with
    entry := db.entry.updateWhere (fun e => feedid == 0 || e.feedID == feedid)
      (fun e => { e with viewed := 1 }) fun _ => rfl }

/-- The database effect of `cache_write_entry_field`: the entry it pipes to
the pager or the downloader is marked read. -/
def cacheWriteEntryField (id : ℤ) (db : Db) : Db :=
  cacheToggleReadEntry id 1 db

/-- `SELECT COUNT(EntryID) FROM Entry WHERE Viewed=0`, which `get_num_unread`
returns as an `int`. -/
def getNumUnread (db : Db) : ℕ :=
  db.entry.rows.countP fun e => e.viewed == 0

end Cache
end Newsbaoter
