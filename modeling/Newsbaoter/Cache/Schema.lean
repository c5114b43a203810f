import Newsbaoter.Core.Text
import Newsbaoter.Support.KeyedTable

/-!
# The cache database

The two tables the program reads and writes, as `create_db` declares them.
Text columns may be NULL, so they are options.  `FeedID` and `EntryID` are
integer primary keys without a further UNIQUE constraint anywhere.
-/

open Newsbaoter.Support

namespace Newsbaoter
namespace Cache

/-- A row of `Feed`. -/
structure Feed where
  feedID : ℤ
  title : Option CStr
  url : Option CStr
  description : Option CStr
  authorName : Option CStr
  authorEmail : Option CStr
  imageURL : Option CStr
  imageText : Option CStr
deriving DecidableEq

/-- A row of `Entry`. -/
structure Entry where
  entryID : ℤ
  feedID : ℤ
  viewed : ℤ
  pubDate : ℤ
  modDate : ℤ
  uniqueId : Option CStr
  title : Option CStr
  url : Option CStr
  authorName : Option CStr
  authorEmail : Option CStr
  description : Option CStr
  content : Option CStr
  current : ℤ
deriving DecidableEq

structure Db where
  feed : KeyedTable Feed Feed.feedID
  entry : KeyedTable Entry Entry.entryID

/-- The database right after `create_db`. -/
def emptyDb : Db := ⟨KeyedTable.empty, KeyedTable.empty⟩

/-- SQL equality of a column with a bound value: NULL equals nothing. -/
def sqlEq (column value : Option CStr) : Bool :=
  value.isSome && column == value

@[simp] theorem sqlEq_some {column : Option CStr} {s : CStr} :
    sqlEq column (some s) = true ↔ column = some s := by
  simp [sqlEq]

/-- The indices `FFI_*` of the array given to `cache_update_feed`. -/
inductive FeedField
  | title | url | desc | authName | authEmail | iurl | itext
deriving DecidableEq

/-- The indices `EFI_*` of the array given to `cache_update_entry`. -/
inductive EntryField
  | title | pdate | udate | url | authName | authEmail | desc | content | uid
deriving DecidableEq

end Cache
end Newsbaoter
