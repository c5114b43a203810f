import Newsbaoter.Cache.Statements

/-!
# Refreshing one feed

`xmlproc_update_cache` walks the transformed feed document and issues the
statements of `create.c`.  What the host contributes to one refresh (the clock,
the random blobs, the contents of the uninitialised `struct tm`) is a
`RefreshEnv`; the two date functions of the C library are a `TimeLib`.
-/

namespace Newsbaoter
namespace Cache

/-! ## The document -/

/-- The nodes of a libxml2 tree the walk looks at: elements, and nodes that
carry their text in `content`. -/
inductive XmlNode
  | elem (name : CStr) (children : List XmlNode)
  | text (content : CStr)

def XmlNode.content : XmlNode → Option CStr
  | .elem _ _ => none
  | .text s => some s

/-- The children of the first element called `name` among some siblings. -/
def findXmlNode (name : CStr) : List XmlNode → Option (List XmlNode)
  | [] => none
  | .elem n children :: rest =>
      if n = name then some children else findXmlNode name rest
  | .text _ :: rest => findXmlNode name rest

def getContentIfAvail (nodes : List XmlNode) (name : CStr) : Option CStr :=
  (findXmlNode name nodes).bind fun children =>
    children.head?.bind XmlNode.content

/-- `feed_fields`. -/
def feedFields : FeedField → CStr
  | .title => ascii "title"
  | .url => ascii "url"
  | .desc => ascii "description"
  | .authName => ascii "authorName"
  | .authEmail => ascii "authorEmail"
  | .iurl => ascii "imageUrl"
  | .itext => ascii "imageText"

/-- `entry_fields`. -/
def entryFields : EntryField → CStr
  | .title => ascii "title"
  | .pdate => ascii "publishDateTime"
  | .udate => ascii "lastUpdatedDateTime"
  | .url => ascii "url"
  | .authName => ascii "authorName"
  | .authEmail => ascii "authorEmail"
  | .desc => ascii "description"
  | .content => ascii "content"
  | .uid => ascii "entryUniqueId"

/-- The children of each `entry` element among some siblings, in order. -/
def entryNodes : List XmlNode → List (List XmlNode)
  | [] => []
  | .elem n children :: rest =>
      if n = ascii "entry" then children :: entryNodes rest else entryNodes rest
  | .text _ :: rest => entryNodes rest

/-! ## What the host contributes -/

/-- `struct tm`. -/
structure Tm where
  sec : ℤ
  min : ℤ
  hour : ℤ
  mday : ℤ
  mon : ℤ
  year : ℤ
  wday : ℤ
  yday : ℤ
  isdst : ℤ
  gmtoff : ℤ

/-- `strptime(s,"%F %T %z",&tp)` as a change of `tp`, and the text that
`strftime(dst,20,"%s",&tp)` writes. -/
structure TimeLib where
  strptime : CStr → Tm → Tm
  strftime : Tm → CStr

structure RefreshEnv where
  /-- `strftime('%s','now')` -/
  now : ℤ
  /-- `tp` on entry to the `i`-th call of `update_entry` -/
  tp : ℕ → Tm
  /-- `hex(randomblob(32))` for the `i`-th entry -/
  uid : ℕ → CStr

/-- One finished transfer: the URL of its list item, the children of the root
of the transformed document if it has a root, and the host's part. -/
structure Refresh where
  url : CStr
  doc : Option (List XmlNode)
  env : RefreshEnv

/-- The options and the library functions a refresh depends on. -/
structure Config where
  entryRetention : ℤ
  time : TimeLib

/-! ## The walk -/

def feedData (url : CStr) (children : List XmlNode) : FeedField → Option CStr
  | .url => some url
  | f => getContentIfAvail children (feedFields f)

/-- `update_feed`; the second component is `h->feedid`. -/
def updateFeed (url : CStr) (children : List XmlNode) (db : Db) : Db × ℤ :=
  cacheUpdateFeed (feedData url children) db

/-- The title `update_entry` settles on for a node without one. -/
def fallbackTitle (desc content : Option CStr) (uid : CStr) : CStr :=
  match desc, content with
  | some d, _ => d.take 49
  | none, some c => c.take 49
  | none, none => uid

/-- The array `ei` when `update_entry` calls `cache_update_entry`.  One `tp`
serves both dates, so the second `strptime` starts from what the first left. -/
def entryData (time : TimeLib) (tp : Tm) (uid : CStr) (children : List XmlNode) :
    EntryField → Option CStr :=
  let ei := fun f => getContentIfAvail children (entryFields f)
  let tpP := match ei .pdate with
    | some s => time.strptime s tp
    | none => tp
  let pdate := (ei .pdate).map fun _ => time.strftime tpP
  let udate := (ei .udate).map fun s => time.strftime (time.strptime s tpP)
  let ident := (ei .uid).getD uid
  fun
  | .title => some ((ei .title).getD (fallbackTitle (ei .desc) (ei .content) ident))
  | .pdate => pdate.or udate
  | .udate => udate
  | .uid => some ident
  | f => ei f

def updateEntry (time : TimeLib) (tp : Tm) (uid : CStr) (feedid : ℤ)
    (children : List XmlNode) (db : Db) : Db :=
  cacheUpdateEntry feedid (entryData time tp uid children) db

def updateEntries (config : Config) (env : RefreshEnv) (feedid : ℤ)
    (children : List XmlNode) (db : Db) : Db :=
  let walked := (entryNodes children).zipIdx.foldl
    (fun db node =>
      updateEntry config.time (env.tp node.2) (env.uid node.2) feedid node.1 db)
    (cacheInitCleanup feedid db)
  cacheCleanupOld config.entryRetention env.now feedid walked

/-- `xmlproc_update_cache`; the flag says that the number of unread entries
rose, as an `int`. -/
def xmlprocUpdateCache (config : Config) (r : Refresh) (db : Db) : Db × Bool :=
  match r.doc with
  | none => (db, false)
  | some children =>
      let updated := updateFeed r.url children db
      let final := updateEntries config r.env updated.2 children updated.1
      (final, toInt (getNumUnread db) < toInt (getNumUnread final))

end Cache
end Newsbaoter
