import Newsbaoter.Cache.Refresh
import Mathlib.Data.List.Range

/-!
# The download loop

`handle_urls` and what it drives: `http_fetch_init`, `load_new_handles`,
`finish_batch` and `cleanup_handles`.  The list items stand in list order and
`ula[i]` is a position in that list.  Every state carries a log of what the loop
did with the multi handle and its arrays; no function reads the log except to
number the attempts of a URL.
-/

namespace Newsbaoter
namespace Fetch

open Cache (Db RefreshEnv XmlNode xmlprocUpdateCache)

/-! ## The data -/

/-- What `finish_batch` can learn about a finished transfer: a timeout, any
other error of curl, a body `xmlproc_finish` rejects, or a document it stores. -/
inductive Transfer
  | timedOut
  | failed
  | rejected
  | accepted (doc : Option (List XmlNode)) (env : RefreshEnv)

/-- `struct urlitem`. -/
structure UrlItem where
  url : CStr
  nHttperr : ℤ

/-- One index of the arrays `ula`, `xh` and `ce`; the easy handle is known by
its index, and of `xh` only the URL outlives the transfer. -/
structure Slot where
  ula : ℕ
  xh : CStr

/-- `struct http_data`; `anp` is the length of `slots`, and `cm` says that the
multi handle is not `NULL`. -/
structure HttpData where
  cm : Bool
  npara : ℤ
  slots : List Slot
  rnp : ℕ
  newentry : Bool

inductive Event
  | init
  | load (i : ℕ)
  | message (i : ℕ) (t : Transfer)
  | remove (i : ℕ)
  | cleanup (live : Bool)

structure State where
  urls : List UrlItem
  data : HttpData
  db : Db
  log : List Event

structure Config where
  parallelReload : ℤ
  dlRetries : ℤ
  cache : Cache.Config

def Event.loads (i : ℕ) : Event → Bool
  | .load j => j == i
  | _ => false

def attempts (i : ℕ) (log : List Event) : ℕ :=
  log.countP (Event.loads i)

/-- What the loop cannot foresee.  At its `k`-th call curl says how many
transfers run; `n` finished transfers report in some order, one message each;
`outcome i a` is the outcome of the `a`-th transfer of item `i`; and `meanwhile`
is what the rest of the program does to the database before the call. -/
structure Host where
  running : ℕ → ℕ
  order : ℕ → ℕ → List ℕ
  outcome : ℕ → ℕ → Transfer
  meanwhile : ℕ → Db → Db
  order_perm : ∀ k n, (order k n).Perm (List.range n)

/-- A feed without entries. -/
def emptyFeed : Transfer :=
  .accepted (some []) ⟨0, fun _ => ⟨0, 0, 0, 0, 0, 0, 0, 0, 0, 0⟩, fun _ => []⟩

/-- The first transfers end as listed, all later ones succeed; every batch is
over when `handle_urls` looks. -/
def promptHost (first : List Transfer) : Host where
  running _ := 0
  order _ n := List.range n
  outcome _ a := first.getD a emptyFeed
  meanwhile _ db := db
  order_perm _ n := List.Perm.refl (List.range n)

/-- The default retention, and dates that no feed sets. -/
def plainCache : Cache.Config :=
  ⟨259200, ⟨fun _ tp => tp, fun _ => ascii "0"⟩⟩

/-! ## Setting up and tearing down -/

/-- `http_init` and the list `urlparse` built. -/
def httpInit (urls : List CStr) (db : Db) : State where
  urls := urls.map fun url => { url := url, nHttperr := -1 }
  data := { cm := false, npara := 0, slots := [], rnp := 0, newentry := false }
  db := db
  log := []

def httpFetchInit (config : Config) (s : State) : State where
  urls := s.urls.map fun u => { u with nHttperr := -1 }
  data :=
    { cm := true
      npara :=
        if 0 < config.parallelReload then config.parallelReload
        else s.data.npara
      slots := []
      rnp := 0
      newentry := false }
  db := s.db
  log := s.log ++ [.init]

def cleanupHandles (s : State) : State :=
  { s with
    data := { s.data with cm := false, slots := [] }
    log := s.log ++ s.data.slots.map (fun slot => .remove slot.ula) ++
      [.cleanup s.data.cm] }

/-! ## Loading a batch -/

/-- The two tests that let `load_new_handles` pass over an item: that of the
`else if`, made only when `n_httperr` is not negative, and that of the inner
`while`. -/
def passOver (dlRetries : ℤ) (inner : Bool) (n : ℤ) : Bool :=
  (inner || 0 ≤ n) && (n = 0 || dlRetries ≤ n)

/-- `n_httperr` of an item while it is transferred. -/
def loaded (n : ℤ) : ℤ :=
  if n < 0 then 0 else n

/-- The `for` loop of `load_new_handles` with `room` rounds left, at position
`pos` of the list; `inner` says that the `while` inside it is running. -/
def loadWalk (dlRetries : ℤ) :
    Bool → ℕ → ℕ → List UrlItem → List UrlItem × List Slot
  | _, _, _, [] => ([], [])
  | _, 0, _, us => (us, [])
  | inner, room + 1, pos, u :: us =>
      if passOver dlRetries inner u.nHttperr then
        let r := loadWalk dlRetries true (room + 1) (pos + 1) us
        (u :: r.1, r.2)
      else
        let r := loadWalk dlRetries false room (pos + 1) us
        ({ u with nHttperr := loaded u.nHttperr } :: r.1,
          { ula := pos, xh := u.url } :: r.2)

def loadNewHandles (config : Config) (s : State) : State :=
  let r := loadWalk config.dlRetries false s.data.npara.toNat 0 s.urls
  let s' : State :=
    { s with
      urls := r.1
      data := { s.data with slots := r.2 }
      log := s.log ++ r.2.map fun slot => .load slot.ula }
  if r.2.isEmpty then cleanupHandles s' else s'

/-! ## Finishing a batch -/

/-- What `finish_batch` makes of `n_httperr`. -/
def afterTransfer (dlRetries : ℤ) (t : Transfer) (n : ℤ) : ℤ :=
  match t with
  | .timedOut => if n < 0 then 1 else n + 1
  | .failed => dlRetries
  | .rejected => if n < 0 then 1 else n + 1
  | .accepted _ _ => n

/-- What the transfer leaves in the database, and whether it brought new
entries. -/
def storeTransfer (config : Config) (url : CStr) (t : Transfer) (db : Db) :
    Db × Bool :=
  match t with
  | .accepted doc env =>
      xmlprocUpdateCache config.cache { url := url, doc := doc, env := env } db
  | _ => (db, false)

/-- One round of the `while` loop of `finish_batch`: the message about the
easy handle `idx`. -/
def finishMessage (config : Config) (host : Host) (s : State) (idx : ℕ) : State :=
  match s.data.slots[idx]? with
  | none => s
  | some slot =>
      let t := host.outcome slot.ula (attempts slot.ula s.log - 1)
      let stored := storeTransfer config slot.xh t s.db
      { urls := s.urls.modify slot.ula fun u =>
          { u with nHttperr := afterTransfer config.dlRetries t u.nHttperr }
        data := { s.data with newentry := s.data.newentry || stored.2 }
        db := stored.1
        log := s.log ++ [.message slot.ula t] }

/-- After a teardown there is no slot, and so no message. -/
def finishBatch (config : Config) (host : Host) (k : ℕ) (s : State) : State :=
  let s' := (host.order k s.data.slots.length).foldl (finishMessage config host) s
  { s' with log := s'.log ++ s'.data.slots.map fun slot => .remove slot.ula }

/-! ## The loop -/

/-- `process_handles`; on a `NULL` multi handle curl leaves `rnp` alone. -/
def processHandles (host : Host) (k : ℕ) (s : State) : State × Bool :=
  let rnp := if s.data.cm then host.running k else s.data.rnp
  ({ s with data := { s.data with rnp := rnp } }, rnp == 0)

def handleUrls (config : Config) (host : Host) (k : ℕ) (s : State) : State × ℤ :=
  let s₁ :=
    if s.data.cm then s else loadNewHandles config (httpFetchInit config s)
  let r := processHandles host k s₁
  let s₂ :=
    if r.2 then loadNewHandles config (finishBatch config host k r.1) else r.1
  (s₂, if s₂.data.cm then -1 else if s₂.data.newentry then 1 else 0)

/-- The `k`-th call, with what happens to the database before it. -/
def call (config : Config) (host : Host) (k : ℕ) (s : State) : State × ℤ :=
  handleUrls config host k { s with db := host.meanwhile k s.db }

/-- The state after `k` calls. -/
def calls (config : Config) (host : Host) (s : State) : ℕ → State
  | 0 => s
  | k + 1 => (call config host k (calls config host s k)).1

/-- What the `k`-th call returns. -/
def returned (config : Config) (host : Host) (s : State) (k : ℕ) : ℤ :=
  (call config host k (calls config host s k)).2

/-- The cycle that starts with call `0` ends with call `k`. -/
def EndsAt (config : Config) (host : Host) (s : State) (k : ℕ) : Prop :=
  (∀ j < k, returned config host s j < 0) ∧ 0 ≤ returned config host s k

/-- Between two cycles.  `npara` is what `http_init` or the last
`http_fetch_init` left. -/
structure Idle (config : Config) (s : State) : Prop where
  cm : s.data.cm = false
  npara : config.parallelReload ≤ 0 → s.data.npara = 0

theorem idle_httpInit
    (config : Config) (urls : List CStr) (db : Db) :
    Idle config (httpInit urls db) :=
  ⟨by rfl, fun _ => by rfl⟩

end Fetch
end Newsbaoter
