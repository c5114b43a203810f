import Newsbaoter.Config.Ready
import Newsbaoter.Urls.Tags
import Newsbaoter.View.Keys

/-!
# The program

`main` and the loop of `run_ui`: each turn waits in `select`, passes a key to its
handler, and calls `handle_urls`.  The window, the download loop and the cache
are those of the other modules; here they share one database.
-/

namespace Newsbaoter
namespace Program

open Newsbaoter.Cache (Db TimeLib)
open Newsbaoter.Config (Globals Handler)
open Newsbaoter.Fetch (Host HttpData UrlItem)
open Newsbaoter.View (KhRet Lines Terminal Ui requestListUpdate)

/-! ## The settings -/

/-- What does not change once the options are read. -/
structure Settings where
  globals : Globals
  time : TimeLib
  locale : View.Locale

namespace Settings

variable (S : Settings)

def cache : Cache.Config :=
  ⟨S.globals.config.entryRetention, S.time⟩

def view : View.Config where
  showReadFeeds := S.globals.config.showReadFeeds ≠ 0
  showReadEntries := S.globals.config.showReadEntries ≠ 0
  cache := S.cache
  locale := S.locale

def fetch : Fetch.Config where
  parallelReload := S.globals.config.parallelReload
  dlRetries := S.globals.config.dlRetries
  cache := S.cache

/-- `waittime`, in seconds: a product of `int`. -/
def waittime : ℤ :=
  toInt (S.globals.config.reloadTime * 60)

variable {S} in
/-- Up to 35791394 minutes the product does not overflow. -/
theorem waittime_of_minutes
    (h : 0 ≤ S.globals.config.reloadTime ∧ S.globals.config.reloadTime ≤ 35791394) :
    S.waittime = S.globals.config.reloadTime * 60 :=
  toInt_of_fits (by omega) (by omega)

end Settings

/-! ## The state -/

/-- `struct timeval` -/
structure Timeval where
  sec : ℤ
  usec : ℤ

/-- The window, the URL list, `struct http_data` with its `timeout`, the
`beep_request` of the window, and `last_time`.  The last three fields are outside
of the program: the log of the download loop, and how often `handle_urls` and
`beep` were called. -/
structure World where
  ui : Ui
  urls : List UrlItem
  data : HttpData
  timeout : Timeval
  beepRequest : Bool
  lastTime : ℤ
  log : List Fetch.Event
  calls : ℕ
  beeps : ℕ

/-- What the download loop works on. -/
def World.fetch (w : World) : Fetch.State :=
  ⟨w.urls, w.data, w.ui.mw.db, w.log⟩

def World.withFetch (s : Fetch.State) (w : World) : World :=
  { w with ui.mw.db := s.db, urls := s.urls, data := s.data, log := s.log }

section Run

variable (S : Settings) (host : Host)

/-! ## Fetching -/

def handleUrls (w : World) : World × ℤ :=
  let r := Fetch.handleUrls S.fetch host w.calls w.fetch
  ({ w.withFetch r.1 with calls := w.calls + 1 }, r.2)

/-- `update_view`, with its beep. -/
def updateView (w : World) : Option World :=
  (View.updateView S.view w.ui).map fun ui =>
    { w with
      ui := ui
      beepRequest := false
      beeps := if w.beepRequest then w.beeps + 1 else w.beeps }

/-- What `refresh_all` and the loop do when `handle_urls` has returned `uret`. -/
def cycleEnded (uret : ℤ) (w : World) : Option World :=
  updateView S
    { w with
      beepRequest := uret ≠ 0 ∧ S.globals.config.notifyBeep ≠ 0
      ui := (requestListUpdate S.view w.ui).1 }

def refreshAll (w : World) : Option World :=
  let r := handleUrls S host w
  if 0 ≤ r.2 then cycleEnded S r.2 r.1 else some r.1

/-! ## Keys -/

/-- The operations that work on the window alone; the other one is
`refresh_all`. -/
def viewKey : Handler → Option View.Key
  | .exit => some .exit
  | .next => some .next
  | .prev => some .prev
  | .lowItem => some .low
  | .midItem => some .mid
  | .highItem => some .high
  | .select => some .select
  | .download => some .download
  | .refreshAll => none
  | .catchupFeed => some .catchupFeed
  | .catchupAll => some .catchupAll
  | .toggleRead => some .toggleRead
  | .redrawScreen => some .redraw
  | .printKeyPairs => some .help

def callHandler (h : Handler) (w : World) : Option (World × KhRet) :=
  match viewKey h with
  | none => (refreshAll S host w).map fun w => (w, .ok)
  | some k => (View.processKey S.view k w.ui).map fun r => ({ w with ui := r.1 }, r.2)

/-- The program goes on in a state, or leaves its loop. -/
inductive Outcome
  | goes (w : World)
  | leaves

/-- What the loop does for the return value of a handler; `yes` confirms the exit. -/
def afterKey (yes : Bool) (r : World × KhRet) : Option Outcome :=
  match r.2 with
  | .ok => some (.goes r.1)
  | .update => (updateView S r.1).map .goes
  | .exit =>
      if S.globals.config.confirmExit ≠ 0 ∧ yes = false then (updateView S r.1).map .goes
      else some .leaves

/-- The first `if` behind `select`. -/
def onKey (ch : UInt32) (yes : Bool) (w : World) : Option Outcome :=
  (Config.processKey ch S.globals.keys).bind fun kh =>
    match kh with
    | none => some (.goes w)
    | some h => (callHandler S host h w).bind (afterKey S yes)

/-! ## Waiting -/

/-- The timeout of `select`: `NULL`, the `fetch_to` of the loop, or the `timeout`
of `struct http_data`. -/
inductive Timeout
  | null
  | fetchTo (t : Timeval)
  | inData (t : Timeval)

def Timeout.timeval : Timeout → Option Timeval
  | .null => none
  | .fetchTo t => some t
  | .inData t => some t

/-- `http_get_fds`; `fds` is what `curl_multi_fdset` makes of a multi handle. -/
def httpGetFds (fds : ℤ) (w : World) : ℤ :=
  if w.data.cm then fds else -2

/-- `http_get_timeout`; `timeo` is what `curl_multi_timeout` reports. -/
def httpGetTimeout (timeo : ℤ) (w : World) : World × Timeout :=
  if w.data.cm then
    let t : Timeval :=
      if 0 ≤ timeo then
        if 1 < timeo / 1000 then { w.timeout with sec := 1 }
        else ⟨timeo / 1000, timeo % 1000 * 1000⟩
      else w.timeout
    ({ w with timeout := t }, .inData t)
  else (w, .null)

/-- What `select` is given at the time `now`. -/
def waits (now fds timeo : ℤ) (w : World) : World × Timeout :=
  let ret := httpGetFds fds w
  if ret = -1 then (w, .fetchTo ⟨0, 100000⟩)
  else if S.globals.config.autoReload ≠ 0 ∧ ret < 0 then
    let last := if now < w.lastTime then now else w.lastTime
    ({ w with lastTime := last },
      .fetchTo ⟨if S.waittime < now - last then 0 else S.waittime - (now - last), 0⟩)
  else httpGetTimeout timeo w

/-- `select` may leave in a timeout what has not passed of it. -/
def slept (left : Timeval) (r : World × Timeout) : World :=
  match r.2 with
  | .inData _ => { r.1 with timeout := left }
  | .fetchTo _ => r.1
  | .null => r.1

/-! ## The loop -/

/-- One turn, as the world around the program has it: the clock before `select`,
what curl says of its sockets and its timeout, what `select` returns and leaves of
its timeout, whether there is a key, the key, the clock behind `handle_urls`, and
the resizes of the terminal before the key and before `handle_urls`. -/
structure Turn where
  now : ℤ
  fds : ℤ
  timeo : ℤ
  sret : ℤ
  left : Timeval
  stdin : Bool
  ch : UInt32
  yes : Bool
  later : ℤ
  winch : Option (Terminal × Lines)
  winch' : Option (Terminal × Lines)

/-- The handler of `SIGWINCH`. -/
def resized (winch : Option (Terminal × Lines)) (w : World) : World :=
  { w with ui := winch.elim w.ui fun t => View.catchresize t.1 t.2 w.ui }

def Turn.found (t : Turn) : Bool :=
  0 < t.sret ∧ t.stdin

/-- Whether the loop calls `handle_urls`. -/
def Turn.fetches (t : Turn) : Bool :=
  t.sret = 0 ∨ 0 < t.sret - if t.found then 1 else 0

/-- The second `if` behind `select`. -/
def onFetch (later : ℤ) (w : World) : Option World :=
  let r := handleUrls S host w
  if 0 ≤ r.2 then cycleEnded S r.2 { r.1 with lastTime := later } else some r.1

/-- A turn up to its second `if`. -/
def upToFetch (t : Turn) (w : World) : Option Outcome :=
  let w := resized t.winch (slept t.left (waits S t.now t.fds t.timeo w))
  (if t.found then onKey S host t.ch t.yes w else some (.goes w)).map fun o =>
    match o with
    | .leaves => .leaves
    | .goes w => .goes (resized t.winch' w)

def turn (t : Turn) (w : World) : Option Outcome :=
  (upToFetch S host t w).bind fun o =>
    match o with
    | .leaves => some .leaves
    | .goes w => if t.fetches then (onFetch S host t.later w).map .goes else some (.goes w)

/-- A turn behind which the loop goes on. -/
def step (w : World) (t : Turn) : Option World :=
  (turn S host t w).bind fun o =>
    match o with
    | .goes w => some w
    | .leaves => none

/-- What a turn behind which the loop goes on has done. -/
theorem step_cases {w w' : World} {t : Turn} (hstep : step S host w t = some w') :
    ∃ w₁,
      (t.found = true ∧ onKey S host t.ch t.yes
            (resized t.winch (slept t.left (waits S t.now t.fds t.timeo w))) =
          some (.goes w₁) ∨
        t.found = false ∧
          w₁ = resized t.winch (slept t.left (waits S t.now t.fds t.timeo w))) ∧
      upToFetch S host t w = some (.goes (resized t.winch' w₁)) ∧
      (t.fetches = true ∧ onFetch S host t.later (resized t.winch' w₁) = some w' ∨
        t.fetches = false ∧ w' = resized t.winch' w₁) := by
  obtain ⟨o, hturn, ho⟩ := Option.bind_eq_some_iff.mp hstep
  cases o with
  | leaves => cases ho
  | goes _ =>
      cases ho
      obtain ⟨o, hup, hturn⟩ := Option.bind_eq_some_iff.mp hturn
      cases o with
      | leaves => cases hturn
      | goes w₂ =>
          have hgoes := hup
          obtain ⟨o, hkey, ho⟩ := Option.map_eq_some_iff.mp hup
          cases o with
          | leaves => cases ho
          | goes w₁ =>
              cases ho
              refine ⟨w₁, ?_, hgoes, ?_⟩
              · split at hkey
                · next hfound => exact Or.inl ⟨hfound, hkey⟩
                · next hfound =>
                    cases hkey
                    exact Or.inr ⟨Bool.eq_false_iff.mpr hfound, rfl⟩
              · dsimp only at hturn
                split at hturn
                · next hfetches =>
                    obtain ⟨w₃, hfetch, hw₃⟩ := Option.map_eq_some_iff.mp hturn
                    cases hw₃
                    exact Or.inl ⟨hfetches, hfetch⟩
                · next hfetches =>
                    cases hturn
                    exact Or.inr ⟨Bool.eq_false_iff.mpr hfetches, rfl⟩

/-! ## The start -/

/-- `main` up to the loop of `run_ui`; the clock is read behind the first call of
`handle_urls`. -/
def start (urls : List CStr) (db : Db) (terminal : Terminal) (fresh : Lines) (now : ℤ)
    (winch : Option (Terminal × Lines)) : Option World := do
  let ui ← View.setupUi db terminal fresh
  let w : World :=
    { ui := (requestListUpdate S.view ui).1
      urls := (Fetch.httpInit urls db).urls
      data := (Fetch.httpInit urls db).data
      timeout := ⟨0, 0⟩
      beepRequest := false
      lastTime := now
      log := []
      calls := 0
      beeps := 0 }
  let w := if S.globals.config.autoReload ≠ 0 then (handleUrls S host w).1 else w
  updateView S (resized winch w)

end Run

/-- `main`, from the strings that `read_config_line` delivers of the two files; the
options file may be missing. -/
def main (mbtowc : CStr → Option UInt32) (time : TimeLib) (locale : View.Locale) (host : Host)
    (options : Option (List CStr)) (urlFile : List CStr) (db : Db) (terminal : Terminal)
    (fresh : Lines) (now : ℤ) (winch : Option (Terminal × Lines)) : Option (Settings × World) := do
  let globals ← Config.readConfigOptionsFile mbtowc options
  let tags ← Urls.urlparse urlFile
  let S : Settings := ⟨globals, time, locale⟩
  let w ← start S host (tags.urls.map UrlItem.url) db terminal fresh now winch
  some (S, w)

end Program
end Newsbaoter
