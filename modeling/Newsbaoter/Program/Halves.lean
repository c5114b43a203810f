import Newsbaoter.Cache.Marks
import Newsbaoter.Fetch.NewEntries
import Newsbaoter.Program.Main

/-!
# The two halves of the program

The window was taken with any refreshes between its keys, and the download loop
with any work on the cache between its calls.  A run of the program is a run of
both, in which each half finds what the other one does.
-/

namespace Newsbaoter
namespace Program

open Newsbaoter.Support
open Newsbaoter.Cache (Db Issued Op xmlprocUpdateCache)
open Newsbaoter.Fetch (Host State Update calls messageUpdates messagesUpdates proceedUpdates)
open Newsbaoter.View (KhRet Key Lines Terminal Ui orFeeds refreshed requestListUpdate)

/-! ## What a key does to the cache -/

/-- Some operations of the cache lead from one database to the other. -/
def Works (config : Cache.Config) (db db' : Db) : Prop :=
  ∃ ops : List Op, (∀ op ∈ ops, Issued op) ∧ db' = ops.foldl (Op.apply config) db

theorem Works.refl (config : Cache.Config) (db : Db) : Works config db db :=
  ⟨[], fun _ hop => absurd hop List.not_mem_nil, rfl⟩

theorem Works.one (config : Cache.Config) (db : Db) (op : Op) (hop : Issued op) :
    Works config db (op.apply config db) :=
  ⟨[op], fun _ hop' => List.mem_singleton.mp hop' ▸ hop, rfl⟩

theorem Works.trans {config : Cache.Config} {db db' db'' : Db} (h : Works config db db')
    (h' : Works config db' db'') : Works config db db'' := by
  obtain ⟨ops, hops, rfl⟩ := h
  obtain ⟨ops', hops', rfl⟩ := h'
  exact ⟨ops ++ ops', List.forall_mem_append.mpr ⟨hops, hops'⟩, List.foldl_append.symm⟩

theorem db_orFeeds (config : View.Config) (r : Ui × Bool) :
    (orFeeds config r).mw.db = r.1.mw.db := by
  rw [orFeeds]
  split
  · rfl
  · rfl

theorem db_moveItem
    {move : Ui → Ui × KhRet} (hmove : ∀ s, (move s).1.mw.db = s.mw.db) {s : Ui} {r : Ui × KhRet}
    (h : View.moveItem move s = some r) : r.1.mw.db = s.mw.db := by
  rw [View.eq_of_moveItem h]
  exact hmove (View.restyled s)

theorem db_nextRow (config : View.Config) (s : Ui) : (View.nextRow config s).1.mw.db = s.mw.db := by
  rw [View.nextRow]
  split
  · rfl
  · split
    · dsimp only
      split
      · rfl
      · rfl
    · rfl

theorem db_prevRow (config : View.Config) (s : Ui) : (View.prevRow config s).1.mw.db = s.mw.db := by
  rw [View.prevRow]
  split
  · rfl
  · split
    · rfl
    · rfl

theorem works_selectItem
    {config : View.Config} {s : Ui} {r : Ui × KhRet} (h : View.selectItem config s = some r) :
    Works config.cache s.mw.db r.1.mw.db := by
  obtain ⟨id, -, h⟩ := Option.bind_eq_some_iff.mp h
  cases hctx : s.mw.ctxType with
  | entries =>
      rw [hctx] at h
      cases h
      rw [db_orFeeds]
      exact Works.one _ _ (.writeField id) trivial
  | feeds =>
      rw [hctx] at h
      dsimp only at h
      split at h
      · cases h
        exact Works.refl _ _
      · obtain ⟨t, ht, h⟩ := Option.bind_eq_some_iff.mp h
        obtain ⟨u, hu, h⟩ := Option.bind_eq_some_iff.mp h
        cases h
        rw [View.eq_of_restyleFocusItem ht] at hu
        rw [View.eq_of_restyleFocusItem hu]
        exact Works.refl _ _

theorem works_toggleRead
    {config : View.Config} {s : Ui} {r : Ui × KhRet} (h : View.toggleRead config s = some r) :
    Works config.cache s.mw.db r.1.mw.db := by
  rw [View.toggleRead] at h
  split at h
  · cases h
    exact Works.refl _ _
  · obtain ⟨id, -, h⟩ := Option.bind_eq_some_iff.mp h
    dsimp only at h
    split at h
    · cases h
      exact Works.one _ _ (.toggleRead id (-1)) rfl
    · obtain ⟨t, ht, h⟩ := Option.bind_eq_some_iff.mp h
      cases h
      rw [View.eq_of_restyleFocusItem ht]
      exact Works.one _ _ (.toggleRead id (-1)) rfl

theorem works_catchupFeed
    {config : View.Config} {s : Ui} {r : Ui × KhRet} (h : View.catchupFeed config s = some r) :
    Works config.cache s.mw.db r.1.mw.db := by
  rw [View.catchupFeed] at h
  split at h
  · obtain ⟨id, -, h⟩ := Option.bind_eq_some_iff.mp h
    obtain ⟨t, ht, h⟩ := Option.bind_eq_some_iff.mp h
    cases h
    rw [View.eq_of_restyleFocusItem ht]
    exact Works.one _ _ (.readFeed id) trivial
  · cases h
    rw [db_orFeeds]
    exact Works.one _ _ (.readFeed s.mw.ctxId) trivial

/-- A key works on the cache with the statements of `cache.h`. -/
theorem works_processKey
    {config : View.Config} {k : Key} {s : Ui} {r : Ui × KhRet}
    (h : View.processKey config k s = some r) : Works config.cache s.mw.db r.1.mw.db := by
  cases k with
  | next => exact db_moveItem (db_nextRow config) h ▸ Works.refl _ _
  | prev => exact db_moveItem (db_prevRow config) h ▸ Works.refl _ _
  | low => exact db_moveItem (fun _ => rfl) h ▸ Works.refl _ _
  | mid => exact db_moveItem (fun _ => rfl) h ▸ Works.refl _ _
  | high => exact db_moveItem (fun _ => rfl) h ▸ Works.refl _ _
  | select => exact works_selectItem h
  | download =>
      rw [View.processKey, View.downloadItem] at h
      split at h
      · cases h
        exact Works.refl _ _
      · obtain ⟨id, -, h⟩ := Option.bind_eq_some_iff.mp h
        cases h
        rw [db_orFeeds]
        exact Works.one _ _ (.writeField id) trivial
  | catchupFeed => exact works_catchupFeed h
  | catchupAll =>
      cases h
      rw [db_orFeeds]
      exact Works.one _ _ (.readFeed 0) trivial
  | toggleRead => exact works_toggleRead h
  | exit =>
      rw [View.processKey, View.contextExit] at h
      split at h
      · cases h
        exact Works.refl _ _
      · cases h
        exact Works.refl _ _
  | redraw =>
      cases h
      exact Works.refl _ _
  | help =>
      cases h
      exact Works.refl _ _

theorem db_regenWindows {s t : Ui} (h : View.regenWindows s = some t) : t.mw.db = s.mw.db := by
  simp only [View.regenWindows, Option.ite_none_right_eq_some] at h
  obtain ⟨-, h⟩ := h
  cases h
  rfl

theorem db_resizeMainwindow {s t : Ui} (h : View.resizeMainwindow s = some t) :
    t.mw.db = s.mw.db := by
  rw [View.resizeMainwindow] at h
  split at h
  · obtain ⟨u, hu, h⟩ := Option.bind_eq_some_iff.mp h
    have hdb := db_regenWindows hu
    cases h
    exact hdb
  · cases h
    rfl

theorem db_updateView
    {config : View.Config} {s t : Ui} (h : View.updateView config s = some t) :
    t.mw.db = s.mw.db := by
  have hdraw : ∀ u : Ui, (if u.mw.bodyLen ≤ u.bwLen then some (View.drawLines u) else none) = some t →
      t.mw.db = u.mw.db := by
    intro u hu
    split at hu
    · cases hu
      rfl
    · cases hu
  rw [View.updateView] at h
  split at h
  · obtain ⟨u, hu, h⟩ := Option.bind_eq_some_iff.mp h
    obtain ⟨v, hv, rfl⟩ := Option.map_eq_some_iff.mp hu
    have hdb := db_resizeMainwindow hv
    exact (hdraw _ h).trans hdb
  · exact hdraw s h

theorem db_afterKey
    {config : View.Config} {r : Ui × KhRet} {t : Ui} (h : View.afterKey config r = some t) :
    t.mw.db = r.1.mw.db := by
  rw [View.afterKey] at h
  split at h
  · cases h
    rfl
  · exact db_updateView h
  · exact db_updateView h

/-! ## What a call does to the cache -/

/-- The database after some refreshes. -/
def stored (config : Cache.Config) (us : List Update) (db : Db) : Db :=
  us.foldl (fun db u => (xmlprocUpdateCache config u.refresh db).1) db

theorem db_finishMessage (config : Fetch.Config) (host : Host) (s : State) (idx : ℕ) :
    (Fetch.finishMessage config host s idx).db =
      stored config.cache (messageUpdates host s idx) s.db := by
  rw [Fetch.finishMessage, messageUpdates]
  cases s.data.slots[idx]? with
  | none => rfl
  | some slot =>
      dsimp only
      cases host.outcome slot.ula (Fetch.attempts slot.ula s.log - 1) with
      | accepted doc env => rfl
      | _ => rfl

theorem db_finishMessages (config : Fetch.Config) (host : Host) (s : State) (idxs : List ℕ) :
    (idxs.foldl (Fetch.finishMessage config host) s).db =
      stored config.cache (messagesUpdates config host s idxs) s.db := by
  induction idxs generalizing s with
  | nil => rfl
  | cons idx idxs ih =>
      rw [List.foldl_cons, ih, db_finishMessage, messagesUpdates, stored, stored, stored,
        List.foldl_append]

theorem db_loadNewHandles (config : Fetch.Config) (s : State) :
    (Fetch.loadNewHandles config s).db = s.db := by
  rw [Fetch.loadNewHandles]
  dsimp only
  split
  · rfl
  · rfl

theorem db_proceed (config : Fetch.Config) (host : Host) (k : ℕ) (s : State) :
    (Fetch.proceed config host k s).1.db =
      stored config.cache (proceedUpdates config host k s) s.db := by
  rw [Fetch.proceed, proceedUpdates]
  dsimp only
  split
  · rw [db_loadNewHandles]
    exact db_finishMessages config host _ _
  · rfl

/-- A call stores some documents. -/
theorem exists_refreshes (S : Settings) (host : Host) (k : ℕ) (s : State) :
    ∃ rs, (Fetch.handleUrls S.fetch host k s).1.db = refreshed S.view rs s.db := by
  have hstored : ∀ us : List Update, ∀ db,
      stored S.cache us db = refreshed S.view (us.map Update.refresh) db := by
    intro us db
    rw [stored, refreshed, List.foldl_map]
    rfl
  have hloaded : (if s.data.cm then s
      else Fetch.loadNewHandles S.fetch (Fetch.httpFetchInit S.fetch s)).db = s.db := by
    split
    · rfl
    · rw [db_loadNewHandles]
      rfl
  rw [Fetch.handleUrls_eq, db_proceed, hloaded]
  exact ⟨_, hstored _ s.db⟩

/-! ## The download loop between the keys -/

/-- The host of a run in which the keys do `ops k` to the cache before call `k`. -/
def withOps (config : Cache.Config) (host : Host) (ops : ℕ → List Op) : Host :=
  { host with meanwhile := fun k db => (ops k).foldl (Op.apply config) db }

/-- Calls only know what was done before them. -/
theorem calls_congr
    (config : Fetch.Config) (host : Host) (s : State) {ops ops' : ℕ → List Op} {k : ℕ}
    (h : ∀ j < k, ops j = ops' j) :
    calls config (withOps config.cache host ops) s k =
      calls config (withOps config.cache host ops') s k := by
  induction k with
  | zero => rfl
  | succ k ih =>
      rw [calls, calls, ih fun j hj => h j (Nat.lt_succ_of_lt hj), Fetch.call, Fetch.call]
      have hops : (withOps config.cache host ops).meanwhile k =
          (withOps config.cache host ops').meanwhile k := by
        funext db
        simp only [withOps, h k (Nat.lt_succ_self k)]
      rw [hops]
      rfl

/-- The state the download loop will find at its next call. -/
def pending (config : Fetch.Config) (host : Host) (s : State) (ops : ℕ → List Op) (k : ℕ) :
    State :=
  let t := calls config (withOps config.cache host ops) s k
  { t with db := (ops k).foldl (Op.apply config.cache) t.db }

/-- Some more is done before the next call. -/
theorem pending_concat
    (config : Fetch.Config) (host : Host) (s : State) (ops : ℕ → List Op) (k : ℕ)
    (more : List Op) :
    pending config host s (Function.update ops k (ops k ++ more)) k =
      let t := pending config host s ops k
      { t with db := more.foldl (Op.apply config.cache) t.db } := by
  have hbefore : ∀ j < k, Function.update ops k (ops k ++ more) j = ops j :=
    fun j hj => Function.update_of_ne (Nat.ne_of_lt hj) _ _
  rw [pending, calls_congr config host s hbefore, Function.update_self, List.foldl_append]
  rfl

/-- The next call is made. -/
theorem pending_call
    (config : Fetch.Config) (host : Host) (s : State) (ops : ℕ → List Op) (k : ℕ) :
    pending config host s (Function.update ops (k + 1) []) (k + 1) =
      (Fetch.handleUrls config host k (pending config host s ops k)).1 := by
  have hbefore : ∀ j < k + 1, Function.update ops (k + 1) [] j = ops j :=
    fun j hj => Function.update_of_ne (Nat.ne_of_lt hj) _ _
  rw [pending, calls_congr config host s hbefore, Function.update_self]
  rfl

/-! ## Both halves -/

/-- How many of the calls from call `first` on ended a cycle with new entries. -/
def reports (S : Settings) (host : Host) (s : State) (ops : ℕ → List Op) (first k : ℕ) : ℕ :=
  (List.range k).countP fun j =>
    first ≤ j ∧ Fetch.returned S.fetch (withOps S.cache host ops) s j = 1

theorem returned_withOps
    (S : Settings) (host : Host) (s : State) (ops : ℕ → List Op) (k : ℕ) :
    Fetch.returned S.fetch (withOps S.cache host ops) s k =
      (Fetch.handleUrls S.fetch host k (pending S.fetch host s ops k)).2 := by
  rfl

theorem reports_congr
    (S : Settings) (host : Host) (s : State) {ops ops' : ℕ → List Op} (first : ℕ) {k : ℕ}
    (h : ∀ j < k, ops j = ops' j) :
    reports S host s ops first k = reports S host s ops' first k := by
  apply List.countP_congr
  intro j hj
  have hlt := List.mem_range.mp hj
  have hpending : pending S.fetch host s ops j = pending S.fetch host s ops' j := by
    have hcalls := calls_congr S.fetch host s fun i hi => h i (Nat.lt_trans hi hlt)
    simp only [pending, hcalls, h j hlt]
  simp only [returned_withOps, hpending]

/-- Where the events of the window come from: keys with a binding, calls of
`handle_urls`, and resizes, if there are any. -/
def Source (S : Settings) (resizes : Prop) : View.Event → Prop
  | .key k => ∃ ch handler, Config.processKey ch S.globals.keys = some (some handler) ∧
      viewKey handler = some k
  | .fetch _ _ => True
  | .winch _ _ => resizes

/-- How a state of the program is reached: the window by the events `evs`, and
the download loop with `ops k` done to the cache before call `k`.  No beep is
pending, and there was one for each report of new entries. -/
structure Coupled (S : Settings) (host : Host) (s₀ : State) (ui₀ : Ui) (first : ℕ)
    (resizes : Prop) (ops : ℕ → List Op) (evs : List View.Event) (w : World) : Prop where
  window : runs (View.step S.view) ui₀ evs = some w.ui
  sources : ∀ e ∈ evs, Source S resizes e
  loop : w.fetch = pending S.fetch host s₀ ops w.calls
  quiet : w.beepRequest = false
  beeps : w.beeps =
    if S.globals.config.notifyBeep = 0 then 0 else reports S host s₀ ops first w.calls
  started : first ≤ w.calls
  issued : ∀ k, ∀ op ∈ ops k, Issued op

/-- Nothing but the clock and the timeout of `select` is different. -/
structure SameButTime (w w' : World) : Prop where
  ui : w'.ui = w.ui
  fetch : w'.fetch = w.fetch
  beepRequest : w'.beepRequest = w.beepRequest
  calls : w'.calls = w.calls
  beeps : w'.beeps = w.beeps

section Coupling

variable {S : Settings} {host : Host} {s₀ : State} {ui₀ : Ui} {first : ℕ} {resizes : Prop}
  {ops : ℕ → List Op} {evs : List View.Event} {w w' : World}

theorem Coupled.same (h : Coupled S host s₀ ui₀ first resizes ops evs w) (hsame : SameButTime w w') :
    Coupled S host s₀ ui₀ first resizes ops evs w' where
  window := by rw [hsame.ui, h.window]
  sources := h.sources
  loop := by rw [hsame.fetch, hsame.calls, h.loop]
  quiet := by rw [hsame.beepRequest, h.quiet]
  beeps := by rw [hsame.beeps, hsame.calls, h.beeps]
  started := by rw [hsame.calls]; exact h.started
  issued := h.issued

theorem runs_concat {e : View.Event} {s t u : Ui} (h : runs (View.step S.view) s evs = some t)
    (hstep : View.step S.view t e = some u) : runs (View.step S.view) s (evs ++ [e]) = some u := by
  rw [runs_append, h, Option.bind_some, runs_cons, hstep]
  rfl

theorem issued_update
    {k : ℕ} {more : List Op} (hops : ∀ k, ∀ op ∈ ops k, Issued op)
    (hmore : ∀ op ∈ more, Issued op) :
    ∀ j, ∀ op ∈ Function.update ops k more j, Issued op := by
  intro j
  by_cases hj : j = k
  · rw [hj, Function.update_self]
    exact hmore
  · rw [Function.update_of_ne hj]
    exact hops j

theorem Coupled.sources_concat
    (h : Coupled S host s₀ ui₀ first resizes ops evs w) {e : View.Event}
    (hsource : Source S resizes e) : ∀ e' ∈ evs ++ [e], Source S resizes e' :=
  List.forall_mem_append.mpr ⟨h.sources, fun _ he' => List.mem_singleton.mp he' ▸ hsource⟩

/-- An event of the window, which works on the cache. -/
theorem Coupled.event
    (h : Coupled S host s₀ ui₀ first resizes ops evs w) {e : View.Event} {ui : Ui}
    (hstep : View.step S.view w.ui e = some ui) (hsource : Source S resizes e)
    (hworks : Works S.cache w.ui.mw.db ui.mw.db) :
    ∃ ops', Coupled S host s₀ ui₀ first resizes ops' (evs ++ [e]) { w with ui := ui } := by
  obtain ⟨more, hissued, hmore⟩ := hworks
  have hbefore : ∀ j < w.calls, Function.update ops w.calls (ops w.calls ++ more) j = ops j :=
    fun j hj => Function.update_of_ne (Nat.ne_of_lt hj) _ _
  refine ⟨Function.update ops w.calls (ops w.calls ++ more), runs_concat h.window hstep,
    h.sources_concat hsource, ?_, h.quiet, ?_, h.started, ?_⟩
  · dsimp only
    have hcache : S.fetch.cache = S.cache := rfl
    rw [pending_concat, ← h.loop, World.fetch, World.fetch, hmore, hcache]
  · dsimp only
    rw [reports_congr S host s₀ first hbefore]
    exact h.beeps
  · exact issued_update h.issued (List.forall_mem_append.mpr ⟨h.issued w.calls, hissued⟩)

theorem handleUrls_snd (S : Settings) (host : Host) (w : World) :
    (handleUrls S host w).2 = -1 ∨ (handleUrls S host w).2 = 0 ∨ (handleUrls S host w).2 = 1 := by
  have hret : (handleUrls S host w).2 = if (handleUrls S host w).1.data.cm then -1
      else if (handleUrls S host w).1.data.newentry then 1 else 0 := rfl
  rw [hret]
  split
  · exact Or.inl rfl
  · split
    · exact Or.inr (Or.inr rfl)
    · exact Or.inr (Or.inl rfl)

/-- The call is one more for the download loop, and counts if it reports. -/
theorem Coupled.called
    (h : Coupled S host s₀ ui₀ first resizes ops evs w) :
    (handleUrls S host w).1.fetch =
        pending S.fetch host s₀ (Function.update ops (w.calls + 1) []) (w.calls + 1) ∧
      reports S host s₀ (Function.update ops (w.calls + 1) []) first (w.calls + 1) =
        reports S host s₀ ops first w.calls + if (handleUrls S host w).2 = 1 then 1 else 0 := by
  have hbefore : ∀ j < w.calls + 1, Function.update ops (w.calls + 1) [] j = ops j :=
    fun j hj => Function.update_of_ne (Nat.ne_of_lt hj) _ _
  constructor
  · rw [pending_call, ← h.loop]
    rfl
  · have hreturned : Fetch.returned S.fetch (withOps S.cache host ops) s₀ w.calls =
        (handleUrls S host w).2 := by
      rw [returned_withOps, ← h.loop]
      rfl
    rw [reports_congr S host s₀ first hbefore, reports, List.range_succ, List.countP_append,
      List.countP_singleton, hreturned, reports]
    simp [h.started]

/-- A call of `handle_urls`, and what is done where it ends a cycle. -/
theorem Coupled.call
    (h : Coupled S host s₀ ui₀ first resizes ops evs w)
    (hcall : (if 0 ≤ (handleUrls S host w).2 then
        cycleEnded S (handleUrls S host w).2 (handleUrls S host w).1
      else some (handleUrls S host w).1) = some w') :
    ∃ ops' evs', Coupled S host s₀ ui₀ first resizes ops' evs' w' := by
  obtain ⟨rs, hrs⟩ := exists_refreshes S host w.calls w.fetch
  obtain ⟨hloop, hreports⟩ := h.called
  have hui : (handleUrls S host w).1.ui =
      { w.ui with mw.db := refreshed S.view rs w.ui.mw.db } := by
    rw [handleUrls]
    simp only [World.withFetch, hrs]
    rfl
  have hstarted : first ≤ w.calls + 1 := Nat.le_succ_of_le h.started
  have hissued := issued_update (k := w.calls + 1) h.issued
    fun _ hop => absurd hop List.not_mem_nil
  refine ⟨Function.update ops (w.calls + 1) [], ?_⟩
  by_cases hended : 0 ≤ (handleUrls S host w).2
  · rw [if_pos hended] at hcall
    obtain ⟨ui, hview, rfl⟩ := Option.map_eq_some_iff.mp hcall
    refine ⟨evs ++ [.fetch rs true], runs_concat h.window ?_,
      h.sources_concat (e := .fetch rs true) trivial, ?_, rfl, ?_, hstarted, hissued⟩
    · dsimp only at hview
      rw [hui] at hview
      exact hview
    · have hfetch : World.fetch { (handleUrls S host w).1 with
          ui := (requestListUpdate S.view (handleUrls S host w).1.ui).1 } =
            (handleUrls S host w).1.fetch := rfl
      rw [← hfetch] at hloop
      exact (congrArg (fun db => State.mk _ _ db _) (db_updateView hview)).trans hloop
    · have hbeeps : (handleUrls S host w).1.beeps = w.beeps := rfl
      have hcalls : (handleUrls S host w).1.calls = w.calls + 1 := rfl
      dsimp only
      rw [hbeeps, hcalls, hreports, h.beeps]
      rcases handleUrls_snd S host w with hret | hret | hret
      · rw [hret] at hended
        exact absurd hended (by decide)
      · simp [hret]
      · by_cases hbeep : S.globals.config.notifyBeep = 0
        · simp [hret, hbeep]
        · simp [hret, hbeep]
  · rw [if_neg hended] at hcall
    cases hcall
    refine ⟨evs ++ [.fetch rs false], runs_concat h.window ?_,
      h.sources_concat (e := .fetch rs false) trivial, hloop, h.quiet, ?_, hstarted, hissued⟩
    · rw [hui]
      rfl
    · have hsilent : ¬(handleUrls S host w).2 = 1 := fun hone => hended (by rw [hone]; decide)
      have hcalls : (handleUrls S host w).1.calls = w.calls + 1 := rfl
      rw [if_neg hsilent, Nat.add_zero] at hreports
      rw [hcalls, hreports]
      exact h.beeps

theorem Coupled.resized
    (h : Coupled S host s₀ ui₀ first resizes ops evs w) {winch : Option (Terminal × Lines)}
    (hwinch : winch ≠ none → resizes) :
    ∃ ops' evs', Coupled S host s₀ ui₀ first resizes ops' evs' (resized winch w) := by
  cases winch with
  | none => exact ⟨ops, evs, h⟩
  | some t =>
      obtain ⟨ops', h'⟩ := h.event (e := .winch t.1 t.2) rfl (hwinch (Option.some_ne_none t))
        (Works.refl _ _)
      exact ⟨ops', _, h'⟩

/-- No beep is pending, so `update_view` paints alone. -/
theorem Coupled.updated
    (h : Coupled S host s₀ ui₀ first resizes ops evs w) {ui : Ui}
    (hupdate : updateView S { w with ui := ui } = some w') :
    ∃ ui', View.updateView S.view ui = some ui' ∧ SameButTime { w with ui := ui' } w' := by
  obtain ⟨ui', hview, rfl⟩ := Option.map_eq_some_iff.mp hupdate
  refine ⟨ui', hview, rfl, rfl, h.quiet.symm, rfl, ?_⟩
  dsimp only
  rw [h.quiet]
  rfl

/-- A key of the window, and what the loop does for its return value. -/
theorem Coupled.key
    (h : Coupled S host s₀ ui₀ first resizes ops evs w) {k : Key} {u : Ui × KhRet} {ui : Ui}
    (hsource : Source S resizes (.key k)) (hkey : View.processKey S.view k w.ui = some u)
    (hafter : View.afterKey S.view u = some ui) :
    ∃ ops', Coupled S host s₀ ui₀ first resizes ops' (evs ++ [.key k]) { w with ui := ui } := by
  have hworks := works_processKey hkey
  refine h.event ?_ hsource ?_
  · rw [View.step, hkey]
    exact hafter
  · rw [db_afterKey hafter]
    exact hworks

theorem Coupled.onKey
    (h : Coupled S host s₀ ui₀ first resizes ops evs w) {ch : UInt32} {yes : Bool}
    (hkey : onKey S host ch yes w = some (.goes w')) :
    ∃ ops' evs', Coupled S host s₀ ui₀ first resizes ops' evs' w' := by
  obtain ⟨kh, hbound, hkey⟩ := Option.bind_eq_some_iff.mp hkey
  cases kh with
  | none =>
      cases hkey
      exact ⟨ops, evs, h⟩
  | some handler =>
      obtain ⟨r, hcall, hkey⟩ := Option.bind_eq_some_iff.mp hkey
      rw [callHandler] at hcall
      cases hk : viewKey handler with
      | none =>
          rw [hk] at hcall
          obtain ⟨w₁, hrefresh, rfl⟩ := Option.map_eq_some_iff.mp hcall
          cases hkey
          exact h.call hrefresh
      | some k =>
          rw [hk] at hcall
          obtain ⟨⟨ui, ret⟩, hprocess, rfl⟩ := Option.map_eq_some_iff.mp hcall
          have hsource : Source S resizes (.key k) := ⟨ch, handler, hbound, hk⟩
          -- what remains is `update_view`, unless the handler has painted
          have hpainted : ret ≠ .ok → (updateView S { w with ui := ui }).map Outcome.goes =
              some (.goes w') → ∃ ops' evs', Coupled S host s₀ ui₀ first resizes ops' evs' w' := by
            intro hret hupdate
            obtain ⟨w₁, hview, hw₁⟩ := Option.map_eq_some_iff.mp hupdate
            cases hw₁
            obtain ⟨ui', hview, hsame⟩ := h.updated hview
            have hafter : View.afterKey S.view (ui, ret) = some ui' := by
              cases ret with
              | ok => exact absurd rfl hret
              | exit => exact hview
              | update => exact hview
            obtain ⟨ops', h'⟩ := h.key hsource hprocess hafter
            exact ⟨ops', _, h'.same hsame⟩
          cases ret with
          | ok =>
              cases hkey
              obtain ⟨ops', h'⟩ := h.key hsource hprocess rfl
              exact ⟨ops', _, h'⟩
          | update => exact hpainted (by decide) hkey
          | exit =>
              rw [Program.afterKey] at hkey
              dsimp only at hkey
              split at hkey
              · exact hpainted (by decide) hkey
              · cases hkey

theorem sameButTime_slept (S : Settings) (now fds timeo : ℤ) (left : Timeval) (w : World) :
    SameButTime w (slept left (waits S now fds timeo w)) := by
  rw [waits]
  dsimp only
  split
  · exact ⟨rfl, rfl, rfl, rfl, rfl⟩
  · split
    · exact ⟨rfl, rfl, rfl, rfl, rfl⟩
    · rw [httpGetTimeout]
      split
      · exact ⟨rfl, rfl, rfl, rfl, rfl⟩
      · exact ⟨rfl, rfl, rfl, rfl, rfl⟩

theorem Coupled.onFetch
    (h : Coupled S host s₀ ui₀ first resizes ops evs w) {later : ℤ}
    (hfetch : onFetch S host later w = some w') :
    ∃ ops' evs', Coupled S host s₀ ui₀ first resizes ops' evs' w' := by
  rw [Program.onFetch] at hfetch
  by_cases hended : 0 ≤ (handleUrls S host w).2
  · -- the clock is read before the lines are listed again
    have hsame : SameButTime w { w with lastTime := later } := ⟨rfl, rfl, rfl, rfl, rfl⟩
    apply (h.same hsame).call
    have hreturned : (handleUrls S host { w with lastTime := later }).2 =
        (handleUrls S host w).2 := rfl
    rw [hreturned, if_pos hended]
    rw [if_pos hended] at hfetch
    exact hfetch
  · apply h.call
    rw [if_neg hended] at hfetch ⊢
    exact hfetch

theorem Coupled.step
    (h : Coupled S host s₀ ui₀ first resizes ops evs w) {t : Turn}
    (hresizes : t.winch ≠ none ∨ t.winch' ≠ none → resizes) (hstep : step S host w t = some w') :
    ∃ ops' evs', Coupled S host s₀ ui₀ first resizes ops' evs' w' := by
  obtain ⟨w₁, hkey, -, hfetch⟩ := step_cases S host hstep
  obtain ⟨ops₁, evs₁, h₁⟩ :=
    (h.same (sameButTime_slept S t.now t.fds t.timeo t.left w)).resized
      fun hw => hresizes (Or.inl hw)
  have h₂ : ∃ ops' evs', Coupled S host s₀ ui₀ first resizes ops' evs' w₁ := by
    rcases hkey with ⟨-, hkey⟩ | ⟨-, rfl⟩
    · exact h₁.onKey hkey
    · exact ⟨ops₁, evs₁, h₁⟩
  obtain ⟨ops₂, evs₂, h₂⟩ := h₂
  obtain ⟨ops₃, evs₃, h₃⟩ := h₂.resized fun hw => hresizes (Or.inr hw)
  rcases hfetch with ⟨-, hfetch⟩ | ⟨-, rfl⟩
  · exact h₃.onFetch hfetch
  · exact ⟨ops₃, evs₃, h₃⟩

theorem Coupled.runs
    (h : Coupled S host s₀ ui₀ first resizes ops evs w) {ts : List Turn}
    (hresizes : ∀ t ∈ ts, t.winch ≠ none ∨ t.winch' ≠ none → resizes)
    (hruns : runs (Program.step S host) w ts = some w') :
    ∃ ops' evs', Coupled S host s₀ ui₀ first resizes ops' evs' w' := by
  induction ts generalizing w ops evs with
  | nil =>
      cases hruns
      exact ⟨ops, evs, h⟩
  | cons t ts ih =>
      rw [runs_cons] at hruns
      obtain ⟨w₁, hstep, hrest⟩ := Option.bind_eq_some_iff.mp hruns
      obtain ⟨hfirst, hlater⟩ := List.forall_mem_cons.mp hresizes
      obtain ⟨ops₁, evs₁, h₁⟩ := h.step hfirst hstep
      exact ih h₁ hlater hrest

end Coupling

end Program
end Newsbaoter
