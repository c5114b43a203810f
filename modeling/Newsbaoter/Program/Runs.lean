import Newsbaoter.Program.Halves
import Newsbaoter.View.Inside

/-!
# Runs of the program

From its start on, the program is a run of the window and a run of the download
loop.  So the cache stays one that its own statements reach, and the beeps are
those of the cycles that found new entries.
-/

namespace Newsbaoter
namespace Program

open Newsbaoter.Support
open Newsbaoter.Cache (Db Integrity Issued Marked Op)
open Newsbaoter.Fetch (Host State WorksOnCache httpInit)
open Newsbaoter.View (Lines Terminal refreshed requestListUpdate)

/-! ## The start -/

section Start

variable (S : Settings) (host : Host) (urls : List CStr) (db : Db) (terminal : Terminal)
  (fresh : Lines) (now : ℤ)

/-- Set up, with the feeds listed. -/
def listed : World where
  ui := (requestListUpdate S.view (View.laidOut db terminal fresh)).1
  urls := (httpInit urls db).urls
  data := (httpInit urls db).data
  timeout := ⟨0, 0⟩
  beepRequest := false
  lastTime := now
  log := []
  calls := 0
  beeps := 0

/-- The state in front of the first `update_view`. -/
def loaded : World :=
  let w := listed S urls db terminal fresh now
  if S.globals.config.autoReload ≠ 0 then (handleUrls S host w).1 else w

/-- What the first call of `handle_urls`, if it is made, has done. -/
structure Loads (w : World) : Prop where
  loop : w.fetch = pending S.fetch host (httpInit urls db) (fun _ => []) w.calls
  ui : ∃ rs, w.ui =
    let s := (requestListUpdate S.view (View.laidOut db terminal fresh)).1
    { s with mw.db := refreshed S.view rs s.mw.db }
  quiet : w.beepRequest = false
  beeps : w.beeps = 0

theorem loads : Loads S host urls db terminal fresh (loaded S host urls db terminal fresh now) := by
  rw [loaded]
  split
  · refine ⟨rfl, ?_, rfl, rfl⟩
    obtain ⟨rs, hrs⟩ := exists_refreshes S host 0 (httpInit urls db)
    exact ⟨rs, congrArg (fun stored =>
      { (requestListUpdate S.view (View.laidOut db terminal fresh)).1 with mw.db := stored }) hrs⟩
  · exact ⟨rfl, ⟨[], rfl⟩, rfl, rfl⟩

theorem start_eq (winch : Option (Terminal × Lines)) :
    start S host urls db terminal fresh now winch =
      updateView S (resized winch (loaded S host urls db terminal fresh now)) := by
  rw [start, View.setupUi_eq]
  rfl

variable {S host urls db terminal fresh now}

theorem coupled_start
    (resizes : Prop) {winch : Option (Terminal × Lines)} {w₀ : World}
    (hstart : start S host urls db terminal fresh now winch = some w₀) :
    (∃ rs, View.startUi S.view db terminal fresh rs winch = some w₀.ui) ∧
      Coupled S host (httpInit urls db) w₀.ui w₀.calls resizes (fun _ => []) [] w₀ := by
  have hloads := loads S host urls db terminal fresh now
  rw [start_eq] at hstart
  obtain ⟨ui, hview, rfl⟩ := Option.map_eq_some_iff.mp hstart
  constructor
  · obtain ⟨rs, hrs⟩ := hloads.ui
    refine ⟨rs, ?_⟩
    rw [resized, hrs] at hview
    rw [View.startUi, View.setupUi_eq]
    exact hview
  · refine ⟨rfl, fun _ he => absurd he List.not_mem_nil, ?_, rfl, ?_, Nat.le_refl _,
      fun _ _ hop => absurd hop List.not_mem_nil⟩
    · have hdb : (resized winch (loaded S host urls db terminal fresh now)).ui.mw.db =
          (loaded S host urls db terminal fresh now).ui.mw.db := by
        cases winch with
        | none => rfl
        | some t => rfl
      exact (congrArg (fun db => State.mk _ _ db _) ((db_updateView hview).trans hdb)).trans
        hloads.loop
    · have hnone : ∀ k, reports S host (httpInit urls db) (fun _ => []) k k = 0 := by
        intro k
        rw [reports, List.countP_eq_zero]
        intro j hj hboth
        have hlt := List.mem_range.mp hj
        have hle := (of_decide_eq_true hboth).1
        omega
      dsimp only
      rw [hnone, ite_self]
      simp [resized, hloads.quiet, hloads.beeps]

end Start

/-! ## The cache -/

theorem works_refreshed (S : Settings) (rs : List Cache.Refresh) (db : Db) :
    Works S.cache db (refreshed S.view rs db) := by
  refine ⟨rs.map Op.refresh, ?_, ?_⟩
  · intro op hop
    obtain ⟨r, -, rfl⟩ := List.mem_map.mp hop
    trivial
  · rw [refreshed, List.foldl_map]
    rfl

theorem works_pending
    (S : Settings) (host : Host) (s : State) {ops : ℕ → List Op}
    (hops : ∀ k, ∀ op ∈ ops k, Issued op) (k : ℕ) :
    Works S.cache s.db (pending S.fetch host s ops k).db := by
  induction k with
  | zero => exact ⟨ops 0, hops 0, rfl⟩
  | succ k ih =>
      obtain ⟨rs, hrs⟩ := exists_refreshes S host k (pending S.fetch host s ops k)
      have hcall := works_refreshed S rs (pending S.fetch host s ops k).db
      rw [← hrs] at hcall
      exact (ih.trans hcall).trans ⟨ops (k + 1), hops (k + 1), rfl⟩

/-! ## Runs -/

section Runs

variable {S : Settings} {host : Host} {urls : List CStr} {db : Db} {terminal : Terminal}
  {fresh : Lines} {now : ℤ} {winch : Option (Terminal × Lines)} {w₀ w : World} {ts : List Turn}

/-- Some turn resizes the terminal. -/
def Resizes (ts : List Turn) : Prop :=
  ∃ t ∈ ts, t.winch ≠ none ∨ t.winch' ≠ none

/-- A run of the program is a run of the window, with the refreshes of the
download loop between the keys, and a run of the download loop, with the
operations of the keys on the cache between the calls. -/
theorem program_runs_both_halves
    (hstart : start S host urls db terminal fresh now winch = some w₀)
    (hrun : runs (step S host) w₀ ts = some w) :
    ∃ rs evs ops,
      View.startUi S.view db terminal fresh rs winch = some w₀.ui ∧
        runs (View.step S.view) w₀.ui evs = some w.ui ∧
        (∀ e ∈ evs, Source S (Resizes ts) e) ∧
        WorksOnCache S.fetch (withOps S.cache host ops) ∧
        w.fetch = pending S.fetch host (httpInit urls db) ops w.calls := by
  obtain ⟨⟨rs, hui⟩, hcoupled⟩ := coupled_start (Resizes ts) hstart
  obtain ⟨ops, evs, h⟩ := hcoupled.runs (fun t ht hwinch => ⟨t, ht, hwinch⟩) hrun
  exact ⟨rs, evs, ops, hui, h.window, h.sources, fun k db => ⟨ops k, rfl⟩, h.loop⟩

/-- Whatever happens between its keys and its transfers, the cache stays one that
its own statements reach: URLs identify feeds, ids identify entries of a feed, and
each entry is read or unread. -/
theorem cache_stays_reachable
    {before : List Op} (hbefore : ∀ op ∈ before, Issued op) (hdb : db = Cache.run S.cache before)
    (hstart : start S host urls db terminal fresh now winch = some w₀)
    (hrun : runs (step S host) w₀ ts = some w) :
    (∃ after, w.ui.mw.db = Cache.run S.cache after) ∧ Integrity w.ui.mw.db ∧ Marked w.ui.mw.db := by
  obtain ⟨-, hcoupled⟩ := coupled_start True hstart
  obtain ⟨ops, evs, h⟩ := hcoupled.runs (fun _ _ _ => trivial) hrun
  obtain ⟨more, hissued, hmore⟩ := works_pending S host (httpInit urls db) h.issued w.calls
  have hreached : w.ui.mw.db = Cache.run S.cache (before ++ more) := by
    have hstored : w.ui.mw.db = (pending S.fetch host (httpInit urls db) ops w.calls).db :=
      congrArg State.db h.loop
    rw [hstored, hmore, Cache.run, List.foldl_append, ← Cache.run, ← hdb]
    rfl
  refine ⟨⟨before ++ more, hreached⟩, ?_, ?_⟩
  · rw [hreached]
    exact Cache.integrity_run S.cache _
  · rw [hreached]
    exact Cache.marked_run S.cache (List.forall_mem_append.mpr ⟨hbefore, hissued⟩)

/-- The program beeps as often as a call from its loop or from `reload-all` ends a
cycle with new entries, and only where `notify-beep` asks for it. -/
theorem beeps_eq_reports
    (hstart : start S host urls db terminal fresh now winch = some w₀)
    (hrun : runs (step S host) w₀ ts = some w) :
    w.beepRequest = false ∧
      ∃ ops, w.fetch = pending S.fetch host (httpInit urls db) ops w.calls ∧
        w.beeps = if S.globals.config.notifyBeep = 0 then 0
          else reports S host (httpInit urls db) ops w₀.calls w.calls := by
  obtain ⟨-, hcoupled⟩ := coupled_start True hstart
  obtain ⟨ops, evs, h⟩ := hcoupled.runs (fun _ _ _ => trivial) hrun
  exact ⟨h.quiet, ops, h.loop, h.beeps⟩

end Runs

/-! ## A reload -/

/-- With `notify-beep`, and one key, `R` for `reload-all`. -/
def beeping (autoReload : ℤ) : Settings where
  globals :=
    { config := { Config.defaultConfig with notifyBeep := 1, autoReload := autoReload }
      keys := (Config.bindKey 82 .refreshAll Hash.initTable).getD Hash.initTable
      handlers := Config.handlerNames }
  time := View.unreadOnly.cache.time
  locale := View.byteLocale

def reloadPressed : Turn :=
  ⟨100, -1, -1, 1, ⟨0, 0⟩, true, 82, false, 100, none, none⟩

def startOne (S : Settings) : Option World :=
  start S Fetch.oneEntryHost [ascii "http://example/a"] Cache.emptyDb View.smallScreen
    View.blankLines 0 none

theorem reloads :
    ∃ w₀ w, startOne (beeping 0) = some w₀ ∧
      runs (step (beeping 0) Fetch.oneEntryHost) w₀ [reloadPressed] = some w ∧ w.beeps = 1 := by
  have hbeeps : ((startOne (beeping 0)).bind fun w₀ =>
      (runs (step (beeping 0) Fetch.oneEntryHost) w₀ [reloadPressed]).map World.beeps) =
        some 1 := by
    decide +kernel
  obtain ⟨w₀, hstart, hrun⟩ := Option.bind_eq_some_iff.mp hbeeps
  obtain ⟨w, hrun, hone⟩ := Option.map_eq_some_iff.mp hrun
  exact ⟨w₀, w, hstart, hrun, hone⟩

theorem reload_runs_both_halves :
    ∃ w₀ w, startOne (beeping 0) = some w₀ ∧
      runs (step (beeping 0) Fetch.oneEntryHost) w₀ [reloadPressed] = some w ∧
      ∃ rs evs ops,
        View.startUi (beeping 0).view Cache.emptyDb View.smallScreen View.blankLines rs none =
            some w₀.ui ∧
          runs (View.step (beeping 0).view) w₀.ui evs = some w.ui ∧
          (∀ e ∈ evs, Source (beeping 0) (Resizes [reloadPressed]) e) ∧
          WorksOnCache (beeping 0).fetch (withOps (beeping 0).cache Fetch.oneEntryHost ops) ∧
          w.fetch = pending (beeping 0).fetch Fetch.oneEntryHost
            (httpInit [ascii "http://example/a"] Cache.emptyDb) ops w.calls := by
  obtain ⟨w₀, w, hstart, hrun, -⟩ := reloads
  exact ⟨w₀, w, hstart, hrun, program_runs_both_halves hstart hrun⟩

theorem reload_keeps_cache_reachable :
    ∃ w₀ w, startOne (beeping 0) = some w₀ ∧
      runs (step (beeping 0) Fetch.oneEntryHost) w₀ [reloadPressed] = some w ∧
      (∃ after, w.ui.mw.db = Cache.run (beeping 0).cache after) ∧
      Integrity w.ui.mw.db ∧ Marked w.ui.mw.db := by
  obtain ⟨w₀, w, hstart, hrun, -⟩ := reloads
  have hissued : ∀ op ∈ ([] : List Op), Issued op := fun _ hop => absurd hop List.not_mem_nil
  exact ⟨w₀, w, hstart, hrun, cache_stays_reachable hissued rfl hstart hrun⟩

theorem reload_beeps :
    ∃ w₀ w, startOne (beeping 0) = some w₀ ∧
      runs (step (beeping 0) Fetch.oneEntryHost) w₀ [reloadPressed] = some w ∧ w.beeps = 1 ∧
      w.beepRequest = false ∧
      ∃ ops, w.fetch = pending (beeping 0).fetch Fetch.oneEntryHost
          (httpInit [ascii "http://example/a"] Cache.emptyDb) ops w.calls ∧
        w.beeps = if (beeping 0).globals.config.notifyBeep = 0 then 0
          else reports (beeping 0) Fetch.oneEntryHost
            (httpInit [ascii "http://example/a"] Cache.emptyDb) ops w₀.calls w.calls := by
  obtain ⟨w₀, w, hstart, hrun, hone⟩ := reloads
  exact ⟨w₀, w, hstart, hrun, hone, beeps_eq_reports hstart hrun⟩

end Program
end Newsbaoter
