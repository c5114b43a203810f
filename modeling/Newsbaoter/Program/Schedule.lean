import Newsbaoter.Program.Runs

/-!
# When the program reloads

What `select` is given to wait for, turn by turn: while feeds are transferred
never two seconds, in between up to the next reload, and without `auto-reload`
for a key.
-/

namespace Newsbaoter
namespace Program

open Newsbaoter.Support
open Newsbaoter.Cache (Db)
open Newsbaoter.Fetch (Host)
open Newsbaoter.View (Lines Terminal)

/-! ## What the turns leave alone -/

/-- Neither the deadline nor the timeout of the transfers is touched. -/
structure SameTimes (w w' : World) : Prop where
  lastTime : w'.lastTime = w.lastTime
  timeout : w'.timeout = w.timeout

theorem SameTimes.refl (w : World) : SameTimes w w :=
  ⟨rfl, rfl⟩

theorem SameTimes.trans {w w' w'' : World} (h : SameTimes w w') (h' : SameTimes w' w'') :
    SameTimes w w'' :=
  ⟨h'.lastTime.trans h.lastTime, h'.timeout.trans h.timeout⟩

/-- Nothing is fetched. -/
structure SameFetch (w w' : World) : Prop where
  data : w'.data = w.data
  urls : w'.urls = w.urls
  log : w'.log = w.log
  calls : w'.calls = w.calls

theorem SameFetch.refl (w : World) : SameFetch w w :=
  ⟨rfl, rfl, rfl, rfl⟩

theorem SameFetch.trans {w w' w'' : World} (h : SameFetch w w') (h' : SameFetch w' w'') :
    SameFetch w w'' :=
  ⟨h'.data.trans h.data, h'.urls.trans h.urls, h'.log.trans h.log, h'.calls.trans h.calls⟩

section Steps

variable {S : Settings} {host : Host} {w w' : World}

theorem same_resized (winch : Option (Terminal × Lines)) (w : World) :
    SameTimes w (resized winch w) ∧ SameFetch w (resized winch w) :=
  ⟨⟨rfl, rfl⟩, ⟨rfl, rfl, rfl, rfl⟩⟩

theorem same_updateView (h : updateView S w = some w') : SameTimes w w' ∧ SameFetch w w' := by
  obtain ⟨ui, -, rfl⟩ := Option.map_eq_some_iff.mp h
  exact ⟨⟨rfl, rfl⟩, ⟨rfl, rfl, rfl, rfl⟩⟩

theorem sameTimes_handleUrls (S : Settings) (host : Host) (w : World) :
    SameTimes w (handleUrls S host w).1 :=
  ⟨rfl, rfl⟩

theorem sameTimes_cycleEnded {uret : ℤ} (h : cycleEnded S uret w = some w') : SameTimes w w' :=
  ⟨(same_updateView h).1.lastTime, (same_updateView h).1.timeout⟩

theorem sameTimes_refreshAll (h : refreshAll S host w = some w') : SameTimes w w' := by
  rw [refreshAll] at h
  split at h
  · exact (sameTimes_handleUrls S host w).trans (sameTimes_cycleEnded h)
  · cases h
    exact sameTimes_handleUrls S host w

/-- A key never moves the deadline, and fetches only as `reload-all`. -/
theorem same_onKey {ch : UInt32} {yes : Bool} (h : onKey S host ch yes w = some (.goes w')) :
    SameTimes w w' ∧
      (Config.processKey ch S.globals.keys ≠ some (some .refreshAll) → SameFetch w w') := by
  obtain ⟨kh, hbound, h⟩ := Option.bind_eq_some_iff.mp h
  rw [hbound]
  cases kh with
  | none =>
      cases h
      exact ⟨SameTimes.refl w, fun _ => SameFetch.refl w⟩
  | some handler =>
      obtain ⟨r, hcall, h⟩ := Option.bind_eq_some_iff.mp h
      have hcalled : SameTimes w r.1 ∧ (handler ≠ .refreshAll → SameFetch w r.1) := by
        rw [callHandler] at hcall
        cases hk : viewKey handler with
        | none =>
            rw [hk] at hcall
            obtain ⟨w₁, hrefresh, rfl⟩ := Option.map_eq_some_iff.mp hcall
            refine ⟨sameTimes_refreshAll hrefresh, ?_⟩
            cases handler with
            | refreshAll => exact fun hne => absurd rfl hne
            | _ => cases hk
        | some k =>
            rw [hk] at hcall
            obtain ⟨u, -, rfl⟩ := Option.map_eq_some_iff.mp hcall
            exact ⟨⟨rfl, rfl⟩, fun _ => ⟨rfl, rfl, rfl, rfl⟩⟩
      have hafter : SameTimes r.1 w' ∧ SameFetch r.1 w' := by
        have hpainted : (updateView S r.1).map Outcome.goes = some (.goes w') →
            SameTimes r.1 w' ∧ SameFetch r.1 w' := by
          intro hupdate
          obtain ⟨w₁, hview, hw₁⟩ := Option.map_eq_some_iff.mp hupdate
          cases hw₁
          exact same_updateView hview
        rw [afterKey] at h
        cases hret : r.2 with
        | ok =>
            rw [hret] at h
            cases h
            exact ⟨SameTimes.refl _, SameFetch.refl _⟩
        | update =>
            rw [hret] at h
            exact hpainted h
        | exit =>
            rw [hret] at h
            dsimp only at h
            split at h
            · exact hpainted h
            · cases h
      refine ⟨hcalled.1.trans hafter.1, fun hne => ?_⟩
      exact (hcalled.2 fun heq => hne (by rw [heq])).trans hafter.2

theorem lastTime_onFetch {later : ℤ} (h : onFetch S host later w = some w') :
    w'.lastTime = if 0 ≤ (handleUrls S host w).2 then later else w.lastTime := by
  rw [onFetch] at h
  by_cases hended : 0 ≤ (handleUrls S host w).2
  · rw [if_pos hended] at h ⊢
    exact (sameTimes_cycleEnded h).lastTime
  · rw [if_neg hended] at h ⊢
    cases h
    rfl

theorem timeout_onFetch {later : ℤ} (h : onFetch S host later w = some w') :
    w'.timeout = w.timeout := by
  rw [onFetch] at h
  dsimp only at h
  split at h
  · exact (sameTimes_cycleEnded h).timeout
  · cases h
    rfl

end Steps

/-! ## The world around -/

/-- The readings of the clock never go back. -/
def Ticks : ℤ → List Turn → Prop
  | _, [] => True
  | last, t :: ts => last ≤ t.now ∧ t.now ≤ t.later ∧ Ticks t.later ts

/-- A `timeval` that `select` accepts, below two seconds. -/
structure Timeval.Short (t : Timeval) : Prop where
  sec : 0 ≤ t.sec ∧ t.sec ≤ 1
  usec : 0 ≤ t.usec ∧ t.usec < 1000000

/-- What `select` promises: a short timeout is not made longer, a timeout is only
reported when it has passed, and idle the program watches its keyboard alone. -/
structure Selects (S : Settings) (w : World) (t : Turn) : Prop where
  left : ∀ tv, (waits S t.now t.fds t.timeo w).2 = .inData tv → tv.Short → t.left.Short
  waited : t.sret = 0 →
    ∃ tv, (waits S t.now t.fds t.timeo w).2.timeval = some tv ∧ t.now + tv.sec ≤ t.later
  watched : w.data.cm = false → t.sret ≤ 1 ∧ (t.sret = 1 → t.stdin = true)

/-! ## While feeds are transferred -/

section Waits

variable {S : Settings} {host : Host} {w w' : World} {t : Turn}

theorem short_httpGetTimeout (timeo : ℤ) (h : w.timeout.Short) :
    (httpGetTimeout timeo w).1.timeout.Short ∧
      ∀ tv, (httpGetTimeout timeo w).2.timeval = some tv → tv.Short := by
  rw [httpGetTimeout]
  split
  · have hshort : (if 0 ≤ timeo then
        if 1 < timeo / 1000 then { w.timeout with sec := 1 }
        else ⟨timeo / 1000, timeo % 1000 * 1000⟩
      else w.timeout : Timeval).Short := by
      split
      · split
        · exact ⟨⟨Int.one_nonneg, le_refl 1⟩, h.usec⟩
        · exact ⟨⟨by dsimp only; omega, by dsimp only; omega⟩,
            ⟨by dsimp only; omega, by dsimp only; omega⟩⟩
      · exact h
    refine ⟨hshort, ?_⟩
    rintro tv ⟨⟩
    exact hshort
  · exact ⟨h, fun tv htv => by cases htv⟩

/-- The timeout is one of the loop or that of the transfers. -/
theorem waits_cases (S : Settings) (now fds timeo : ℤ) (w : World) :
    (∃ last tv, waits S now fds timeo w = ({ w with lastTime := last }, .fetchTo tv)) ∨
      waits S now fds timeo w = httpGetTimeout timeo w := by
  rw [waits]
  dsimp only
  split
  · exact Or.inl ⟨w.lastTime, ⟨0, 100000⟩, rfl⟩
  · split
    · exact Or.inl ⟨_, _, rfl⟩
    · exact Or.inr rfl

theorem short_slept (h : w.timeout.Short) (hselects : Selects S w t) :
    (slept t.left (waits S t.now t.fds t.timeo w)).timeout.Short := by
  rcases waits_cases S t.now t.fds t.timeo w with ⟨last, tv, hwaits⟩ | hwaits
  · rw [hwaits]
    exact h
  · obtain ⟨hkept, hgiven⟩ := short_httpGetTimeout t.timeo h
    rw [← hwaits] at hkept hgiven
    rw [slept]
    split
    · next tv htv => exact hselects.left tv htv (hgiven tv (by rw [htv]; rfl))
    · exact hkept
    · exact hkept

theorem short_step (h : w.timeout.Short) (hselects : Selects S w t)
    (hstep : step S host w t = some w') : w'.timeout.Short := by
  obtain ⟨w₁, hkey, -, hfetch⟩ := step_cases S host hstep
  have hslept := short_slept h hselects
  have hkeyed : w₁.timeout = (slept t.left (waits S t.now t.fds t.timeo w)).timeout := by
    rcases hkey with ⟨-, hkey⟩ | ⟨-, hkey⟩
    · exact (same_onKey hkey).1.timeout
    · rw [hkey, (same_resized t.winch _).1.timeout]
  have hfetched : w'.timeout = w₁.timeout := by
    rcases hfetch with ⟨-, hfetch⟩ | ⟨-, hfetch⟩
    · rw [timeout_onFetch hfetch, (same_resized t.winch' w₁).1.timeout]
    · rw [hfetch, (same_resized t.winch' w₁).1.timeout]
  rw [hfetched, hkeyed]
  exact hslept

theorem waits_loading
    (h : w.timeout.Short) (hcm : w.data.cm = true) (hfds : -1 ≤ t.fds) :
    ∃ tv, (waits S t.now t.fds t.timeo w).2.timeval = some tv ∧ tv.Short := by
  rw [waits, httpGetFds, if_pos hcm]
  dsimp only
  split
  · exact ⟨_, rfl, ⟨⟨le_refl 0, Int.one_nonneg⟩, ⟨by decide, by decide⟩⟩⟩
  · next hne =>
      have hnonneg : ¬t.fds < 0 := by omega
      rw [if_neg fun hboth => hnonneg hboth.2]
      have hgiven := (short_httpGetTimeout t.timeo h).2
      rw [httpGetTimeout, if_pos hcm] at hgiven ⊢
      exact ⟨_, rfl, hgiven _ rfl⟩

/-! ## In between -/

theorem httpGetFds_idle (fds : ℤ) (hcm : w.data.cm = false) : httpGetFds fds w = -2 := by
  rw [httpGetFds, hcm]
  rfl

theorem waits_for_key (hauto : S.globals.config.autoReload = 0) (hcm : w.data.cm = false) :
    waits S t.now t.fds t.timeo w = (w, .null) := by
  rw [waits, httpGetFds_idle t.fds hcm]
  dsimp only
  rw [if_neg (by decide), if_neg fun hboth => hboth.1 hauto, httpGetTimeout, hcm]
  rfl

theorem waits_for_reload
    (hauto : S.globals.config.autoReload ≠ 0) (hcm : w.data.cm = false)
    (hnow : w.lastTime ≤ t.now) :
    waits S t.now t.fds t.timeo w =
      (w, .fetchTo ⟨max 0 (w.lastTime + S.waittime - t.now), 0⟩) := by
  have hsec : (if S.waittime < t.now - w.lastTime then 0
      else S.waittime - (t.now - w.lastTime)) = max 0 (w.lastTime + S.waittime - t.now) := by
    split
    · omega
    · omega
  rw [waits, httpGetFds_idle t.fds hcm]
  dsimp only
  rw [if_neg (by decide), if_pos ⟨hauto, by decide⟩, if_neg (by omega), hsec]

theorem lastTime_slept (hnow : w.lastTime ≤ t.now) :
    (slept t.left (waits S t.now t.fds t.timeo w)).lastTime = w.lastTime := by
  have hlast : (waits S t.now t.fds t.timeo w).1.lastTime = w.lastTime := by
    rw [waits]
    dsimp only
    split
    · rfl
    · split
      · rw [if_neg (by omega)]
      · rw [httpGetTimeout]
        split
        · rfl
        · rfl
  rw [slept]
  split
  · exact hlast
  · exact hlast
  · exact hlast

/-- The loop calls `handle_urls` in this turn, and the call ends a cycle. -/
def Ends (S : Settings) (host : Host) (w : World) (t : Turn) : Prop :=
  t.fetches = true ∧
    ∃ w₁, upToFetch S host t w = some (.goes w₁) ∧ 0 ≤ (handleUrls S host w₁).2

/-- Only the end of a cycle of the loop moves the deadline. -/
theorem lastTime_step (hnow : w.lastTime ≤ t.now) (hstep : step S host w t = some w') :
    (Ends S host w t ∧ w'.lastTime = t.later) ∨ (¬Ends S host w t ∧ w'.lastTime = w.lastTime) := by
  obtain ⟨w₁, hkey, hup, hfetch⟩ := step_cases S host hstep
  have hkeyed : (resized t.winch' w₁).lastTime = w.lastTime := by
    rw [← lastTime_slept (t := t) (S := S) hnow]
    rw [(same_resized t.winch' w₁).1.lastTime]
    rcases hkey with ⟨-, hkey⟩ | ⟨-, hkey⟩
    · exact (same_onKey hkey).1.lastTime
    · rw [hkey, (same_resized t.winch _).1.lastTime]
  rcases hfetch with ⟨hfetches, hfetch⟩ | ⟨hfetches, hfetch⟩
  · have hlast := lastTime_onFetch hfetch
    by_cases hended : 0 ≤ (handleUrls S host (resized t.winch' w₁)).2
    · rw [if_pos hended] at hlast
      exact Or.inl ⟨⟨hfetches, _, hup, hended⟩, hlast⟩
    · rw [if_neg hended, hkeyed] at hlast
      refine Or.inr ⟨?_, hlast⟩
      rintro ⟨-, w₂, hup', hended'⟩
      rw [hup] at hup'
      cases hup'
      exact hended hended'
  · rw [hfetch]
    exact Or.inr ⟨fun hends => Bool.eq_false_iff.mp hfetches hends.1, hkeyed⟩

end Waits

/-! ## Runs -/

/-- When the last cycle was over that a call of the loop has ended: when its turn
says, or where there was none, when the program was started.  A cycle that ends in
`refresh_all` does not count. -/
inductive LastEnded (S : Settings) (host : Host) (now : ℤ) (w₀ : World) :
    List Turn → World → ℤ → Prop
  | start : LastEnded S host now w₀ [] w₀ now
  | ended {ts : List Turn} {w w' : World} {last : ℤ} {t : Turn}
      (hlast : LastEnded S host now w₀ ts w last) (hstep : step S host w t = some w')
      (hends : Ends S host w t) : LastEnded S host now w₀ (ts ++ [t]) w' t.later
  | goesOn {ts : List Turn} {w w' : World} {last : ℤ} {t : Turn}
      (hlast : LastEnded S host now w₀ ts w last) (hstep : step S host w t = some w')
      (hends : ¬Ends S host w t) : LastEnded S host now w₀ (ts ++ [t]) w' last

section Runs

variable {S : Settings} {host : Host} {w₀ w w' : World} {ts ts' : List Turn} {now : ℤ}

/-- `last_time` is when the last cycle of the loop was over. -/
theorem lastEnded_runs
    {reading : ℤ} {t : Turn} (hlast : LastEnded S host now w₀ ts w w.lastTime)
    (hreading : w.lastTime ≤ reading) (hticks : Ticks reading (ts' ++ [t]))
    (hruns : runs (step S host) w ts' = some w') :
    LastEnded S host now w₀ (ts ++ ts') w' w'.lastTime ∧ w'.lastTime ≤ t.now := by
  induction ts' generalizing w ts reading with
  | nil =>
      cases hruns
      rw [List.append_nil]
      exact ⟨hlast, hreading.trans hticks.1⟩
  | cons t' ts' ih =>
      rw [runs_cons] at hruns
      obtain ⟨w₁, hstep, hrest⟩ := Option.bind_eq_some_iff.mp hruns
      obtain ⟨hnow, hlater, hticks⟩ := hticks
      have hbefore := hreading.trans hnow
      rw [List.append_cons]
      rcases lastTime_step hbefore hstep with ⟨hends, hw₁⟩ | ⟨hends, hw₁⟩
      · refine ih ?_ (le_of_eq hw₁) hticks hrest
        rw [hw₁]
        exact hlast.ended hstep hends
      · refine ih ?_ (by rw [hw₁]; exact hbefore.trans hlater) hticks hrest
        rw [hw₁]
        exact hlast.goesOn hstep hends

variable {urls : List CStr} {db : Db} {terminal : Terminal} {fresh : Lines}
  {winch : Option (Terminal × Lines)}

theorem times_start (hstart : start S host urls db terminal fresh now winch = some w₀) :
    w₀.lastTime = now ∧ w₀.timeout = ⟨0, 0⟩ := by
  rw [start_eq] at hstart
  have hview := (same_updateView hstart).1
  have hresized := (same_resized winch (loaded S host urls db terminal fresh now)).1
  have hloaded : SameTimes (listed S urls db terminal fresh now)
      (loaded S host urls db terminal fresh now) := by
    rw [loaded]
    split
    · exact sameTimes_handleUrls S host _
    · exact SameTimes.refl _
  have hsame := (hloaded.trans hresized).trans hview
  exact ⟨hsame.lastTime, hsame.timeout⟩

/-- In every run, what `select` is given: under way a short timeout; in between,
with `auto-reload`, what is left up to `waittime` behind the last cycle of the loop,
however many keys were pressed since; and else no timeout. -/
theorem select_timeouts
    {t : Turn} (hstart : start S host urls db terminal fresh now winch = some w₀)
    (hselects : Meets (step S host) (Selects S) w₀ ts) (hticks : Ticks now (ts ++ [t]))
    (hrun : runs (step S host) w₀ ts = some w) :
    (w.data.cm = true → -1 ≤ t.fds →
      ∃ tv, (waits S t.now t.fds t.timeo w).2.timeval = some tv ∧ tv.Short) ∧
      (w.data.cm = false →
        if S.globals.config.autoReload = 0 then (waits S t.now t.fds t.timeo w).2 = .null
        else ∃ last, LastEnded S host now w₀ ts w last ∧
          (waits S t.now t.fds t.timeo w).2 =
            .fetchTo ⟨max 0 (last + S.waittime - t.now), 0⟩) := by
  obtain ⟨hlast, htimeout⟩ := times_start hstart
  constructor
  · intro hcm hfds
    apply waits_loading _ hcm hfds
    have hzero : w₀.timeout.Short := by
      rw [htimeout]
      exact ⟨⟨le_refl 0, Int.one_nonneg⟩, ⟨le_refl 0, by decide⟩⟩
    exact inv_of_meets (fun w t w' hshort hsel hstep => short_step hshort hsel hstep) hzero
      hselects hrun
  · intro hcm
    have hstarted : LastEnded S host now w₀ [] w₀ w₀.lastTime := by
      rw [hlast]
      exact .start
    obtain ⟨hended, hnow⟩ := lastEnded_runs hstarted (le_of_eq hlast) hticks hrun
    split
    · next hauto => rw [waits_for_key hauto hcm]
    · next hauto => exact ⟨w.lastTime, hended, by rw [waits_for_reload hauto hcm hnow]⟩

/-! ## Reloads -/

/-- Idle, the loop only calls `handle_urls` when the timeout has passed. -/
theorem elapsed_of_fetches
    {t : Turn} (hselects : Selects S w t) (hcm : w.data.cm = false) (hfetches : t.fetches = true) :
    t.sret = 0 := by
  obtain ⟨hone, hkey⟩ := hselects.watched hcm
  rcases of_decide_eq_true hfetches with hzero | hpos
  · exact hzero
  · by_cases hsret : t.sret = 1
    · have hfound : t.found = true := by
        rw [Turn.found, hkey hsret, hsret]
        rfl
      rw [if_pos hfound, hsret] at hpos
      exact absurd hpos (by decide)
    · split at hpos
      · omega
      · omega

theorem idle_step
    {t : Turn} (hauto : S.globals.config.autoReload = 0) (hidle : w.data.cm = false)
    (hselects : Selects S w t)
    (hkey : t.found = true → Config.processKey t.ch S.globals.keys ≠ some (some .refreshAll))
    (hstep : step S host w t = some w') : SameFetch w w' := by
  have hwaits := waits_for_key (t := t) hauto hidle
  obtain ⟨w₁, hkeyed, -, hfetch⟩ := step_cases S host hstep
  rw [hwaits, slept] at hkeyed
  have hresized := (same_resized t.winch w).2
  have hpressed : SameFetch w w₁ := by
    rcases hkeyed with ⟨hfound, hkeyed⟩ | ⟨-, hkeyed⟩
    · exact hresized.trans ((same_onKey hkeyed).2 (hkey hfound))
    · rw [hkeyed]
      exact hresized
  rcases hfetch with ⟨hfetches, -⟩ | ⟨-, hfetch⟩
  · obtain ⟨tv, htv, -⟩ := hselects.waited (elapsed_of_fetches hselects hidle hfetches)
    rw [hwaits] at htv
    cases htv
  · rw [hfetch]
    exact hpressed.trans (same_resized t.winch' w₁).2

/-- Without `auto-reload`, and between two cycles, nothing is fetched until
`reload-all`. -/
theorem idle_until_reload_all
    (hauto : S.globals.config.autoReload = 0) (hidle : w.data.cm = false)
    (hselects : Meets (step S host) (Selects S) w ts)
    (hkeys : ∀ t ∈ ts, t.found = true →
      Config.processKey t.ch S.globals.keys ≠ some (some .refreshAll))
    (hrun : runs (step S host) w ts = some w') : SameFetch w w' := by
  induction ts generalizing w with
  | nil =>
      cases hrun
      exact SameFetch.refl _
  | cons t ts ih =>
      rw [runs_cons] at hrun
      obtain ⟨w₁, hstep, hrest⟩ := Option.bind_eq_some_iff.mp hrun
      obtain ⟨hkey, hkeys⟩ := List.forall_mem_cons.mp hkeys
      have hfirst := idle_step hauto hidle hselects.1 hkey hstep
      exact hfirst.trans
        (ih (by rw [hfirst.data, hidle]) (hselects.2 w₁ hstep) hkeys hrest)

end Runs

/-! ## Two reloads -/

/-- The timeout has passed, at the time `now`. -/
def elapsed (now : ℤ) : Turn :=
  ⟨now - 1800, -1, -1, 0, ⟨0, 0⟩, false, 0, false, now, none, none⟩

/-- A key without a binding. -/
def ignoredKey : Turn :=
  ⟨5, -1, -1, 1, ⟨0, 0⟩, true, 120, false, 5, none, none⟩

theorem reloads_itself :
    ∃ w₀ w, startOne (beeping 1) = some w₀ ∧
      step (beeping 1) Fetch.oneEntryHost w₀ (elapsed 1800) = some w ∧
      w₀.data.cm = false ∧ w₀.lastTime = 0 ∧ w.data.cm = false ∧ w.lastTime = 1800 := by
  have hruns : ((startOne (beeping 1)).bind fun w₀ =>
      (step (beeping 1) Fetch.oneEntryHost w₀ (elapsed 1800)).map fun w =>
        decide (w₀.data.cm = false ∧ w₀.lastTime = 0 ∧ w.data.cm = false ∧ w.lastTime = 1800)) =
        some true := by
    decide +kernel
  obtain ⟨w₀, hstart, hrun⟩ := Option.bind_eq_some_iff.mp hruns
  obtain ⟨w, hrun, htimes⟩ := Option.map_eq_some_iff.mp hrun
  exact ⟨w₀, w, hstart, hrun, of_decide_eq_true htimes⟩

/-- `select` waits for the reload, and returns in time. -/
theorem selects_elapsed
    {w : World} {now : ℤ} (hcm : w.data.cm = false) (hlast : w.lastTime = now - 1800) :
    Selects (beeping 1) w (elapsed now) := by
  have hwaits : waits (beeping 1) (elapsed now).now (elapsed now).fds (elapsed now).timeo w =
      (w, .fetchTo ⟨1800, 0⟩) := by
    have htime : max 0 (w.lastTime + (beeping 1).waittime - (elapsed now).now) = 1800 := by
      have hwaittime : (beeping 1).waittime = 1800 :=
        Settings.waittime_of_minutes (S := beeping 1) (by decide)
      rw [hlast, hwaittime]
      dsimp only [elapsed]
      omega
    rw [waits_for_reload (by decide) hcm (le_of_eq hlast), htime]
  refine ⟨?_, fun _ => ⟨⟨1800, 0⟩, ?_, ?_⟩, fun _ => ⟨Int.zero_le_ofNat 1, ?_⟩⟩
  · rw [hwaits]
    rintro tv ⟨⟩
  · rw [hwaits]
    rfl
  · exact le_of_eq (Int.sub_add_cancel now 1800)
  · rintro ⟨⟩

theorem reload_waits :
    ∃ w₀ w, startOne (beeping 1) = some w₀ ∧
      runs (step (beeping 1) Fetch.oneEntryHost) w₀ [elapsed 1800] = some w ∧
      (w.data.cm = true → -1 ≤ (-1 : ℤ) →
        ∃ tv, (waits (beeping 1) 1805 (-1) (-1) w).2.timeval = some tv ∧ tv.Short) ∧
      (w.data.cm = false →
        if (1 : ℤ) = 0 then (waits (beeping 1) 1805 (-1) (-1) w).2 = .null
        else ∃ last, LastEnded (beeping 1) Fetch.oneEntryHost 0 w₀ [elapsed 1800] w last ∧
          (waits (beeping 1) 1805 (-1) (-1) w).2 = .fetchTo ⟨max 0 (last + 1800 - 1805), 0⟩) := by
  obtain ⟨w₀, w, hstart, hstep, hcm, hlast, -⟩ := reloads_itself
  have hrun : runs (step (beeping 1) Fetch.oneEntryHost) w₀ [elapsed 1800] = some w := by
    rw [runs_cons, hstep]
    rfl
  have hticks : Ticks 0 ([elapsed 1800] ++ [⟨1805, -1, -1, 1, ⟨0, 0⟩, true, 120, false, 1805, none,
      none⟩]) := by
    simp [Ticks, elapsed]
  have hselects : Meets (step (beeping 1) Fetch.oneEntryHost) (Selects (beeping 1)) w₀
      [elapsed 1800] := ⟨selects_elapsed hcm hlast, fun _ _ => trivial⟩
  exact ⟨w₀, w, hstart, hrun, select_timeouts hstart hselects hticks hrun⟩

theorem ignored_key_fetches_nothing :
    ∃ w₀ w, startOne (beeping 0) = some w₀ ∧
      runs (step (beeping 0) Fetch.oneEntryHost) w₀ [ignoredKey] = some w ∧ SameFetch w₀ w := by
  have hruns : ((startOne (beeping 0)).bind fun w₀ =>
      (runs (step (beeping 0) Fetch.oneEntryHost) w₀ [ignoredKey]).map fun _ => w₀.data.cm) =
        some false := by
    decide +kernel
  obtain ⟨w₀, hstart, hrun⟩ := Option.bind_eq_some_iff.mp hruns
  obtain ⟨w, hrun, hcm⟩ := Option.map_eq_some_iff.mp hrun
  have hwaits := waits_for_key (S := beeping 0) (t := ignoredKey) rfl hcm
  have hselects : Selects (beeping 0) w₀ ignoredKey := by
    refine ⟨?_, fun hzero => absurd hzero (by decide), fun _ => ⟨le_refl 1, fun _ => rfl⟩⟩
    rw [hwaits]
    rintro tv ⟨⟩
  have hmeets : Meets (step (beeping 0) Fetch.oneEntryHost) (Selects (beeping 0)) w₀
      [ignoredKey] := ⟨hselects, fun _ _ => trivial⟩
  refine ⟨w₀, w, hstart, hrun, idle_until_reload_all rfl hcm hmeets ?_ hrun⟩
  intro t ht _
  rw [List.mem_singleton.mp ht]
  decide +kernel

end Program
end Newsbaoter
