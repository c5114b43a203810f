import Newsbaoter.Fetch.Attempts
import Newsbaoter.Support.Run
import Mathlib.Algebra.BigOperators.Group.Finset.Basic
import Mathlib.Algebra.Order.BigOperators.Group.Finset

/-!
# One reload cycle

A cycle alternates two kinds of states: under way, with a batch in flight, and
ended.  From the outcomes of an item follows how often the cycle loads it, and
from that when the cycle ends.
-/

namespace Newsbaoter
namespace Fetch

open Newsbaoter.Support

/-! ## The states of a cycle -/

/-- A batch is in flight. -/
structure Underway (config : Config) (outcome : ℕ → ℕ → Transfer) (s : State) :
    Prop where
  cm : s.data.cm = true
  npara : 0 < s.data.npara
  busy : s.data.slots ≠ []
  nodup : s.inFlight.Nodup
  tracked : Tracked config.dlRetries outcome s s.inFlight

/-- Nothing was left to load. -/
structure Ended (config : Config) (outcome : ℕ → ℕ → Transfer) (s : State) :
    Prop where
  cm : s.data.cm = false
  tracked : Tracked config.dlRetries outcome s []
  done : ∀ u ∈ s.urls, u.nHttperr = 0 ∨ config.dlRetries ≤ u.nHttperr

/-- `handle_urls` after its first `if`. -/
def proceed (config : Config) (host : Host) (k : ℕ) (s : State) : State × ℤ :=
  let r := processHandles host k s
  let t := if r.2 then loadNewHandles config (finishBatch config host k r.1) else r.1
  (t, if t.data.cm then -1 else if t.data.newentry then 1 else 0)

theorem handleUrls_eq (config : Config) (host : Host) (k : ℕ) (s : State) :
    handleUrls config host k s =
      proceed config host k
        (if s.data.cm then s
        else loadNewHandles config (httpFetchInit config s)) := by
  rfl

/-- Some item is loaded once more in `t` than in `s`. -/
def Loaded (s t : State) : Prop :=
  ∃ i < s.urls.length, attempts i s.log < attempts i t.log

/-! ## What never changes -/

theorem loadWalk_length
    (R : ℤ) (inner : Bool) (room pos : ℕ) (us : List UrlItem) :
    (loadWalk R inner room pos us).1.length = us.length := by
  fun_induction loadWalk with
  | case1 => rfl
  | case2 => rfl
  | case3 inner room pos u us hpass r ih => simp [r, ih]
  | case4 inner room pos u us hpass r ih => simp [r, ih]

/-- Every function of the loop keeps the list and adds to the log. -/
structure Extends (s t : State) : Prop where
  length_eq : t.urls.length = s.urls.length
  log : s.log <+: t.log

theorem Extends.refl (s : State) : Extends s s :=
  ⟨by rfl, List.prefix_refl _⟩

theorem Extends.trans {s t u : State} (hst : Extends s t) (htu : Extends t u) :
    Extends s u :=
  ⟨htu.length_eq.trans hst.length_eq, hst.log.trans htu.log⟩

theorem extends_httpFetchInit (config : Config) (s : State) :
    Extends s (httpFetchInit config s) :=
  ⟨by simp [httpFetchInit], List.prefix_append _ _⟩

theorem extends_loadedState (config : Config) (s : State) :
    Extends s (loadedState config s) :=
  ⟨loadWalk_length _ _ _ _ _, List.prefix_append _ _⟩

theorem extends_cleanupHandles (s : State) : Extends s (cleanupHandles s) := by
  refine ⟨by rfl, ?_⟩
  rw [cleanupHandles, List.append_assoc]
  exact List.prefix_append _ _

theorem extends_loadNewHandles (config : Config) (s : State) :
    Extends s (loadNewHandles config s) := by
  rw [loadNewHandles_eq]
  split
  · exact (extends_loadedState config s).trans (extends_cleanupHandles _)
  · exact extends_loadedState config s

theorem extends_finishMessage
    (config : Config) (host : Host) (s : State) (idx : ℕ) :
    Extends s (finishMessage config host s idx) := by
  rw [finishMessage]
  split
  · exact Extends.refl s
  · exact ⟨List.length_modify _ _ _, List.prefix_append _ _⟩

theorem extends_finishMessages
    (config : Config) (host : Host) (s : State) (idxs : List ℕ) :
    Extends s (idxs.foldl (finishMessage config host) s) := by
  induction idxs generalizing s with
  | nil => exact Extends.refl s
  | cons idx idxs ih => exact (extends_finishMessage config host s idx).trans (ih _)

theorem extends_finishBatch
    (config : Config) (host : Host) (k : ℕ) (s : State) :
    Extends s (finishBatch config host k s) := by
  have h := extends_finishMessages config host s (host.order k s.data.slots.length)
  exact ⟨h.length_eq, h.log.trans (List.prefix_append _ _)⟩

theorem extends_proceed (config : Config) (host : Host) (k : ℕ) (s : State) :
    Extends s (proceed config host k s).1 := by
  have hprocess : Extends s (processHandles host k s).1 :=
    ⟨by rfl, List.prefix_refl _⟩
  rw [proceed]
  dsimp only
  split
  · exact hprocess.trans
      ((extends_finishBatch config host k _).trans (extends_loadNewHandles config _))
  · exact hprocess

theorem extends_call (config : Config) (host : Host) (k : ℕ) (s : State) :
    Extends s (call config host k s).1 := by
  have hdb : Extends s { s with db := host.meanwhile k s.db } :=
    ⟨by rfl, List.prefix_refl _⟩
  rw [call, handleUrls_eq]
  refine hdb.trans (Extends.trans ?_ (extends_proceed config host k _))
  split
  · exact Extends.refl _
  · exact (extends_httpFetchInit config _).trans (extends_loadNewHandles config _)

theorem Extends.attempts_le {s t : State} (h : Extends s t) (i : ℕ) :
    attempts i s.log ≤ attempts i t.log :=
  h.log.sublist.countP_le

/-! ## What a call does -/

theorem loadedState_log (config : Config) (s : State) :
    (loadedState config s).log = s.log ++
      (loadedState config s).data.slots.map fun slot => Event.load slot.ula := by
  rfl

/-- A walk that loads nothing ends the cycle: every item is done. -/
theorem ended_of_slots_eq_nil
    {config : Config} {outcome : ℕ → ℕ → Transfer} {s : State}
    (h : Tracked config.dlRetries outcome s []) (hnpara : 0 < s.data.npara)
    (hslots : (loadedState config s).data.slots = []) :
    Ended config outcome (cleanupHandles (loadedState config s)) := by
  have htracked := tracked_loadedState h
  refine ⟨by rfl, ?_, ?_⟩
  · rw [State.inFlight, hslots] at htracked
    refine htracked.of_append [.cleanup (loadedState config s).data.cm] (by rfl) ?_ ?_
    · rw [cleanupHandles, loadedState_log, hslots]
      simp
    · simp [Event.concerns]
  · intro u hu
    have hroom : 0 < s.data.npara.toNat := by omega
    obtain ⟨i, hi⟩ := List.mem_iff_getElem?.mp hu
    have hget := loadWalk_getElem? config.dlRetries false s.data.npara.toNat 0 s.urls i
    have hempty : (loadWalk config.dlRetries false s.data.npara.toNat 0 s.urls).2 = [] := hslots
    simp only [hempty, List.map_nil, List.not_mem_nil, if_false, Option.map_id'] at hget
    exact loadWalk_done hempty hroom u (List.mem_of_getElem? (hget.symm.trans hi))

theorem loaded_of_mem_slots
    {config : Config} {s : State} {slot : Slot}
    (hmem : slot ∈ (loadedState config s).data.slots) : Loaded s (loadedState config s) := by
  obtain ⟨j, u, hu, hpos, -⟩ := loadWalk_mem hmem
  rw [Nat.zero_add] at hpos
  refine ⟨j, (List.getElem?_eq_some_iff.mp hu).1, ?_⟩
  have hload : 0 < attempts j
      ((loadedState config s).data.slots.map fun slot => Event.load slot.ula) := by
    rw [attempts, List.countP_pos_iff]
    refine ⟨.load slot.ula, List.mem_map_of_mem hmem, ?_⟩
    simp [Event.loads, hpos]
  rw [loadedState_log, attempts_append]
  omega

theorem loadNewHandles_cases
    (config : Config) {outcome : ℕ → ℕ → Transfer} {s : State}
    (h : Tracked config.dlRetries outcome s []) (hcm : s.data.cm = true)
    (hnpara : 0 < s.data.npara) :
    (Underway config outcome (loadNewHandles config s) ∧
        Loaded s (loadNewHandles config s)) ∨
      Ended config outcome (loadNewHandles config s) := by
  rw [loadNewHandles_eq]
  cases hslots : (loadedState config s).data.slots with
  | nil => exact Or.inr (ended_of_slots_eq_nil h hnpara hslots)
  | cons slot slots =>
      have hbusy : (loadedState config s).data.slots ≠ [] := by simp [hslots]
      have hmem : slot ∈ (loadedState config s).data.slots := by simp [hslots]
      exact Or.inl ⟨⟨hcm, hnpara, hbusy, loadWalk_nodup _ _ _ _ _, tracked_loadedState h⟩,
        loaded_of_mem_slots hmem⟩

theorem finishMessages_data
    (config : Config) (host : Host) (s : State) (idxs : List ℕ) :
    let t := idxs.foldl (finishMessage config host) s
    t.data.cm = s.data.cm ∧ t.data.npara = s.data.npara := by
  induction idxs generalizing s with
  | nil => simp
  | cons idx idxs ih =>
      have hstep : (finishMessage config host s idx).data.cm = s.data.cm ∧
          (finishMessage config host s idx).data.npara = s.data.npara := by
        rw [finishMessage]
        split <;> simp
      rw [← hstep.1, ← hstep.2]
      exact ih _

theorem proceed_snd (config : Config) (host : Host) (k : ℕ) (s : State) :
    (proceed config host k s).2 =
      if (proceed config host k s).1.data.cm then -1
      else if (proceed config host k s).1.data.newentry then 1 else 0 := by
  rfl

/-- The batch of `s` once curl reports that nothing runs any more. -/
def settled (s : State) : State :=
  { s with data := { s.data with rnp := 0 } }

theorem proceed_of_finished
    (config : Config) {host : Host} {k : ℕ} {s : State}
    (hcm : s.data.cm = true) (hrun : host.running k = 0) :
    (proceed config host k s).1 =
      loadNewHandles config (finishBatch config host k (settled s)) := by
  simp [proceed, processHandles, hcm, hrun, settled]

/-- A call while a batch is in flight leaves it there, or follows it with
another, or ends the cycle. -/
theorem proceed_cases
    {config : Config} {host : Host} {s : State} (k : ℕ)
    (h : Underway config host.outcome s) :
    (Underway config host.outcome (proceed config host k s).1 ∧
        (proceed config host k s).2 < 0 ∧
        (host.running k = 0 → Loaded s (proceed config host k s).1)) ∨
      (Ended config host.outcome (proceed config host k s).1 ∧
        0 ≤ (proceed config host k s).2) := by
  by_cases hrun : host.running k = 0
  · have hdata := finishMessages_data config host (settled s)
      (host.order k (settled s).data.slots.length)
    have hfinish : Tracked config.dlRetries host.outcome
        (finishBatch config host k (settled s)) [] :=
      tracked_finishBatch ⟨h.tracked.flying, h.tracked.waiting⟩ h.nodup
    have hload := loadNewHandles_cases config hfinish (hdata.1.trans h.cm)
      (hdata.2 ▸ h.npara)
    rw [← proceed_of_finished config h.cm hrun] at hload
    rcases hload with ⟨hnext, hloaded⟩ | hended
    · refine Or.inl ⟨hnext, ?_, fun _ => ?_⟩
      · rw [proceed_snd, hnext.cm, if_pos rfl]
        decide
      · obtain ⟨i, hi, hlt⟩ := hloaded
        have hext := extends_finishBatch config host k (settled s)
        exact ⟨i, hext.length_eq ▸ hi, (hext.attempts_le i).trans_lt hlt⟩
    · refine Or.inr ⟨hended, ?_⟩
      rw [proceed_snd, hended.cm]
      simp only [Bool.false_eq_true, if_false]
      split <;> decide
  · have hprocess : processHandles host k s =
        ({ s with data := { s.data with rnp := host.running k } }, false) := by
      simp [processHandles, h.cm, hrun]
    have hproceed : proceed config host k s =
        ({ s with data := { s.data with rnp := host.running k } }, -1) := by
      simp [proceed, hprocess, h.cm]
    rw [hproceed]
    refine Or.inl ⟨?_, by simp, fun h0 => absurd h0 hrun⟩
    exact ⟨h.cm, h.npara, h.busy, h.nodup, h.tracked.flying, h.tracked.waiting⟩

theorem Underway.with_db
    {config : Config} {outcome : ℕ → ℕ → Transfer} {s : State}
    (h : Underway config outcome s) (db : Cache.Db) :
    Underway config outcome { s with db := db } :=
  ⟨h.cm, h.npara, h.busy, h.nodup, h.tracked.flying, h.tracked.waiting⟩

theorem call_underway
    {config : Config} {host : Host} {s : State} (k : ℕ)
    (h : Underway config host.outcome s) :
    call config host k s =
      proceed config host k { s with db := host.meanwhile k s.db } := by
  rw [call, handleUrls_eq]
  simp [h.cm]

theorem loadWalk_fresh
    (R : ℤ) (room pos : ℕ) (us : List UrlItem)
    (hus : ∀ u ∈ us, u.nHttperr = -1) :
    (loadWalk R false room pos us).2.map Slot.ula =
      List.range' pos (min room us.length) := by
  induction us generalizing room pos with
  | nil => simp [loadWalk]
  | cons u us ih =>
      cases room with
      | zero => simp [loadWalk]
      | succ room =>
          have hu : u.nHttperr = -1 := hus u List.mem_cons_self
          have hpass : passOver R false u.nHttperr = false := by
            simp [passOver, hu]
          have hrest := ih room (pos + 1) fun v hv =>
            hus v (List.mem_cons_of_mem u hv)
          rw [loadWalk, hpass, List.length_cons, Nat.succ_min_succ, List.range'_succ]
          simp only [Bool.false_eq_true, if_false, List.map_cons, hrest]

/-- The first batch of a cycle is the head of the list. -/
theorem loadedState_init_inFlight
    (config : Config) (s : State) (hpar : 0 < config.parallelReload) :
    (loadedState config (httpFetchInit config s)).inFlight =
      List.range (min config.parallelReload.toNat s.urls.length) := by
  have hfresh := loadWalk_fresh config.dlRetries config.parallelReload.toNat 0
    (httpFetchInit config s).urls (by simp [httpFetchInit])
  have hlength : (httpFetchInit config s).urls.length = s.urls.length := by
    simp [httpFetchInit]
  rw [hlength, ← List.range_eq_range'] at hfresh
  simpa [loadedState, State.inFlight, httpFetchInit, hpar] using hfresh

/-- The state in which the first call of a cycle has loaded its first batch. -/
def started (config : Config) (host : Host) (k : ℕ) (s : State) : State :=
  loadedState config (httpFetchInit config { s with db := host.meanwhile k s.db })

theorem started_inFlight
    (config : Config) (host : Host) (k : ℕ) (s : State)
    (hpar : 0 < config.parallelReload) :
    (started config host k s).inFlight =
      List.range (min config.parallelReload.toNat s.urls.length) :=
  loadedState_init_inFlight config _ hpar

theorem started_busy
    (config : Config) (host : Host) (k : ℕ) {s : State}
    (hurls : s.urls ≠ []) (hpar : 0 < config.parallelReload) :
    (started config host k s).data.slots ≠ [] := by
  intro hempty
  have hflight := started_inFlight config host k s hpar
  rw [State.inFlight, hempty, List.map_nil, eq_comm, List.range_eq_nil] at hflight
  have hlength := List.length_pos_iff.mpr hurls
  omega

/-- The first call of a cycle over a list with items goes on from there. -/
theorem call_start
    (config : Config) (host : Host) {s : State} (k : ℕ)
    (hcm : s.data.cm = false) (hurls : s.urls ≠ [])
    (hpar : 0 < config.parallelReload) :
    call config host k s = proceed config host k (started config host k s) := by
  have hload : loadNewHandles config
      (httpFetchInit config { s with db := host.meanwhile k s.db }) =
        started config host k s := by
    rw [loadNewHandles_eq, if_neg]
    · rfl
    · simpa [started] using started_busy config host k hurls hpar
  rw [call, handleUrls_eq]
  simp only [hcm, Bool.false_eq_true, if_false, hload]

theorem underway_started
    (config : Config) (host : Host) {s : State} (k : ℕ)
    (hlog : s.log = []) (hurls : s.urls ≠ []) (hpar : 0 < config.parallelReload) :
    Underway config host.outcome (started config host k s) where
  cm := by rfl
  npara := by simp [started, loadedState, httpFetchInit, hpar]
  busy := started_busy config host k hurls hpar
  nodup := loadWalk_nodup _ _ _ _ _
  tracked := tracked_loadedState (tracked_httpFetchInit _ host.outcome config hlog)

/-! ## Nothing to load -/

theorem loadWalk_barren
    (R : ℤ) (inner : Bool) (pos : ℕ) {room : ℕ} {us : List UrlItem}
    (h : us = [] ∨ room = 0) :
    loadWalk R inner room pos us = (us, []) := by
  rcases h with rfl | rfl
  · rw [loadWalk]
  · cases us <;> simp [loadWalk]

theorem loadNewHandles_barren
    (config : Config) {s : State} (h : s.urls = [] ∨ s.data.npara ≤ 0) :
    loadNewHandles config s =
      { s with
        data := { s.data with cm := false, slots := [] }
        log := s.log ++ [.cleanup s.data.cm] } := by
  have hwalk := loadWalk_barren config.dlRetries false 0
    (h.imp_right Int.toNat_of_nonpos)
  simp [loadNewHandles, hwalk, cleanupHandles]

theorem finishBatch_of_no_slots
    (config : Config) (host : Host) (k : ℕ) {s : State} (h : s.data.slots = []) :
    finishBatch config host k s = s := by
  have horder : host.order k 0 = [] := List.perm_nil.mp (host.order_perm k 0)
  simp [finishBatch, h, horder]

/-- A cycle that has nothing to load, or no room to load it, tears down twice in
its only call. -/
theorem call_barren
    (config : Config) (host : Host) {s : State} (k : ℕ)
    (hcm : s.data.cm = false)
    (h : s.urls = [] ∨ (httpFetchInit config s).data.npara ≤ 0) :
    (call config host k s).1.log =
        s.log ++ [.init, .cleanup true, .cleanup false] ∧
      (call config host k s).2 = 0 := by
  let s₀ := httpFetchInit config { s with db := host.meanwhile k s.db }
  have hbarren : s₀.urls = [] ∨ s₀.data.npara ≤ 0 := by
    refine h.imp ?_ id
    intro hurls
    simp [s₀, httpFetchInit, hurls]
  have hload := loadNewHandles_barren config hbarren
  have hcall : call config host k s =
      proceed config host k (loadNewHandles config s₀) := by
    rw [call, handleUrls_eq]
    simp [hcm, s₀]
  have hprocess : processHandles host k (loadNewHandles config s₀) =
      (loadNewHandles config s₀, true) := by
    rw [hload]
    simp [processHandles, s₀, httpFetchInit]
  have hagain := loadNewHandles_barren config (s := loadNewHandles config s₀)
    (by rw [hload]; exact hbarren)
  have hproceed : (proceed config host k (loadNewHandles config s₀)).1 =
      loadNewHandles config (loadNewHandles config s₀) := by
    simp only [proceed, hprocess, if_true]
    rw [finishBatch_of_no_slots config host k (by rw [hload])]
  rw [hcall]
  constructor
  · rw [hproceed, hagain, hload]
    simp [s₀, httpFetchInit]
  · rw [proceed_snd, hproceed, hagain, hload]
    simp [s₀, httpFetchInit]

/-! ## The run -/

theorem calls_cases
    {config : Config} {host : Host} {s : State} {k : ℕ}
    (hcm : s.data.cm = false) (hlog : s.log = []) (hurls : s.urls ≠ [])
    (hpar : 0 < config.parallelReload)
    (hbefore : ∀ j < k, returned config host s j < 0) :
    (Underway config host.outcome (calls config host s (k + 1)) ∧
        returned config host s k < 0 ∧
        (0 < k → host.running k = 0 →
          Loaded (calls config host s k) (calls config host s (k + 1)))) ∨
      (Ended config host.outcome (calls config host s (k + 1)) ∧
        0 ≤ returned config host s k) := by
  induction k with
  | zero =>
      have hcases := proceed_cases 0 (underway_started config host 0 hlog hurls hpar)
      rw [← call_start config host 0 hcm hurls hpar] at hcases
      exact hcases.imp (fun h => ⟨h.1, h.2.1, fun h0 => absurd h0 (Nat.lt_irrefl 0)⟩) id
  | succ k ih =>
      rcases ih fun j hj => hbefore j (Nat.lt_succ_of_lt hj) with
        ⟨hunder, -, -⟩ | ⟨-, hret⟩
      · have hcases := proceed_cases (k + 1)
          (hunder.with_db (host.meanwhile (k + 1) (calls config host s (k + 1)).db))
        rw [← call_underway (k + 1) hunder] at hcases
        exact hcases.imp (fun h => ⟨h.1, h.2.1, fun _ => h.2.2⟩) id
      · exact absurd (hbefore k (Nat.lt_succ_self k)) (Int.not_lt.mpr hret)

theorem extends_calls_le
    (config : Config) (host : Host) (s : State) {j k : ℕ} (hjk : j ≤ k) :
    Extends (calls config host s j) (calls config host s k) := by
  induction hjk with
  | refl => exact Extends.refl _
  | step _ ih => exact ih.trans (extends_call config host _ _)

theorem extends_calls
    (config : Config) (host : Host) (s : State) (k : ℕ) :
    Extends s (calls config host s k) :=
  extends_calls_le config host s (Nat.zero_le k)

theorem exists_endsAt
    {config : Config} {host : Host} {s : State} {k : ℕ}
    (h : 0 ≤ returned config host s k) :
    ∃ k, EndsAt config host s k := by
  have hex : ∃ k, 0 ≤ returned config host s k := ⟨k, h⟩
  refine ⟨Nat.find hex, ?_, Nat.find_spec hex⟩
  intro j hj
  exact Int.not_le.mp (Nat.find_min hex hj)

/-- When the cycle ends, every item is through. -/
theorem waiting_of_endsAt
    {config : Config} {host : Host} {s : State} {i k : ℕ}
    (hcm : s.data.cm = false) (hlog : s.log = [])
    (hpar : 0 < config.parallelReload)
    (hk : EndsAt config host s k) (hi : i < s.urls.length) :
    ∃ a n, (n = 0 ∨ config.dlRetries ≤ n) ∧
      Waiting config.dlRetries (host.outcome i) i
        (calls config host s (k + 1)).log n a := by
  have hurls : s.urls ≠ [] := List.length_pos_iff.mp (Nat.zero_lt_of_lt hi)
  rcases calls_cases hcm hlog hurls hpar hk.1 with ⟨-, hret, -⟩ | ⟨h, -⟩
  · exact absurd hret (Int.not_lt.mpr hk.2)
  · have hi' : i < (calls config host s (k + 1)).urls.length := by
      rw [(extends_calls config host s (k + 1)).length_eq]
      exact hi
    obtain ⟨a, ha⟩ := h.tracked.waiting i _ (List.getElem?_eq_getElem hi') (by simp)
    exact ⟨a, _, h.done _ (List.getElem_mem hi'), ha⟩

end Fetch
end Newsbaoter
