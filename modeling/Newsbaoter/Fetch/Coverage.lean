import Newsbaoter.Fetch.Cycle
import Newsbaoter.Config.Words

/-!
# Which items a cycle reaches

The inner loop of `load_new_handles` compares the `-1` of an item that was never
loaded with `dl_retries` as if it were a count.  With a negative setting it
passes over such items, and a list longer than one batch is not fetched to its
end.
-/

namespace Newsbaoter
namespace Fetch

/-- Every item has been loaded when the cycle that starts with call `0` ends. -/
def Covers (config : Config) (host : Host) (s : State) : Prop :=
  ∀ k, EndsAt config host s k →
    ∀ i < s.urls.length, 0 < attempts i (calls config host s (k + 1)).log

/-! ## Settings that reach every item -/

/-- No item that was never loaded looks finished. -/
theorem covers_of_dlRetries_nonneg
    {config : Config} {host : Host} {s : State}
    (hcm : s.data.cm = false) (hlog : s.log = [])
    (hpar : 0 < config.parallelReload) (hR : 0 ≤ config.dlRetries) :
    Covers config host s := by
  intro k hk i hi
  obtain ⟨a, n, hdone, ha⟩ := waiting_of_endsAt hcm hlog hpar hk hi
  rw [ha.attempts_eq]
  apply Nat.pos_of_ne_zero
  rintro rfl
  have hn : n = -1 := ha.counter_eq
  omega

theorem attempts_started
    (config : Config) (host : Host) (k : ℕ) (s : State) (i : ℕ) :
    attempts i (started config host k s).log =
      attempts i s.log + (started config host k s).inFlight.count i := by
  have hevents : (started config host k s).log =
      (s.log ++ [.init]) ++ (started config host k s).inFlight.map Event.load := by
    simp [started, loadedState, httpFetchInit, State.inFlight, Function.comp_def]
  rw [hevents, attempts_append, attempts_append, attempts, attempts, attempts,
    List.countP_map, List.count]
  simp [Event.loads, Function.comp_def]

/-- A list that fits into the first batch is loaded by it. -/
theorem covers_of_length_le
    {config : Config} {host : Host} {s : State}
    (hcm : s.data.cm = false) (hpar : 0 < config.parallelReload)
    (hle : (s.urls.length : ℤ) ≤ config.parallelReload) :
    Covers config host s := by
  intro k _ i hi
  have hurls : s.urls ≠ [] := List.length_pos_iff.mp (Nat.zero_lt_of_lt hi)
  have hstart : 0 < attempts i (started config host 0 s).log := by
    rw [attempts_started, started_inFlight config host 0 s hpar]
    apply Nat.add_pos_right
    rw [List.count_pos_iff, List.mem_range]
    omega
  have hfirst : Extends (started config host 0 s) (calls config host s 1) := by
    rw [calls, calls, call_start config host 0 hcm hurls hpar]
    exact extends_proceed config host 0 _
  have hext := hfirst.trans (extends_calls_le config host s (Nat.le_add_left 1 k))
  exact hstart.trans_le (hext.attempts_le i)

/-! ## Settings that do not -/

/-- In the inner loop, everything with `n_httperr` zero or at least `dl_retries`
is passed over. -/
theorem loadWalk_inner_done
    {R : ℤ} (room pos : ℕ) {us : List UrlItem}
    (h : ∀ u ∈ us, u.nHttperr = 0 ∨ R ≤ u.nHttperr) :
    (loadWalk R true room pos us).2 = [] := by
  induction us generalizing pos with
  | nil => rw [loadWalk]
  | cons u us ih =>
      cases room with
      | zero => simp [loadWalk]
      | succ room =>
          have hpass : passOver R true u.nHttperr = true := by
            simpa [passOver] using h u List.mem_cons_self
          rw [loadWalk, hpass, if_pos rfl]
          exact ih (pos + 1) fun v hv => h v (List.mem_cons_of_mem u hv)

/-- The outer loop passes over the first item, the inner one over the others. -/
theorem loadWalk_passes
    {R : ℤ} (room pos : ℕ) {us : List UrlItem} (hfirst : ∀ u ∈ us.head?, u.nHttperr = 0)
    (hdone : ∀ u ∈ us, u.nHttperr = 0 ∨ R ≤ u.nHttperr) :
    (loadWalk R false room pos us).2 = [] := by
  cases us with
  | nil => rw [loadWalk]
  | cons u us =>
      have hpass : passOver R false u.nHttperr = true := by
        simp [passOver, hfirst u (by simp)]
      cases room with
      | zero => simp [loadWalk]
      | succ room =>
          rw [loadWalk, hpass, if_pos rfl]
          exact loadWalk_inner_done _ _ fun v hv => hdone v (List.mem_cons_of_mem u hv)

theorem attempts_finishMessages
    (config : Config) (host : Host) (s : State) (idxs : List ℕ) (i : ℕ) :
    attempts i (idxs.foldl (finishMessage config host) s).log = attempts i s.log := by
  induction idxs generalizing s with
  | nil => rfl
  | cons idx idxs ih =>
      rw [List.foldl_cons, ih, finishMessage]
      split
      · rfl
      · rw [attempts_append]
        simp [attempts, Event.loads]

theorem attempts_finishBatch
    (config : Config) (host : Host) (k : ℕ) (s : State) (i : ℕ) :
    attempts i (finishBatch config host k s).log = attempts i s.log := by
  rw [finishBatch, attempts_append, attempts_finishMessages]
  simp [attempts, Event.loads]

/-- Once the first batch has succeeded, its items stand at `0`, the others
still at `-1`. -/
theorem first_batch_counters
    {config : Config} {s : State} {i : ℕ} {u : UrlItem}
    (hlog : s.log = []) (hurls : s.urls ≠ []) (hpar : 0 < config.parallelReload)
    (hu : (finishBatch config (promptHost []) 0
      (settled (started config (promptHost []) 0 s))).urls[i]? = some u) :
    u.nHttperr = if i < min config.parallelReload.toNat s.urls.length then 0 else -1 := by
  have hunder := underway_started config (promptHost []) 0 hlog hurls hpar
  have htracked : Tracked config.dlRetries (promptHost []).outcome
      (finishBatch config (promptHost []) 0
        (settled (started config (promptHost []) 0 s))) [] :=
    tracked_finishBatch ⟨hunder.tracked.flying, hunder.tracked.waiting⟩ hunder.nodup
  obtain ⟨a, ha⟩ := htracked.waiting i u hu (by simp)
  have hattempts := ha.attempts_eq
  rw [attempts_finishBatch, settled, attempts_started, hlog,
    started_inFlight config (promptHost []) 0 s hpar] at hattempts
  by_cases hi : i < min config.parallelReload.toNat s.urls.length
  · rw [List.count_eq_one_of_mem List.nodup_range (List.mem_range.mpr hi)] at hattempts
    obtain rfl : a = 1 := by simpa [attempts] using hattempts.symm
    rw [ha.counter_eq, if_pos hi]
    simp [counter, loaded, promptHost, emptyFeed, afterTransfer]
  · rw [List.count_eq_zero_of_not_mem (by simpa using hi)] at hattempts
    obtain rfl : a = 0 := by simpa [attempts] using hattempts.symm
    rw [ha.counter_eq, if_neg hi, counter]

/-- A negative `download-retries` makes the `-1` of the others look exhausted. -/
theorem loadWalk_first_batch
    {config : Config} {s : State} (hlog : s.log = []) (hurls : s.urls ≠ [])
    (hpar : 0 < config.parallelReload) (hR : config.dlRetries < 0) (room : ℕ) :
    (loadWalk config.dlRetries false room 0 (finishBatch config (promptHost []) 0
      (settled (started config (promptHost []) 0 s))).urls).2 = [] := by
  have hlength := List.length_pos_iff.mpr hurls
  apply loadWalk_passes
  · intro u hu
    rw [List.head?_eq_getElem?] at hu
    have hfirst := first_batch_counters hlog hurls hpar hu
    rwa [if_pos (by omega)] at hfirst
  · intro u hu
    obtain ⟨i, hi⟩ := List.mem_iff_getElem?.mp hu
    have hn := first_batch_counters hlog hurls hpar hi
    split at hn
    · exact Or.inl hn
    · exact Or.inr (by omega)

/-- A negative `download-retries` ends the cycle after the first batch, if that
succeeds, however many items are left. -/
theorem not_covers_of_negative
    {config : Config} {s : State}
    (hcm : s.data.cm = false) (hlog : s.log = [])
    (hpar : 0 < config.parallelReload) (hR : config.dlRetries < 0)
    (hlong : config.parallelReload < s.urls.length) :
    ¬Covers config (promptHost []) s := by
  intro hcovers
  have hurls : s.urls ≠ [] := by
    rintro hempty
    rw [hempty, List.length_nil] at hlong
    omega
  have hwalk := loadWalk_first_batch hlog hurls hpar hR
  set t := finishBatch config (promptHost []) 0
    (settled (started config (promptHost []) 0 s)) with ht
  have hstate : (call config (promptHost []) 0 s).1 = cleanupHandles (loadedState config t) := by
    rw [call_start config (promptHost []) 0 hcm hurls hpar,
      proceed_of_finished config (by rfl) (by rfl), ← ht, loadNewHandles_eq, if_pos]
    simp [loadedState, hwalk]
  have hret : 0 ≤ returned config (promptHost []) s 0 := by
    have hcm' : (call config (promptHost []) 0 s).1.data.cm = false := by
      rw [hstate]
      rfl
    rw [call_start config (promptHost []) 0 hcm hurls hpar] at hcm'
    rw [returned, calls, call_start config (promptHost []) 0 hcm hurls hpar, proceed_snd,
      hcm']
    simp only [Bool.false_eq_true, if_false]
    split <;> decide
  have hreached := hcovers 0 ⟨fun j hj => absurd hj (Nat.not_lt_zero j), hret⟩
    config.parallelReload.toNat (by omega)
  rw [calls, calls, hstate, cleanupHandles] at hreached
  simp only [loadedState, hwalk, List.map_nil, List.append_nil] at hreached
  rw [attempts_append, ht, attempts_finishBatch, settled, attempts_started, hlog,
    started_inFlight config (promptHost []) 0 s hpar,
    List.count_eq_zero_of_not_mem (by simp)] at hreached
  simp [attempts, Event.loads] at hreached

theorem not_covers_of_no_room
    {config : Config} {host : Host} {s : State}
    (hidle : Idle config s) (hlog : s.log = []) (hurls : s.urls ≠ [])
    (hpar : config.parallelReload ≤ 0) :
    ¬Covers config host s := by
  intro hcovers
  have hnpara : (httpFetchInit config s).data.npara ≤ 0 := by
    simp [httpFetchInit, Int.not_lt.mpr hpar, hidle.npara hpar]
  obtain ⟨hcall, hret⟩ := call_barren config host 0 hidle.cm (Or.inr hnpara)
  have hreached := hcovers 0
    ⟨fun j hj => absurd hj (Nat.not_lt_zero j), by rw [returned, calls, hret]⟩
    0 (List.length_pos_iff.mpr hurls)
  rw [calls, calls, hcall, hlog] at hreached
  simp [attempts, Event.loads] at hreached

/-- Whatever curl does, a finished cycle has reached every item, just under
these settings. -/
theorem covers_iff
    (config : Config) (s : State) (hidle : Idle config s) (hlog : s.log = []) :
    (∀ host, Covers config host s) ↔
      s.urls = [] ∨ 0 < config.parallelReload ∧
        (0 ≤ config.dlRetries ∨ (s.urls.length : ℤ) ≤ config.parallelReload) := by
  constructor
  · intro hcovers
    by_cases hurls : s.urls = []
    · exact Or.inl hurls
    · refine Or.inr ⟨?_, ?_⟩
      · by_contra hpar
        exact not_covers_of_no_room hidle hlog hurls (Int.not_lt.mp hpar)
          (hcovers (promptHost []))
      · by_contra hcond
        obtain ⟨hR, hlong⟩ := not_or.mp hcond
        have hpar : 0 < config.parallelReload := by
          by_contra hpar
          exact not_covers_of_no_room hidle hlog hurls (Int.not_lt.mp hpar)
            (hcovers (promptHost []))
        exact not_covers_of_negative hidle.cm hlog hpar (Int.not_le.mp hR)
          (Int.not_le.mp hlong) (hcovers (promptHost []))
  · rintro (hurls | ⟨hpar, hR | hle⟩) host
    · intro k _ i hi
      rw [hurls] at hi
      exact absurd hi (Nat.not_lt_zero i)
    · exact covers_of_dlRetries_nonneg hidle.cm hlog hpar hR
    · exact covers_of_length_le hidle.cm hpar hle

/-! ## One thread, two feeds -/

def twoFeeds : State :=
  httpInit [ascii "http://example/a", ascii "http://example/b"] Cache.emptyDb

theorem covers_two_feeds :
    (∀ host, Covers ⟨1, 1, plainCache⟩ host twoFeeds) ↔
      twoFeeds.urls = [] ∨ (0 : ℤ) < 1 ∧
        ((0 : ℤ) ≤ 1 ∨ (twoFeeds.urls.length : ℤ) ≤ 1) :=
  covers_iff ⟨1, 1, plainCache⟩ twoFeeds (idle_httpInit _ _ _) (by rfl)

/-- The settings after `reload-threads` and `download-retries` lines with these
words. -/
def configured (threads retries : CStr) : Config where
  parallelReload := (Config.copyInt 5 threads).1
  dlRetries := (Config.copyInt 1 retries).1
  cache := plainCache

/-- With `download-retries -1` the second feed is never fetched. -/
theorem negative_retries_skip_second_feed :
    ¬Covers (configured (ascii "1") (ascii "-1")) (promptHost []) twoFeeds := by
  intro hcovers
  have hreached := hcovers 0
    ⟨fun j hj => absurd hj (Nat.not_lt_zero j), by decide⟩ 1 (by decide)
  exact absurd hreached (by decide)

end Fetch
end Newsbaoter
