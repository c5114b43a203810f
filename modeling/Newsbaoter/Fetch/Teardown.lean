import Newsbaoter.Fetch.Cycle

/-!
# Setting up and tearing down in pairs

`http_fetch_init` allocates the multi handle and the three arrays, and
`cleanup_handles` frees them.  Between two cycles there is nothing to use or to
free.  `load_new_handles` may tear down inside the first call of a cycle, and
`handle_urls` does not look before it goes on.
-/

namespace Newsbaoter
namespace Fetch

open Newsbaoter.Support

/-! ## Correct use -/

/-- One event against the arrays: `true` while they are allocated.  There is no
next state after a use or a free of arrays that are gone, a teardown without a
multi handle, or an allocation over live arrays. -/
def useStep : Bool → Event → Option Bool
  | false, .init => some true
  | true, .load _ => some true
  | true, .message _ _ => some true
  | true, .remove _ => some true
  | true, .cleanup true => some false
  | _, _ => none

def ReleasedOnce (log : List Event) : Prop :=
  (runs useStep false log).isSome

instance (log : List Event) : Decidable (ReleasedOnce log) :=
  inferInstanceAs (Decidable ((runs useStep false log).isSome = true))

/-- The events of a batch. -/
def Event.Uses : Event → Prop
  | .load _ => True
  | .message _ _ => True
  | .remove _ => True
  | _ => False

theorem runs_uses {es : List Event} (h : ∀ e ∈ es, e.Uses) :
    runs useStep true es = some true := by
  induction es with
  | nil => rfl
  | cons e es ih =>
      have hstep : useStep true e = some true := by
        have he := h e List.mem_cons_self
        cases e with
        | init => exact he.elim
        | cleanup live => exact he.elim
        | _ => rfl
      rw [runs_cons, hstep]
      exact ih fun e' he' => h e' (List.mem_cons_of_mem e he')

/-- The arrays are allocated just while there is a multi handle. -/
def Balanced (s : State) : Prop :=
  runs useStep false s.log = some s.data.cm

/-! ## Each function -/

theorem Balanced.uses
    {s t : State} (h : Balanced s) (hcm : s.data.cm = true) (es : List Event)
    (hlog : t.log = s.log ++ es) (hes : ∀ e ∈ es, e.Uses)
    (htcm : t.data.cm = true) :
    Balanced t := by
  rw [Balanced, hcm] at h
  rw [Balanced, hlog, runs_append, h, Option.bind_some, runs_uses hes, htcm]

theorem balanced_httpFetchInit
    (config : Config) {s : State} (h : Balanced s) (hcm : s.data.cm = false) :
    Balanced (httpFetchInit config s) := by
  rw [Balanced, hcm] at h
  have hlog : (httpFetchInit config s).log = s.log ++ [.init] := by rfl
  rw [Balanced, hlog, runs_append, h]
  rfl

theorem balanced_loadedState
    (config : Config) {s : State} (h : Balanced s) (hcm : s.data.cm = true) :
    Balanced (loadedState config s) := by
  refine h.uses hcm _ (by rfl) ?_ (by exact hcm)
  intro e he
  obtain ⟨slot, -, rfl⟩ := List.mem_map.mp he
  trivial

theorem balanced_cleanupHandles
    {s : State} (h : Balanced s) (hcm : s.data.cm = true) :
    Balanced (cleanupHandles s) := by
  rw [Balanced, hcm] at h
  have hremoves : ∀ e ∈ s.data.slots.map (fun slot => Event.remove slot.ula),
      e.Uses := by
    intro e he
    obtain ⟨slot, -, rfl⟩ := List.mem_map.mp he
    trivial
  rw [Balanced, cleanupHandles, List.append_assoc, runs_append, h, Option.bind_some,
    runs_append, runs_uses hremoves, hcm]
  rfl

theorem balanced_loadNewHandles
    (config : Config) {s : State} (h : Balanced s) (hcm : s.data.cm = true) :
    Balanced (loadNewHandles config s) := by
  have hload := balanced_loadedState config h hcm
  rw [loadNewHandles_eq]
  split
  · exact balanced_cleanupHandles hload hcm
  · exact hload

theorem balanced_finishMessage
    (config : Config) (host : Host) {s : State} (idx : ℕ)
    (h : Balanced s) (hcm : s.data.cm = true) :
    Balanced (finishMessage config host s idx) := by
  rw [finishMessage]
  split
  · exact h
  · refine h.uses hcm _ (by rfl) ?_ (by exact hcm)
    intro e he
    obtain rfl := List.mem_singleton.mp he
    trivial

theorem balanced_finishMessages
    (config : Config) (host : Host) {s : State} (idxs : List ℕ)
    (h : Balanced s) (hcm : s.data.cm = true) :
    Balanced (idxs.foldl (finishMessage config host) s) := by
  induction idxs generalizing s with
  | nil => exact h
  | cons idx idxs ih =>
      have hdata := (finishMessages_data config host s [idx]).1
      exact ih (balanced_finishMessage config host idx h hcm) (hdata.trans hcm)

theorem balanced_finishBatch
    (config : Config) (host : Host) (k : ℕ) {s : State}
    (h : Balanced s) (hcm : s.data.cm = true) :
    Balanced (finishBatch config host k s) := by
  have hcm' := (finishMessages_data config host s
    (host.order k s.data.slots.length)).1.trans hcm
  refine (balanced_finishMessages config host _ h hcm).uses hcm' _ (by rfl) ?_
    (by exact hcm')
  intro e he
  obtain ⟨slot, -, rfl⟩ := List.mem_map.mp he
  trivial

theorem balanced_proceed
    (config : Config) (host : Host) (k : ℕ) {s : State}
    (h : Balanced s) (hcm : s.data.cm = true) :
    Balanced (proceed config host k s).1 := by
  have hprocess : Balanced (processHandles host k s).1 := h
  rw [proceed]
  dsimp only
  split
  · exact balanced_loadNewHandles config
      (balanced_finishBatch config host k hprocess hcm)
      ((finishMessages_data config host _ _).1.trans hcm)
  · exact hprocess

/-! ## Runs of cycles -/

theorem balanced_call
    (config : Config) (host : Host) (k : ℕ) {s : State}
    (hurls : s.urls ≠ []) (hpar : 0 < config.parallelReload) (h : Balanced s) :
    Balanced (call config host k s).1 := by
  cases hcm : s.data.cm with
  | true =>
      have hcall : call config host k s =
          proceed config host k { s with db := host.meanwhile k s.db } := by
        rw [call, handleUrls_eq]
        simp [hcm]
      rw [hcall]
      exact balanced_proceed config host k h hcm
  | false =>
      rw [call_start config host k hcm hurls hpar]
      apply balanced_proceed config host k ?_ (by rfl)
      exact balanced_loadedState config (balanced_httpFetchInit config h hcm) (by rfl)

theorem balanced_calls
    (config : Config) (host : Host) (m : ℕ) {s : State}
    (hurls : s.urls ≠ []) (hpar : 0 < config.parallelReload) (h : Balanced s) :
    Balanced (calls config host s m) := by
  induction m with
  | zero => exact h
  | succ m ih =>
      have hlength := (extends_calls config host s m).length_eq
      apply balanced_call config host m ?_ hpar ih
      intro hempty
      apply hurls
      rw [hempty] at hlength
      exact List.length_eq_zero_iff.mp hlength.symm

theorem not_releasedOnce_of_prefix
    {log log' : List Event} (hpre : log <+: log') (h : ¬ReleasedOnce log) :
    ¬ReleasedOnce log' := by
  obtain ⟨es, rfl⟩ := hpre
  rw [ReleasedOnce, Option.not_isSome_iff_eq_none] at h
  rw [ReleasedOnce, runs_append, h]
  simp

/-- Any number of calls keeps the arrays in order just if there is something to
load and room to load it. -/
theorem releasedOnce_iff
    (config : Config) (host : Host) (urls : List CStr) (db : Cache.Db) (m : ℕ) :
    ReleasedOnce (calls config host (httpInit urls db) (m + 1)).log ↔
      urls ≠ [] ∧ 0 < config.parallelReload := by
  constructor
  · intro h
    by_contra hcond
    have hbarren : (httpInit urls db).urls = [] ∨
        (httpFetchInit config (httpInit urls db)).data.npara ≤ 0 := by
      by_cases hurls : urls = []
      · exact Or.inl (by simp [httpInit, hurls])
      · have hpar : ¬0 < config.parallelReload := fun hpar => hcond ⟨hurls, hpar⟩
        exact Or.inr (by simp [httpFetchInit, httpInit, hpar])
    have hfirst := (call_barren config host 0 (s := httpInit urls db) (by rfl)
      hbarren).1
    have hext := extends_calls_le config host (httpInit urls db) (Nat.le_add_left 1 m)
    apply not_releasedOnce_of_prefix hext.log ?_ h
    have hlog : (httpInit urls db).log = [] := by rfl
    rw [calls, calls, hfirst, hlog]
    decide
  · rintro ⟨hurls, hpar⟩
    have hbalanced : Balanced (calls config host (httpInit urls db) (m + 1)) := by
      apply balanced_calls config host (m + 1) ?_ hpar (by rfl)
      simpa [httpInit] using hurls
    rw [ReleasedOnce, hbalanced]
    rfl

/-- The default settings and an empty list: one call frees everything twice. -/
theorem empty_list_frees_twice :
    ¬ReleasedOnce (calls ⟨5, 1, plainCache⟩ (promptHost [])
      (httpInit [] Cache.emptyDb) 1).log := by
  decide

end Fetch
end Newsbaoter
