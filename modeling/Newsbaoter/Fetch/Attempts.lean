import Newsbaoter.Fetch.Model

/-!
# The attempts at one URL

`n_httperr` of a list item and the events about it depend on nothing but the
outcomes of its own transfers.  `counter` and `story` compute both from these
outcomes, and every step of the loop is shown to follow them.
-/

namespace Newsbaoter
namespace Fetch

/-! ## One item by itself -/

/-- `n_httperr` after `a` transfers with the outcomes `o`. -/
def counter (R : ℤ) (o : ℕ → Transfer) : ℕ → ℤ
  | 0 => -1
  | a + 1 => afterTransfer R (o a) (loaded (counter R o a))

/-- The values of `n_httperr` that `load_new_handles` may load. -/
def Eligible (R n : ℤ) : Prop :=
  n < 0 ∨ n ≠ 0 ∧ n < R

/-- The events that are about item `i`. -/
def Event.concerns (i : ℕ) : Event → Bool
  | .load j => j == i
  | .message j _ => j == i
  | _ => false

/-- What the log says about item `i` after `a` transfers. -/
def story (i : ℕ) (o : ℕ → Transfer) : ℕ → List Event
  | 0 => []
  | a + 1 => story i o a ++ [.load i, .message i (o a)]

/-- Item `i` has had `a` transfers and is not being transferred. -/
structure Waiting (R : ℤ) (o : ℕ → Transfer) (i : ℕ) (log : List Event) (n : ℤ)
    (a : ℕ) : Prop where
  log_eq : log.filter (Event.concerns i) = story i o a
  counter_eq : n = counter R o a
  eligible : ∀ b < a, Eligible R (counter R o b)

/-- Item `i` is in its `a`-th transfer, counted from `0`. -/
structure Flying (R : ℤ) (o : ℕ → Transfer) (i : ℕ) (log : List Event) (n : ℤ)
    (a : ℕ) : Prop where
  log_eq : log.filter (Event.concerns i) = story i o a ++ [.load i]
  counter_eq : n = loaded (counter R o a)
  eligible : ∀ b ≤ a, Eligible R (counter R o b)

theorem attempts_filter (i : ℕ) (log : List Event) :
    attempts i (log.filter (Event.concerns i)) = attempts i log := by
  rw [attempts, attempts, List.countP_filter]
  congr 1
  funext e
  cases e <;> simp [Event.loads, Event.concerns]

theorem attempts_append (i : ℕ) (log es : List Event) :
    attempts i (log ++ es) = attempts i log + attempts i es :=
  List.countP_append

theorem attempts_story (i : ℕ) (o : ℕ → Transfer) (a : ℕ) :
    attempts i (story i o a) = a := by
  induction a with
  | zero => rfl
  | succ a ih =>
      rw [story, attempts_append, ih]
      simp [attempts, Event.loads]

theorem Waiting.attempts_eq
    {R : ℤ} {o : ℕ → Transfer} {i a : ℕ} {log : List Event} {n : ℤ}
    (h : Waiting R o i log n a) :
    attempts i log = a := by
  rw [← attempts_filter, h.log_eq, attempts_story]

theorem Flying.attempts_eq
    {R : ℤ} {o : ℕ → Transfer} {i a : ℕ} {log : List Event} {n : ℤ}
    (h : Flying R o i log n a) :
    attempts i log = a + 1 := by
  rw [← attempts_filter, h.log_eq, attempts_append, attempts_story]
  simp [attempts, Event.loads]

theorem Waiting.append
    {R : ℤ} {o : ℕ → Transfer} {i a : ℕ} {log es : List Event} {n : ℤ}
    (h : Waiting R o i log n a) (hes : es.filter (Event.concerns i) = []) :
    Waiting R o i (log ++ es) n a where
  log_eq := by rw [List.filter_append, hes, List.append_nil, h.log_eq]
  counter_eq := h.counter_eq
  eligible := h.eligible

theorem Flying.append
    {R : ℤ} {o : ℕ → Transfer} {i a : ℕ} {log es : List Event} {n : ℤ}
    (h : Flying R o i log n a) (hes : es.filter (Event.concerns i) = []) :
    Flying R o i (log ++ es) n a where
  log_eq := by rw [List.filter_append, hes, List.append_nil, h.log_eq]
  counter_eq := h.counter_eq
  eligible := h.eligible

theorem Waiting.load
    {R : ℤ} {o : ℕ → Transfer} {i a : ℕ} {log es : List Event} {n : ℤ}
    (h : Waiting R o i log n a) (hn : Eligible R n)
    (hes : es.filter (Event.concerns i) = [.load i]) :
    Flying R o i (log ++ es) (loaded n) a where
  log_eq := by rw [List.filter_append, hes, h.log_eq]
  counter_eq := by rw [h.counter_eq]
  eligible b hb := by
    rcases Nat.lt_or_eq_of_le hb with hb | rfl
    · exact h.eligible b hb
    · rw [← h.counter_eq]
      exact hn

theorem Flying.message
    {R : ℤ} {o : ℕ → Transfer} {i a : ℕ} {log : List Event} {n : ℤ}
    (h : Flying R o i log n a) :
    Waiting R o i (log ++ [.message i (o a)]) (afterTransfer R (o a) n) (a + 1) where
  log_eq := by
    rw [List.filter_append, h.log_eq, story]
    simp [Event.concerns]
  counter_eq := by rw [h.counter_eq, counter]
  eligible b hb := h.eligible b (Nat.le_of_lt_succ hb)

/-! ## All items at once -/

/-- Item by item, `s` follows the outcomes; the items in `fs` are being
transferred. -/
structure Tracked (R : ℤ) (outcome : ℕ → ℕ → Transfer) (s : State)
    (fs : List ℕ) : Prop where
  flying : ∀ i u, s.urls[i]? = some u → i ∈ fs →
    ∃ a, Flying R (outcome i) i s.log u.nHttperr a
  waiting : ∀ i u, s.urls[i]? = some u → i ∉ fs →
    ∃ a, Waiting R (outcome i) i s.log u.nHttperr a

/-- The items that are being transferred. -/
def State.inFlight (s : State) : List ℕ :=
  s.data.slots.map Slot.ula

theorem Tracked.of_append
    {R : ℤ} {outcome : ℕ → ℕ → Transfer} {s t : State} {fs : List ℕ}
    (h : Tracked R outcome s fs) (es : List Event)
    (hurls : t.urls = s.urls) (hlog : t.log = s.log ++ es)
    (hes : ∀ i, es.filter (Event.concerns i) = []) :
    Tracked R outcome t fs where
  flying i u hu hi := by
    obtain ⟨a, ha⟩ := h.flying i u (hurls ▸ hu) hi
    exact ⟨a, hlog ▸ ha.append (hes i)⟩
  waiting i u hu hi := by
    obtain ⟨a, ha⟩ := h.waiting i u (hurls ▸ hu) hi
    exact ⟨a, hlog ▸ ha.append (hes i)⟩

theorem tracked_httpFetchInit
    (R : ℤ) (outcome : ℕ → ℕ → Transfer) (config : Config) {s : State}
    (hlog : s.log = []) :
    Tracked R outcome (httpFetchInit config s) [] where
  flying i u _ hi := by simp at hi
  waiting i u hu _ := by
    refine ⟨0, ?_, ?_, ?_⟩
    · simp [httpFetchInit, hlog, Event.concerns, story]
    · simp only [httpFetchInit, List.getElem?_map, Option.map_eq_some_iff] at hu
      obtain ⟨u, _, rfl⟩ := hu
      simp [counter]
    · intro b hb
      omega

/-! ## Loading -/

theorem eligible_of_not_passOver
    {R n : ℤ} {inner : Bool} (h : ¬passOver R inner n = true) :
    Eligible R n := by
  by_cases hn : n < 0
  · exact Or.inl hn
  · have hn' : (0 : ℤ) ≤ n := Int.not_lt.mp hn
    simp only [passOver, hn', decide_true, Bool.or_true, Bool.true_and,
      decide_eq_true_eq, Bool.or_eq_true, not_or, Int.not_le] at h
    exact Or.inr h

theorem done_of_passOver
    {R n : ℤ} {inner : Bool} (h : passOver R inner n = true) :
    n = 0 ∨ R ≤ n := by
  simp only [passOver, Bool.and_eq_true, Bool.or_eq_true, decide_eq_true_eq] at h
  exact h.2

theorem loadWalk_mem
    {R : ℤ} {inner : Bool} {room pos : ℕ} {us : List UrlItem} {slot : Slot}
    (h : slot ∈ (loadWalk R inner room pos us).2) :
    ∃ j u, us[j]? = some u ∧ slot.ula = pos + j ∧ slot.xh = u.url ∧
      Eligible R u.nHttperr := by
  fun_induction loadWalk with
  | case1 => simp at h
  | case2 => simp at h
  | case3 inner room pos u us hpass r ih =>
      obtain ⟨j, v, hv, hpos, hrest⟩ := ih h
      refine ⟨j + 1, v, by simpa using hv, ?_, hrest⟩
      rw [hpos, Nat.add_assoc, Nat.add_comm 1 j]
  | case4 inner room pos u us hpass r ih =>
      rcases List.mem_cons.mp h with rfl | h
      · exact ⟨0, u, by simp, by simp, by rfl, eligible_of_not_passOver hpass⟩
      · obtain ⟨j, v, hv, hpos, hrest⟩ := ih h
        refine ⟨j + 1, v, by simpa using hv, ?_, hrest⟩
        rw [hpos, Nat.add_assoc, Nat.add_comm 1 j]

theorem loadWalk_pos_le
    {R : ℤ} {inner : Bool} {room pos i : ℕ} {us : List UrlItem}
    (h : i ∈ (loadWalk R inner room pos us).2.map Slot.ula) :
    pos ≤ i := by
  obtain ⟨slot, hslot, rfl⟩ := List.mem_map.mp h
  obtain ⟨j, _, _, hpos, _⟩ := loadWalk_mem hslot
  rw [hpos]
  exact Nat.le_add_right pos j

theorem loadWalk_nodup
    (R : ℤ) (inner : Bool) (room pos : ℕ) (us : List UrlItem) :
    ((loadWalk R inner room pos us).2.map Slot.ula).Nodup := by
  fun_induction loadWalk with
  | case1 => simp
  | case2 => simp
  | case3 inner room pos u us hpass r ih => exact ih
  | case4 inner room pos u us hpass r ih =>
      rw [List.map_cons, List.nodup_cons]
      refine ⟨?_, ih⟩
      intro hmem
      exact absurd (loadWalk_pos_le hmem) (Nat.not_succ_le_self pos)

/-- The walk changes the items it loads and no others. -/
theorem loadWalk_getElem?
    (R : ℤ) (inner : Bool) (room pos : ℕ) (us : List UrlItem) (j : ℕ) :
    (loadWalk R inner room pos us).1[j]? =
      us[j]?.map fun u =>
        if pos + j ∈ (loadWalk R inner room pos us).2.map Slot.ula then
          { u with nHttperr := loaded u.nHttperr }
        else u := by
  fun_induction loadWalk generalizing j with
  | case1 => simp
  | case2 => simp
  | case3 inner room pos u us hpass r ih =>
      cases j with
      | zero =>
          have hnot : pos ∉ r.2.map Slot.ula := by
            intro hmem
            have hle := loadWalk_pos_le hmem
            omega
          simp only [List.getElem?_cons_zero, Nat.add_zero, Option.map_some, hnot,
            if_false]
      | succ j =>
          have hidx : pos + (j + 1) = pos + 1 + j := by omega
          simp only [List.getElem?_cons_succ, hidx]
          exact ih j
  | case4 inner room pos u us hpass r ih =>
      cases j with
      | zero => simp
      | succ j =>
          have hidx : pos + (j + 1) = pos + 1 + j := by omega
          have hne : pos + 1 + j ≠ pos := by omega
          simp only [List.getElem?_cons_succ, hidx, List.map_cons, List.mem_cons,
            hne, false_or]
          exact ih j

/-- A walk with room that loads nothing has passed over every item. -/
theorem loadWalk_done
    {R : ℤ} {inner : Bool} {room pos : ℕ} {us : List UrlItem}
    (h : (loadWalk R inner room pos us).2 = []) (hroom : 0 < room) :
    ∀ u ∈ us, u.nHttperr = 0 ∨ R ≤ u.nHttperr := by
  fun_induction loadWalk with
  | case1 => simp
  | case2 => omega
  | case3 inner room pos u us hpass r ih =>
      intro v hv
      rcases List.mem_cons.mp hv with rfl | hv
      · exact done_of_passOver hpass
      · exact ih h hroom v hv
  | case4 => simp at h

theorem filter_loads (ps : List ℕ) (hnodup : ps.Nodup) (i : ℕ) :
    (ps.map Event.load).filter (Event.concerns i) =
      if i ∈ ps then [.load i] else [] := by
  induction ps with
  | nil => simp
  | cons p ps ih =>
      obtain ⟨hp, hps⟩ := List.nodup_cons.mp hnodup
      rw [List.map_cons, List.filter_cons, ih hps]
      by_cases hpi : p = i
      · subst hpi
        simp [Event.concerns, hp]
      · simp [Event.concerns, hpi, Ne.symm hpi]

theorem filter_removes (slots : List Slot) (i : ℕ) :
    (slots.map fun slot => Event.remove slot.ula).filter (Event.concerns i) = [] := by
  simp [Event.concerns]

/-- The state after the `for` loop of `load_new_handles`. -/
def loadedState (config : Config) (s : State) : State :=
  let r := loadWalk config.dlRetries false s.data.npara.toNat 0 s.urls
  { s with
    urls := r.1
    data := { s.data with slots := r.2 }
    log := s.log ++ r.2.map fun slot => .load slot.ula }

theorem loadNewHandles_eq (config : Config) (s : State) :
    loadNewHandles config s =
      if (loadedState config s).data.slots.isEmpty then
        cleanupHandles (loadedState config s)
      else loadedState config s := by
  rfl

theorem tracked_loadedState
    {config : Config} {outcome : ℕ → ℕ → Transfer} {s : State}
    (h : Tracked config.dlRetries outcome s []) :
    Tracked config.dlRetries outcome (loadedState config s)
      (loadedState config s).inFlight := by
  set ps := (loadedState config s).inFlight with hps
  have hevents : (loadedState config s).log = s.log ++ ps.map Event.load := by
    simp [loadedState, hps, State.inFlight, Function.comp_def]
  have hfilter := filter_loads ps (loadWalk_nodup _ _ _ _ _)
  have hurl : ∀ i, (loadedState config s).urls[i]? = s.urls[i]?.map fun u =>
      if i ∈ ps then { u with nHttperr := loaded u.nHttperr } else u := by
    intro i
    have := loadWalk_getElem? config.dlRetries false s.data.npara.toNat 0 s.urls i
    rwa [Nat.zero_add] at this
  constructor
  · intro i u hu hi
    rw [hurl i, Option.map_eq_some_iff] at hu
    obtain ⟨v, hv, rfl⟩ := hu
    obtain ⟨a, ha⟩ := h.waiting i v hv (by simp)
    obtain ⟨slot, hslot, hpos⟩ := List.mem_map.mp hi
    obtain ⟨j, w, hw, hj, -, helig⟩ := loadWalk_mem hslot
    have hji : j = i := by omega
    subst hji
    obtain rfl : w = v := Option.some.inj (hw.symm.trans hv)
    refine ⟨a, ?_⟩
    rw [hevents]
    simp only [hi, if_true]
    exact ha.load helig (by rw [hfilter, if_pos hi])
  · intro i u hu hi
    rw [hurl i, Option.map_eq_some_iff] at hu
    obtain ⟨v, hv, rfl⟩ := hu
    obtain ⟨a, ha⟩ := h.waiting i v hv (by simp)
    refine ⟨a, ?_⟩
    rw [hevents]
    simp only [hi, if_false]
    exact ha.append (by rw [hfilter, if_neg hi])

/-! ## Finishing -/

/-- The items the slots `idxs` stand for. -/
def State.itemsAt (s : State) (idxs : List ℕ) : List ℕ :=
  idxs.filterMap fun idx => s.data.slots[idx]?.map Slot.ula

theorem itemsAt_range (s : State) :
    s.itemsAt (List.range s.data.slots.length) = s.inFlight := by
  rw [State.itemsAt, State.inFlight]
  induction s.data.slots with
  | nil => simp
  | cons slot slots ih =>
      rw [List.length_cons, List.range_succ_eq_map, List.filterMap_cons,
        List.filterMap_map]
      simpa [Function.comp_def] using ih

theorem finishMessage_slots
    (config : Config) (host : Host) (s : State) (idx : ℕ) :
    (finishMessage config host s idx).data.slots = s.data.slots := by
  rw [finishMessage]
  split <;> rfl

theorem finishMessage_urls
    {config : Config} {host : Host} {s : State} {idx : ℕ} {slot : Slot}
    (hslot : s.data.slots[idx]? = some slot) (i : ℕ) :
    (finishMessage config host s idx).urls[i]? =
      s.urls[i]?.map fun u =>
        if slot.ula = i then
          { u with
            nHttperr :=
              afterTransfer config.dlRetries
                (host.outcome slot.ula (attempts slot.ula s.log - 1)) u.nHttperr }
        else u := by
  simp only [finishMessage, hslot, List.getElem?_modify]
  by_cases heq : slot.ula = i <;> simp [heq]

theorem finishMessage_log
    {config : Config} {host : Host} {s : State} {idx : ℕ} {slot : Slot}
    (hslot : s.data.slots[idx]? = some slot) :
    (finishMessage config host s idx).log =
      s.log ++ [.message slot.ula
        (host.outcome slot.ula (attempts slot.ula s.log - 1))] := by
  simp only [finishMessage, hslot]

theorem tracked_finishMessage
    {config : Config} {host : Host} {s : State} {idx : ℕ} {idxs : List ℕ}
    (h : Tracked config.dlRetries host.outcome s (s.itemsAt (idx :: idxs)))
    (hnodup : (s.itemsAt (idx :: idxs)).Nodup) :
    Tracked config.dlRetries host.outcome (finishMessage config host s idx)
      (s.itemsAt idxs) := by
  cases hslot : s.data.slots[idx]? with
  | none =>
      simp only [finishMessage, hslot]
      simpa [State.itemsAt, hslot] using h
  | some slot =>
      have hitems : s.itemsAt (idx :: idxs) = slot.ula :: s.itemsAt idxs := by
        simp [State.itemsAt, hslot]
      rw [hitems] at h hnodup
      obtain ⟨hout, _⟩ := List.nodup_cons.mp hnodup
      constructor
      · intro i u hu hi
        have hne : slot.ula ≠ i := fun heq => hout (heq ▸ hi)
        rw [finishMessage_urls hslot, Option.map_eq_some_iff] at hu
        obtain ⟨v, hv, rfl⟩ := hu
        obtain ⟨a, ha⟩ := h.flying i v hv (List.mem_cons_of_mem _ hi)
        rw [finishMessage_log hslot, if_neg hne]
        refine ⟨a, ha.append ?_⟩
        simp [Event.concerns, hne]
      · intro i u hu hi
        rw [finishMessage_urls hslot, Option.map_eq_some_iff] at hu
        obtain ⟨v, hv, rfl⟩ := hu
        rw [finishMessage_log hslot]
        by_cases heq : slot.ula = i
        · subst heq
          obtain ⟨a, ha⟩ := h.flying _ v hv List.mem_cons_self
          refine ⟨a + 1, ?_⟩
          rw [if_pos rfl, ha.attempts_eq]
          exact ha.message
        · obtain ⟨a, ha⟩ := h.waiting i v hv (by simp [hi, Ne.symm heq])
          rw [if_neg heq]
          refine ⟨a, ha.append ?_⟩
          simp [Event.concerns, heq]

theorem tracked_finishMessages
    {config : Config} {host : Host} {s : State} (idxs : List ℕ)
    (h : Tracked config.dlRetries host.outcome s (s.itemsAt idxs))
    (hnodup : (s.itemsAt idxs).Nodup) :
    Tracked config.dlRetries host.outcome
      (idxs.foldl (finishMessage config host) s) [] := by
  induction idxs generalizing s with
  | nil => exact h
  | cons idx idxs ih =>
      have hitems : (finishMessage config host s idx).itemsAt idxs =
          s.itemsAt idxs := by
        rw [State.itemsAt, State.itemsAt, finishMessage_slots]
      have htail : (s.itemsAt idxs).Nodup :=
        hnodup.sublist ((List.sublist_cons_self idx idxs).filterMap _)
      apply ih
      · rw [hitems]
        exact tracked_finishMessage h hnodup
      · rw [hitems]
        exact htail

theorem tracked_finishBatch
    {config : Config} {host : Host} {k : ℕ} {s : State}
    (h : Tracked config.dlRetries host.outcome s s.inFlight)
    (hnodup : s.inFlight.Nodup) :
    Tracked config.dlRetries host.outcome (finishBatch config host k s) [] := by
  have hperm : (s.itemsAt (host.order k s.data.slots.length)).Perm s.inFlight := by
    rw [← itemsAt_range]
    exact (host.order_perm k _).filterMap _
  have hfinish :=
    tracked_finishMessages (host.order k s.data.slots.length)
      ⟨fun i u hu hi => h.flying i u hu (hperm.mem_iff.mp hi),
        fun i u hu hi => h.waiting i u hu fun hmem => hi (hperm.mem_iff.mpr hmem)⟩
      (hperm.nodup_iff.mpr hnodup)
  exact hfinish.of_append _ (by rfl) (by rfl) (filter_removes _)

end Fetch
end Newsbaoter
