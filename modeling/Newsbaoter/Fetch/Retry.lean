import Newsbaoter.Fetch.Cycle

/-!
# When a cycle ends

`finish_batch` does not take back the count of earlier failures when a transfer
succeeds.  An item whose first success comes after a failure therefore still
looks like one that has to be tried again.  Without such an item every cycle
ends within the bounds that `download-retries` promises.
-/

namespace Newsbaoter
namespace Fetch

open Newsbaoter.Support

/-! ## Bounds on a log -/

def Transfer.Accepted : Transfer → Prop
  | .accepted _ _ => True
  | _ => False

/-- A failure after which `finish_batch` leaves another try. -/
def Transfer.Retryable : Transfer → Prop
  | .timedOut => True
  | .rejected => True
  | _ => False

/-- `xmlproc_finish` returned `0` for item `i`. -/
def Event.Accepts (i : ℕ) : Event → Prop
  | .message j t => j = i ∧ t.Accepted
  | _ => False

/-- No load of item `i` comes after one of its successes. -/
def NeverReloaded (i : ℕ) (log : List Event) : Prop :=
  log.Pairwise fun e e' => e.Accepts i → ¬e'.loads i

/-- The cycle that starts with call `0` ends, loads no item more than
`dl_retries` times, and loads none again after a success. -/
def EndsWithinBounds (config : Config) (host : Host) (s : State) : Prop :=
  ∃ k, EndsAt config host s k ∧
    ∀ i < s.urls.length,
      (attempts i (calls config host s (k + 1)).log : ℤ) ≤ config.dlRetries ∧
        NeverReloaded i (calls config host s (k + 1)).log

/-- An item that succeeds after failures that left it another try. -/
def LateSuccess (R : ℤ) (o : ℕ → Transfer) : Prop :=
  ∃ a : ℕ, 0 < a ∧ (a : ℤ) < R ∧ (∀ b < a, (o b).Retryable) ∧ (o a).Accepted

/-- Every batch is over at some later call. -/
def Host.Completes (host : Host) : Prop :=
  ∀ k, ∃ j ≥ k, host.running j = 0

/-! ## The counter of one item -/

theorem afterTransfer_of_retryable
    {R n : ℤ} {t : Transfer} (ht : t.Retryable) (hn : 0 ≤ n) :
    afterTransfer R t n = n + 1 := by
  have hn' : ¬n < 0 := Int.not_lt.mpr hn
  cases t with
  | timedOut => rw [afterTransfer, if_neg hn']
  | failed => exact ht.elim
  | rejected => rw [afterTransfer, if_neg hn']
  | accepted doc env => exact ht.elim

theorem afterTransfer_of_accepted
    {R n : ℤ} {t : Transfer} (ht : t.Accepted) :
    afterTransfer R t n = n := by
  cases t with
  | accepted doc env => rfl
  | _ => exact ht.elim

/-- After failures only, the counter is their number. -/
theorem loaded_counter_of_retryable
    {R : ℤ} {o : ℕ → Transfer} {a : ℕ} (h : ∀ b < a, (o b).Retryable) :
    loaded (counter R o a) = a := by
  induction a with
  | zero => simp [counter, loaded]
  | succ a ih =>
      have hprev := ih fun b hb => h b (Nat.lt_succ_of_lt hb)
      have ha := h a (Nat.lt_succ_self a)
      rw [counter, hprev, afterTransfer_of_retryable ha (Int.natCast_nonneg a), loaded]
      rw [if_neg (by omega)]
      simp

theorem counter_succ_of_retryable
    {R : ℤ} {o : ℕ → Transfer} {a : ℕ} (h : ∀ b < a + 1, (o b).Retryable) :
    counter R o (a + 1) = a + 1 := by
  have hprev : loaded (counter R o a) = a :=
    loaded_counter_of_retryable fun b hb => h b (Nat.lt_succ_of_lt hb)
  rw [counter, hprev,
    afterTransfer_of_retryable (h a (Nat.lt_succ_self a)) (Int.natCast_nonneg a)]

/-- The step lemma of the retries: an item that is loaded once more has failed
so far, and less than `R` times. -/
theorem retryable_of_eligible
    {R : ℤ} {o : ℕ → Transfer} {a : ℕ} (hR : 1 ≤ R) (hlate : ¬LateSuccess R o)
    (h : ∀ b ≤ a, Eligible R (counter R o b)) :
    (∀ b < a, (o b).Retryable) ∧ (a : ℤ) < R := by
  induction a with
  | zero => exact ⟨fun b hb => absurd hb (Nat.not_lt_zero b), by omega⟩
  | succ a ih =>
      obtain ⟨hbefore, hlt⟩ := ih fun b hb => h b (Nat.le_succ_of_le hb)
      have hprev : loaded (counter R o a) = a := loaded_counter_of_retryable hbefore
      have hnow : Eligible R (afterTransfer R (o a) a) := by
        have hlast := h (a + 1) (Nat.le_refl _)
        rwa [counter, hprev] at hlast
      have ha : (o a).Retryable := by
        cases hoa : o a with
        | timedOut => trivial
        | rejected => trivial
        | failed =>
            rw [hoa] at hnow
            rcases hnow with hneg | ⟨_, hlt'⟩
            · exact absurd (hneg.trans_le (Int.le_trans (by decide) hR))
                (Int.lt_irrefl R)
            · exact absurd hlt' (Int.lt_irrefl R)
        | accepted doc env =>
            -- the counter stays at `a`, so the load was a late success
            rw [hoa] at hnow
            rcases hnow with hneg | ⟨hne, _⟩
            · exact absurd hneg (Int.not_lt.mpr (Int.natCast_nonneg a))
            · have hpos : 0 < a := by
                apply Nat.pos_of_ne_zero
                intro h0
                exact hne (by simp [h0, afterTransfer])
              exact absurd ⟨a, hpos, hlt, hbefore, by simp [hoa, Transfer.Accepted]⟩ hlate
      have hall : ∀ b < a + 1, (o b).Retryable := by
        intro b hb
        rcases Nat.lt_succ_iff_lt_or_eq.mp hb with hb | rfl
        · exact hbefore b hb
        · exact ha
      refine ⟨hall, ?_⟩
      rw [afterTransfer_of_retryable ha (Int.natCast_nonneg a)] at hnow
      rcases hnow with hneg | ⟨_, hlt'⟩
      · omega
      · simpa using hlt'

/-! ## The log of one item -/

theorem neverReloaded_filter (i : ℕ) (log : List Event) :
    NeverReloaded i (log.filter (Event.concerns i)) ↔ NeverReloaded i log := by
  rw [NeverReloaded, NeverReloaded, List.pairwise_filter]
  refine List.Pairwise.iff ?_
  intro e e'
  constructor
  · intro h haccepts hloads
    refine h ?_ ?_ haccepts hloads
    · cases e with
      | message j t => simpa [Event.concerns] using haccepts.1
      | _ => exact haccepts.elim
    · cases e' <;> simp_all [Event.loads, Event.concerns]
  · intro h _ _
    exact h

theorem accepts_story
    {i : ℕ} {o : ℕ → Transfer} {a : ℕ} :
    (∃ e ∈ story i o a, e.Accepts i) ↔ ∃ b < a, (o b).Accepted := by
  induction a with
  | zero => simp [story]
  | succ a ih =>
      simp only [story, List.mem_append, List.mem_cons, List.not_mem_nil, or_false]
      constructor
      · rintro ⟨e, he | rfl | rfl, haccepts⟩
        · obtain ⟨b, hb, hob⟩ := ih.mp ⟨e, he, haccepts⟩
          exact ⟨b, Nat.lt_succ_of_lt hb, hob⟩
        · exact haccepts.elim
        · exact ⟨a, Nat.lt_succ_self a, haccepts.2⟩
      · rintro ⟨b, hb, hob⟩
        rcases Nat.lt_succ_iff_lt_or_eq.mp hb with hb | rfl
        · obtain ⟨e, he, haccepts⟩ := ih.mpr ⟨b, hb, hob⟩
          exact ⟨e, Or.inl he, haccepts⟩
        · exact ⟨_, Or.inr (Or.inr rfl), rfl, hob⟩

/-- A story has no reload just if no transfer but the last succeeds. -/
theorem neverReloaded_story_succ
    {i : ℕ} {o : ℕ → Transfer} {a : ℕ} :
    NeverReloaded i (story i o (a + 1)) ↔ ∀ b < a, ¬(o b).Accepted := by
  induction a with
  | zero => simp [NeverReloaded, story, Event.Accepts]
  | succ a ih =>
      have hlast : NeverReloaded i [.load i, .message i (o (a + 1))] := by
        simp [NeverReloaded, Event.Accepts]
      rw [story, NeverReloaded, List.pairwise_append]
      constructor
      · rintro ⟨-, -, hcross⟩ b hb hob
        obtain ⟨e, he, haccepts⟩ := accepts_story (i := i).mpr ⟨b, hb, hob⟩
        exact hcross e he _ List.mem_cons_self haccepts (by simp [Event.loads])
      · intro h
        refine ⟨ih.mpr fun b hb => h b (Nat.lt_succ_of_lt hb), hlast, ?_⟩
        intro e he e' _ haccepts
        obtain ⟨b, hb, hob⟩ := accepts_story.mp ⟨e, he, haccepts⟩
        exact absurd hob (h b hb)

/-- An item that the cycle is through with, and without late success. -/
theorem Waiting.within_bounds
    {R : ℤ} {o : ℕ → Transfer} {i a : ℕ} {log : List Event} {n : ℤ}
    (h : Waiting R o i log n a) (hR : 1 ≤ R) (hlate : ¬LateSuccess R o) :
    (attempts i log : ℤ) ≤ R ∧ NeverReloaded i log := by
  rw [h.attempts_eq, ← neverReloaded_filter, h.log_eq]
  cases a with
  | zero => exact ⟨Int.le_trans (by decide) hR, List.Pairwise.nil⟩
  | succ a =>
      obtain ⟨hbefore, hlt⟩ := retryable_of_eligible hR hlate
        fun b hb => h.eligible b (Nat.lt_succ_of_le hb)
      refine ⟨by omega, neverReloaded_story_succ.mpr ?_⟩
      intro b hb haccepted
      have hretry := hbefore b hb
      cases hob : o b <;> simp_all [Transfer.Retryable, Transfer.Accepted]

/-- An item the cycle is through with, after a late success, was reloaded. -/
theorem Waiting.reloaded
    {R : ℤ} {o : ℕ → Transfer} {i a : ℕ} {log : List Event} {n : ℤ}
    (h : Waiting R o i log n a) (hR : 1 ≤ R) (hdone : n = 0 ∨ R ≤ n)
    (hlate : LateSuccess R o) :
    ¬NeverReloaded i log := by
  obtain ⟨c, hc, hcR, hbefore, haccepted⟩ := hlate
  rw [h.counter_eq] at hdone
  have hac : c + 1 < a := by
    by_contra hle
    have hcases : a = 0 ∨ (∃ a', a = a' + 1 ∧ a' < c) ∨ a = c + 1 := by
      rcases a with _ | a
      · exact Or.inl rfl
      · rcases Nat.lt_or_ge a c with hlt | hge
        · exact Or.inr (Or.inl ⟨a, rfl, hlt⟩)
        · exact Or.inr (Or.inr (by omega))
    rcases hcases with rfl | ⟨a', rfl, ha'⟩ | rfl
    · simp only [counter] at hdone
      omega
    · rw [counter_succ_of_retryable fun b hb => hbefore b (by omega)] at hdone
      omega
    · rw [counter, loaded_counter_of_retryable hbefore,
        afterTransfer_of_accepted haccepted] at hdone
      omega
  obtain ⟨d, rfl⟩ : ∃ d, a = d + 1 := ⟨a - 1, by omega⟩
  rw [← neverReloaded_filter, h.log_eq, neverReloaded_story_succ]
  intro hnever
  exact hnever c (by omega) haccepted

/-! ## The run -/

theorem Tracked.attempts_le
    {R : ℤ} {outcome : ℕ → ℕ → Transfer} {s : State} {fs : List ℕ} {i : ℕ}
    (h : Tracked R outcome s fs) (hR : 1 ≤ R) (hi : i < s.urls.length)
    (hlate : ¬LateSuccess R (outcome i)) :
    attempts i s.log ≤ R.toNat := by
  have hu : s.urls[i]? = some s.urls[i] := List.getElem?_eq_getElem hi
  by_cases hfs : i ∈ fs
  · obtain ⟨a, ha⟩ := h.flying i _ hu hfs
    have hlt := (retryable_of_eligible hR hlate ha.eligible).2
    rw [ha.attempts_eq]
    omega
  · obtain ⟨a, ha⟩ := h.waiting i _ hu hfs
    have hle := (ha.within_bounds hR hlate).1
    omega

/-- How many loads the items have left. -/
def remaining (R : ℤ) (s : State) : ℕ :=
  ∑ i ∈ Finset.range s.urls.length, (R.toNat - attempts i s.log)

theorem remaining_le {R : ℤ} {s t : State} (hext : Extends s t) :
    remaining R t ≤ remaining R s := by
  rw [remaining, remaining, hext.length_eq]
  apply Finset.sum_le_sum
  intro i _
  exact Nat.sub_le_sub_left (hext.attempts_le i) _

theorem remaining_lt
    {R : ℤ} {s t : State} (hext : Extends s t) (hloaded : Loaded s t)
    (hle : ∀ i < t.urls.length, attempts i t.log ≤ R.toNat) :
    remaining R t < remaining R s := by
  obtain ⟨j, hj, hlt⟩ := hloaded
  rw [remaining, remaining, hext.length_eq]
  apply Finset.sum_lt_sum
  · intro i _
    exact Nat.sub_le_sub_left (hext.attempts_le i) _
  · refine ⟨j, Finset.mem_range.mpr hj, ?_⟩
    have hbound := hle j (hext.length_eq ▸ hj)
    omega

/-- Without late success, what is left to load runs out. -/
theorem exists_returned_nonneg
    {config : Config} {host : Host} {s : State}
    (hcm : s.data.cm = false) (hlog : s.log = []) (hurls : s.urls ≠ [])
    (hpar : 0 < config.parallelReload) (hR : 1 ≤ config.dlRetries)
    (hcompletes : host.Completes)
    (hlate : ∀ i < s.urls.length, ¬LateSuccess config.dlRetries (host.outcome i)) :
    ∃ k, 0 ≤ returned config host s k := by
  by_contra hnever
  have hbefore : ∀ k, returned config host s k < 0 := by
    intro k
    exact Int.not_le.mp fun hk => hnever ⟨k, hk⟩
  have hunder : ∀ k,
      Underway config host.outcome (calls config host s (k + 1)) ∧
        (0 < k → host.running k = 0 →
          Loaded (calls config host s k) (calls config host s (k + 1))) := by
    intro k
    rcases calls_cases hcm hlog hurls hpar (fun j _ => hbefore j) with h | h
    · exact ⟨h.1, h.2.2⟩
    · exact absurd (hbefore k) (Int.not_lt.mpr h.2)
  apply not_forall_exists_drop
    (f := fun k => remaining config.dlRetries (calls config host s (k + 1)))
  · apply antitone_nat_of_succ_le
    intro k
    exact remaining_le (extends_call config host (k + 1) _)
  · intro k
    obtain ⟨j, hj, hrun⟩ := hcompletes (k + 1)
    obtain ⟨j, rfl⟩ : ∃ j', j = j' + 1 := ⟨j - 1, by omega⟩
    refine ⟨j, by omega, remaining_lt (extends_call config host (j + 1) _)
      ((hunder (j + 1)).2 (Nat.succ_pos j) hrun) ?_⟩
    intro i hi
    have hlen := (extends_calls config host s (j + 1 + 1)).length_eq
    exact (hunder (j + 1)).1.tracked.attempts_le hR hi (hlate i (hlen ▸ hi))

theorem not_endsWithinBounds_of_lateSuccess
    {config : Config} {host : Host} {s : State} {i : ℕ}
    (hcm : s.data.cm = false) (hlog : s.log = [])
    (hpar : 1 ≤ config.parallelReload) (hR : 1 ≤ config.dlRetries)
    (hi : i < s.urls.length)
    (hlate : LateSuccess config.dlRetries (host.outcome i)) :
    ¬EndsWithinBounds config host s := by
  rintro ⟨k, hk, hbounds⟩
  obtain ⟨a, n, hdone, ha⟩ := waiting_of_endsAt hcm hlog hpar hk hi
  exact ha.reloaded hR hdone hlate (hbounds i hi).2

theorem endsWithinBounds_of_no_lateSuccess
    {config : Config} {host : Host} {s : State}
    (hcm : s.data.cm = false) (hlog : s.log = [])
    (hpar : 1 ≤ config.parallelReload) (hR : 1 ≤ config.dlRetries)
    (hcompletes : host.Completes)
    (hlate : ∀ i < s.urls.length, ¬LateSuccess config.dlRetries (host.outcome i)) :
    EndsWithinBounds config host s := by
  obtain ⟨k, hk⟩ : ∃ k, EndsAt config host s k := by
    by_cases hurls : s.urls = []
    · have hcall := call_barren config host 0 hcm (Or.inl hurls)
      exact exists_endsAt (k := 0) (by rw [returned, calls, hcall.2])
    · obtain ⟨k, hk⟩ :=
        exists_returned_nonneg hcm hlog hurls hpar hR hcompletes hlate
      exact exists_endsAt hk
  refine ⟨k, hk, ?_⟩
  intro i hi
  obtain ⟨a, n, -, ha⟩ := waiting_of_endsAt hcm hlog hpar hk hi
  exact ha.within_bounds hR (hlate i hi)

/-- A cycle keeps its bounds just if no item succeeds late. -/
theorem endsWithinBounds_iff_no_lateSuccess
    (config : Config) (host : Host) (s : State)
    (hcm : s.data.cm = false) (hlog : s.log = [])
    (hpar : 1 ≤ config.parallelReload) (hR : 1 ≤ config.dlRetries)
    (hcompletes : host.Completes) :
    EndsWithinBounds config host s ↔
      ∀ i < s.urls.length, ¬LateSuccess config.dlRetries (host.outcome i) := by
  constructor
  · intro hbounds i hi hlate
    exact not_endsWithinBounds_of_lateSuccess hcm hlog hpar hR hi hlate hbounds
  · exact endsWithinBounds_of_no_lateSuccess hcm hlog hpar hR hcompletes

/-! ## Two tries, and a timeout before the first success -/

def twoTries : Config where
  parallelReload := 5
  dlRetries := 2
  cache := plainCache

theorem promptHost_completes (first : List Transfer) :
    (promptHost first).Completes :=
  fun k => ⟨k, Nat.le_refl k, by rfl⟩

theorem endsWithinBounds_of_first_success :
    EndsWithinBounds twoTries (promptHost [])
        (httpInit [ascii "http://example/feed"] Cache.emptyDb) ↔
      ∀ i < 1, ¬LateSuccess 2 ((promptHost []).outcome i) :=
  endsWithinBounds_iff_no_lateSuccess twoTries (promptHost []) _ (by rfl) (by rfl)
    (by decide) (by decide) (promptHost_completes [])

theorem timeout_then_success_reloads :
    (promptHost [.timedOut]).Completes ∧
      ¬EndsWithinBounds twoTries (promptHost [.timedOut])
        (httpInit [ascii "http://example/feed"] Cache.emptyDb) := by
  refine ⟨promptHost_completes _, ?_⟩
  apply not_endsWithinBounds_of_lateSuccess (i := 0)
  · rfl
  · rfl
  · decide
  · decide
  · decide
  · refine ⟨1, by decide, by decide, ?_, ?_⟩
    · intro b hb
      obtain rfl : b = 0 := Nat.lt_one_iff.mp hb
      trivial
    · trivial

end Fetch
end Newsbaoter
