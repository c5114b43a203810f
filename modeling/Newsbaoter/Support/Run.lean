import Mathlib.Data.Option.Basic
import Mathlib.Order.WellFounded

/-!
# Runs of a fallible step function

A machine is a function from a state and an event to the next state, or to
nothing where the step is not possible.  This file has the induction rules for
its runs, and the descent argument for machines that have to stop.
-/

namespace Newsbaoter
namespace Support

/-! ## Runs -/

section Runs

variable {σ ε : Type*} (step : σ → ε → Option σ)

def runs (s : σ) (es : List ε) : Option σ :=
  es.foldlM step s

@[simp] theorem runs_nil (s : σ) : runs step s [] = some s := by
  rfl

@[simp] theorem runs_cons (s : σ) (e : ε) (es : List ε) :
    runs step s (e :: es) = (step s e).bind fun t => runs step t es := by
  rfl

theorem runs_append (s : σ) (es fs : List ε) :
    runs step s (es ++ fs) = (runs step s es).bind fun t => runs step t fs := by
  rw [runs, List.foldlM_append]
  rfl

/-- Every step of the run from `s` is taken in a state that meets `P`. -/
def Meets (P : σ → ε → Prop) : σ → List ε → Prop
  | _, [] => True
  | s, e :: es => P s e ∧ ∀ t, step s e = some t → Meets P t es

/-- Every step of the run from `s` is possible, and `Q` holds in every state
it reaches. -/
def Stays (Q : σ → Prop) : σ → List ε → Prop
  | s, [] => Q s
  | s, e :: es => Q s ∧ ∃ t, step s e = some t ∧ Stays Q t es

instance decidableMeets
    (P : σ → ε → Prop) [∀ s e, Decidable (P s e)] :
    ∀ s es, Decidable (Meets step P s es)
  | _, [] => isTrue trivial
  | s, e :: es =>
      have := fun t => decidableMeets P t es
      inferInstanceAs (Decidable (P s e ∧ ∀ t ∈ step s e, Meets step P t es))

instance decidableStays
    (Q : σ → Prop) [∀ s, Decidable (Q s)] :
    ∀ s es, Decidable (Stays step Q s es)
  | s, [] => inferInstanceAs (Decidable (Q s))
  | s, e :: es =>
      have := fun t => decidableStays Q t es
      inferInstanceAs (Decidable (Q s ∧ ∃ t ∈ step s e, Stays step Q t es))

variable {step}

/-- Where the condition is exactly what a step needs, meeting it is exactly
what a run needs. -/
theorem runs_isSome_iff_meets
    {Inv : σ → Prop} {P : σ → ε → Prop}
    (hneeds : ∀ s e, Inv s → ((step s e).isSome ↔ P s e))
    (hkeeps : ∀ s e t, Inv s → step s e = some t → Inv t)
    {s : σ} {es : List ε} (hs : Inv s) :
    (runs step s es).isSome ↔ Meets step P s es := by
  induction es generalizing s with
  | nil => simp [Meets]
  | cons e es ih =>
      rw [runs_cons, Meets, ← hneeds s e hs]
      cases ht : step s e with
      | none => simp
      | some t => simpa using ih (hkeeps s e t hs ht)

/-- The invariant rule for what every state of a run has to satisfy. -/
theorem stays_of_meets
    {Inv Q : σ → Prop} {P : σ → ε → Prop} {s : σ} {es : List ε} (hQ : ∀ s, Inv s → Q s)
    (hkeeps : ∀ s, ∀ e ∈ es, Inv s → P s e → ∃ t, step s e = some t ∧ Inv t)
    (hs : Inv s) (hmeets : Meets step P s es) :
    Stays step Q s es := by
  induction es generalizing s with
  | nil => exact hQ s hs
  | cons e es ih =>
      obtain ⟨hP, hrest⟩ := hmeets
      obtain ⟨t, ht, hInv⟩ := hkeeps s e List.mem_cons_self hs hP
      have hlater : ∀ s, ∀ e ∈ es, Inv s → P s e → ∃ t, step s e = some t ∧ Inv t :=
        fun s e he => hkeeps s e (List.mem_cons_of_mem _ he)
      exact ⟨hQ s hs, t, ht, ih hlater hInv (hrest t ht)⟩

/-- Conditions that agree while the invariant holds are met by the same runs. -/
theorem meets_congr
    {Inv : σ → Prop} {P Q : σ → ε → Prop}
    (hkeeps : ∀ s e t, Inv s → step s e = some t → Inv t)
    (hiff : ∀ s e, Inv s → (P s e ↔ Q s e))
    {s : σ} {es : List ε} (hs : Inv s) :
    Meets step P s es ↔ Meets step Q s es := by
  induction es generalizing s with
  | nil => rfl
  | cons e es ih =>
      rw [Meets, Meets, hiff s e hs]
      refine and_congr_right fun _ => forall₂_congr ?_
      intro t ht
      exact ih (hkeeps s e t hs ht)

theorem inv_of_runs
    {Inv : σ → Prop} (hkeeps : ∀ s e t, Inv s → step s e = some t → Inv t)
    {s t : σ} {es : List ε} (hs : Inv s) (hruns : runs step s es = some t) : Inv t := by
  induction es generalizing s with
  | nil =>
      cases hruns
      exact hs
  | cons e es ih =>
      rw [runs_cons] at hruns
      obtain ⟨u, hu, hrest⟩ := Option.bind_eq_some_iff.mp hruns
      exact ih (hkeeps s e u hs hu) hrest

/-- The invariant rule where a step keeps it only under the condition. -/
theorem inv_of_meets
    {Inv : σ → Prop} {P : σ → ε → Prop}
    (hkeeps : ∀ s e t, Inv s → P s e → step s e = some t → Inv t)
    {s t : σ} {es : List ε} (hs : Inv s) (hmeets : Meets step P s es)
    (hruns : runs step s es = some t) : Inv t := by
  induction es generalizing s with
  | nil =>
      cases hruns
      exact hs
  | cons e es ih =>
      rw [runs_cons] at hruns
      obtain ⟨u, hu, hrest⟩ := Option.bind_eq_some_iff.mp hruns
      exact ih (hkeeps s e u hs hmeets.1 hu) (hmeets.2 u hu) hrest

theorem Stays.head
    {Q : σ → Prop} {s : σ} {es : List ε} (h : Stays step Q s es) : Q s := by
  cases es with
  | nil => exact h
  | cons e es => exact h.1

/-- Where moreover a step that ends in `Q` needs the condition, meeting it is
exactly what a run needs. -/
theorem stays_iff_meets
    {Inv Q : σ → Prop} {P : σ → ε → Prop} {s : σ} {es : List ε} (hQ : ∀ s, Inv s → Q s)
    (hkeeps : ∀ s, ∀ e ∈ es, Inv s → P s e → ∃ t, step s e = some t ∧ Inv t)
    (hneeds : ∀ s, ∀ e ∈ es, Inv s → (∃ t, step s e = some t ∧ Q t) → P s e)
    (hs : Inv s) :
    Stays step Q s es ↔ Meets step P s es := by
  refine ⟨?_, stays_of_meets hQ hkeeps hs⟩
  intro hstays
  induction es generalizing s with
  | nil => trivial
  | cons e es ih =>
      obtain ⟨-, t, ht, hrest⟩ := hstays
      have hP : P s e := hneeds s e List.mem_cons_self hs ⟨t, ht, hrest.head⟩
      refine ⟨hP, ?_⟩
      intro u hu
      obtain ⟨v, hv, hInv⟩ := hkeeps s e List.mem_cons_self hs hP
      obtain rfl : t = u := Option.some.inj (ht.symm.trans hu)
      obtain rfl : t = v := Option.some.inj (ht.symm.trans hv)
      exact ih (fun s e he => hkeeps s e (List.mem_cons_of_mem _ he))
        (fun s e he => hneeds s e (List.mem_cons_of_mem _ he)) hInv hrest

/-- The simulation rule: what each step does to an abstract state, a run does
step by step. -/
theorem refines_runs
    {μ : Type*} {apply : μ → ε → μ} {R : σ → μ → Prop}
    (hstep : ∀ s m e t, R s m → step s e = some t → R t (apply m e))
    {s t : σ} {m : μ} {es : List ε} (hs : R s m) (ht : runs step s es = some t) :
    R t (es.foldl apply m) := by
  induction es generalizing s m with
  | nil =>
      cases ht
      exact hs
  | cons e es ih =>
      rw [runs_cons] at ht
      obtain ⟨u, hu, hrest⟩ := Option.bind_eq_some_iff.mp ht
      exact ih (hstep s m e u hs hu) hrest

end Runs

/-! ## Descent -/

/-- A natural number that never grows cannot drop again and again. -/
theorem not_forall_exists_drop
    {f : ℕ → ℕ} (hanti : Antitone f) (hdrop : ∀ k, ∃ j ≥ k, f (j + 1) < f j) :
    False := by
  let least := Function.argmin f
  obtain ⟨j, hj, hlt⟩ := hdrop least
  have hle : f least ≤ f (j + 1) := Function.argmin_le f (j + 1)
  have hge : f j ≤ f least := hanti hj
  omega

end Support
end Newsbaoter
