import Newsbaoter.Support.Run
import Mathlib.Data.List.Perm.Subperm
import Mathlib.Data.List.Range

/-!
# Ledgers of numbered objects

A machine numbers the objects it makes and keeps an entry for each of them until
it loses track of it.  The books are complete at the end of a run just when no
step of the run lost an object: what is lost once is never entered again.
-/

namespace Newsbaoter
namespace Support

/-- The objects numbered below `made s` have been made; `entries s` are those
still accounted for, and `lost s e` those that the step `e` drops. -/
structure Ledger {σ ε : Type*} (step : σ → ε → Option σ) where
  made : σ → ℕ
  entries : σ → List ℕ
  lost : σ → ε → List ℕ
  made_le : ∀ {s e t}, step s e = some t → made s ≤ made t
  balance : ∀ {s e t}, step s e = some t →
    (entries t ++ lost s e).Perm
      (entries s ++ List.range' (made s) (made t - made s))

namespace Ledger

variable {σ ε : Type*} {step : σ → ε → Option σ} (L : Ledger step)

/-- No object is entered twice, and none before it is made. -/
def Sound (s : σ) : Prop :=
  (L.entries s).Subperm (List.range (L.made s))

/-- Each object made so far is entered once. -/
def Complete (s : σ) : Prop :=
  (L.entries s).Perm (List.range (L.made s))

theorem Complete.sound {L : Ledger step} {s : σ} (h : L.Complete s) : L.Sound s :=
  List.Perm.subperm h

theorem complete_iff_length
    {s : σ} (h : L.Sound s) : L.Complete s ↔ (L.entries s).length = L.made s := by
  constructor
  · intro hc
    simpa using hc.length_eq
  · intro hlen
    exact h.perm_of_length_le (by simp [hlen])

theorem range_perm
    {s t : σ} {e : ε} (hstep : step s e = some t) :
    (List.range (L.made s) ++ List.range' (L.made s) (L.made t - L.made s)).Perm
      (List.range (L.made t)) := by
  have hle := L.made_le hstep
  have happend : List.range' 0 (L.made s) ++
      List.range' (0 + L.made s) (L.made t - L.made s) =
        List.range' 0 (L.made s + (L.made t - L.made s)) :=
    List.range'_append_1
  rw [Nat.zero_add, Nat.add_sub_cancel' hle] at happend
  rw [List.range_eq_range', List.range_eq_range', happend]

theorem sound_step
    {s t : σ} {e : ε} (hstep : step s e = some t) (h : L.Sound s) : L.Sound t := by
  have hkept : (L.entries t).Subperm (L.entries t ++ L.lost s e) :=
    (List.sublist_append_left _ _).subperm
  have hall :
      (L.entries s ++ List.range' (L.made s) (L.made t - L.made s)).Subperm
        (List.range (L.made s) ++ List.range' (L.made s) (L.made t - L.made s)) :=
    (List.subperm_append_right _).mpr h
  exact (hkept.trans (L.balance hstep).subperm).trans
    (hall.trans (L.range_perm hstep).subperm)

/-- One step keeps the books complete just if they were and it loses nothing. -/
theorem complete_step_iff
    {s t : σ} {e : ε} (hstep : step s e = some t) (h : L.Sound s) :
    L.Complete t ↔ L.Complete s ∧ L.lost s e = [] := by
  have hlengths := (L.balance hstep).length_eq
  have hle := L.made_le hstep
  have hbound : (L.entries s).length ≤ L.made s := by simpa using h.length_le
  rw [L.complete_iff_length h, L.complete_iff_length (L.sound_step hstep h),
    ← List.length_eq_zero_iff]
  simp only [List.length_append, List.length_range'] at hlengths
  omega

/-- The run rule: the books are complete at the end just if they were at the
start and no step of the run lost an object. -/
theorem complete_runs_iff
    {s t : σ} {es : List ε} (hruns : runs step s es = some t) (h : L.Sound s) :
    L.Complete t ↔ L.Complete s ∧ Meets step (fun s e => L.lost s e = []) s es := by
  induction es generalizing s with
  | nil =>
      cases hruns
      simp [Meets]
  | cons e es ih =>
      rw [runs_cons] at hruns
      obtain ⟨u, hu, hrest⟩ := Option.bind_eq_some_iff.mp hruns
      rw [ih hrest (L.sound_step hu h), L.complete_step_iff hu h, Meets, and_assoc]
      simp [hu]

theorem sound_runs
    {s t : σ} {es : List ε} (hruns : runs step s es = some t) (h : L.Sound s) :
    L.Sound t :=
  inv_of_runs (fun _ _ _ hs hstep => L.sound_step hstep hs) h hruns

end Ledger

/-- Among distinct numbers below `n`, all of them are there just if each occurs
once. -/
theorem perm_range_iff_count
    {l : List ℕ} {n : ℕ} (h : l.Subperm (List.range n)) :
    l.Perm (List.range n) ↔ ∀ p < n, l.count p = 1 := by
  constructor
  · intro hperm p hp
    rw [hperm.count_eq, List.nodup_range.count, if_pos (List.mem_range.mpr hp)]
  · intro hcount
    refine h.antisymm (List.nodup_range.subperm ?_)
    intro p hp
    have hone := hcount p (List.mem_range.mp hp)
    exact List.count_pos_iff.mp (by omega)

end Support
end Newsbaoter
