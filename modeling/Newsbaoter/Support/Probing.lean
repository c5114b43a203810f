import Mathlib.Data.Nat.Notation
import Mathlib.Logic.Function.Basic

/-!
# Open addressing

A table of cells in which every key has a path of cells to probe, and a removed
record leaves a tombstone.  The invariant is that the search for a key comes to
the cell of its record: no cell before it stops the search.  Storing at a cell
the search comes to, and burying a record, keep it, whatever the paths are.
-/

namespace Newsbaoter
namespace Support

/-- What a cell holds: nothing so far, a tombstone, or a record. -/
inductive Cell (κ ν : Type*)
  | null
  | deleted
  | live (k : κ) (v : ν)

variable {κ ν : Type*}

/-- The search for `k` goes on behind this cell. -/
def Cell.Passes (k : κ) : Cell κ ν → Prop
  | null => False
  | deleted => True
  | live m _ => m ≠ k

/-- Within `n` probes, the search for `k` comes to cell `p`. -/
def Comes (path : κ → ℕ → ℕ) (n : ℕ) (tab : ℕ → Cell κ ν) (k : κ) (p : ℕ) : Prop :=
  ∃ i < n, path k i = p ∧ ∀ j < i, path k j ≠ p ∧ (tab (path k j)).Passes k

/-- The records of the table are those of the map `m`, and each can be found. -/
structure Stores (path : κ → ℕ → ℕ) (n : ℕ) (tab : ℕ → Cell κ ν) (m : κ → Option ν) :
    Prop where
  comes : ∀ p k v, tab p = .live k v → Comes path n tab k p
  holds : ∀ k v, m k = some v ↔ ∃ p, tab p = .live k v

section

variable {path : κ → ℕ → ℕ} {n : ℕ} {tab : ℕ → Cell κ ν} {m : κ → Option ν}

theorem stores_null : Stores path n (fun _ => .null : ℕ → Cell κ ν) fun _ => none where
  comes := by
    intro p k v h
    cases h
  holds := by
    intro k v
    constructor
    · intro h
      cases h
    · rintro ⟨p, h⟩
      cases h

/-- A cell that passes does not stop a search. -/
theorem Comes.update
    {k : κ} {p q : ℕ} {c : Cell κ ν} (h : Comes path n tab k p) (hpasses : c.Passes k) :
    Comes path n (Function.update tab q c) k p := by
  obtain ⟨i, hi, hp, hbefore⟩ := h
  refine ⟨i, hi, hp, ?_⟩
  intro j hj
  refine ⟨(hbefore j hj).1, ?_⟩
  by_cases hq : path k j = q
  · rw [hq, Function.update_self]
    exact hpasses
  · rw [Function.update_of_ne hq]
    exact (hbefore j hj).2

/-- What is stored at a cell does not matter to the search that comes there. -/
theorem Comes.update_self
    {k : κ} {q : ℕ} (h : Comes path n tab k q) (c : Cell κ ν) :
    Comes path n (Function.update tab q c) k q := by
  obtain ⟨i, hi, hq, hbefore⟩ := h
  refine ⟨i, hi, hq, ?_⟩
  intro j hj
  obtain ⟨hne, hpasses⟩ := hbefore j hj
  rw [Function.update_of_ne hne]
  exact ⟨hne, hpasses⟩

/-- No key occupies two cells: the search for it stops at the first. -/
theorem Stores.eq_of_live
    (h : Stores path n tab m) {k : κ} {p q : ℕ} {v w : ν} (hp : tab p = .live k v)
    (hq : tab q = .live k w) :
    p = q := by
  obtain ⟨i, -, rfl, hi⟩ := h.comes p k v hp
  obtain ⟨j, -, rfl, hj⟩ := h.comes q k w hq
  rcases Nat.lt_trichotomy i j with hlt | rfl | hgt
  · have hpasses := (hj i hlt).2
    rw [hp] at hpasses
    exact absurd rfl hpasses
  · rfl
  · have hpasses := (hi j hgt).2
    rw [hq] at hpasses
    exact absurd rfl hpasses

/-- Where a cell changes without a part in it, a record stays where it is. -/
theorem exists_update_eq_live_iff
    {k : κ} {q : ℕ} {c : Cell κ ν} {w : ν} (hold : tab q ≠ .live k w) (hnew : c ≠ .live k w) :
    (∃ p, Function.update tab q c p = .live k w) ↔ ∃ p, tab p = .live k w := by
  constructor
  · rintro ⟨p, hlive⟩
    by_cases hp : p = q
    · rw [hp, Function.update_self] at hlive
      exact absurd hlive hnew
    · rw [Function.update_of_ne hp] at hlive
      exact ⟨p, hlive⟩
  · rintro ⟨p, hlive⟩
    have hp : p ≠ q := by
      rintro rfl
      exact hold hlive
    exact ⟨p, by rwa [Function.update_of_ne hp]⟩

/-- Storing a record at a cell that its search comes to, and that no other key
has. -/
theorem Stores.store [DecidableEq κ]
    (h : Stores path n tab m) {k : κ} {q : ℕ} (hcomes : Comes path n tab k q)
    (hfree : ∀ k' w, tab q = .live k' w → k' = k)
    (honly : ∀ p w, tab p = .live k w → p = q) (v : ν) :
    Stores path n (Function.update tab q (.live k v)) (Function.update m k (some v)) where
  comes := by
    intro p k' w hlive
    by_cases hp : p = q
    · rw [hp, Function.update_self] at hlive
      cases hlive
      rw [hp]
      exact hcomes.update_self _
    · rw [Function.update_of_ne hp] at hlive
      apply (h.comes p k' w hlive).update
      rintro rfl
      exact hp (honly p w hlive)
  holds := by
    intro k' w
    by_cases hk : k' = k
    · rw [hk, Function.update_self]
      constructor
      · intro heq
        cases heq
        exact ⟨q, Function.update_self ..⟩
      · rintro ⟨p, hlive⟩
        by_cases hp : p = q
        · rw [hp, Function.update_self] at hlive
          cases hlive
          rfl
        · rw [Function.update_of_ne hp] at hlive
          exact absurd (honly p w hlive) hp
    · rw [Function.update_of_ne hk, h.holds, exists_update_eq_live_iff]
      · intro hlive
        exact hk (hfree k' w hlive)
      · intro hlive
        cases hlive
        exact hk rfl

/-- Burying a record. -/
theorem Stores.bury [DecidableEq κ]
    (h : Stores path n tab m) {k : κ} {q : ℕ} {v : ν} (hq : tab q = .live k v) :
    Stores path n (Function.update tab q .deleted) (Function.update m k none) where
  comes := by
    intro p k' w hlive
    by_cases hp : p = q
    · rw [hp, Function.update_self] at hlive
      cases hlive
    · rw [Function.update_of_ne hp] at hlive
      exact (h.comes p k' w hlive).update trivial
  holds := by
    intro k' w
    by_cases hk : k' = k
    · rw [hk, Function.update_self]
      constructor
      · intro heq
        cases heq
      · rintro ⟨p, hlive⟩
        by_cases hp : p = q
        · rw [hp, Function.update_self] at hlive
          cases hlive
        · rw [Function.update_of_ne hp] at hlive
          exact absurd (h.eq_of_live hlive hq) hp
    · rw [Function.update_of_ne hk, h.holds, exists_update_eq_live_iff]
      · intro hlive
        rw [hq] at hlive
        cases hlive
        exact hk rfl
      · intro hlive
        cases hlive

end

end Support
end Newsbaoter
