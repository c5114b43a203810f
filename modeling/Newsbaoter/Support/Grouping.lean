import Mathlib.Algebra.BigOperators.Group.List.Basic
import Mathlib.Algebra.Ring.Int.Defs
import Mathlib.Algebra.Ring.Nat

/-!
# Counting by groups

Elements that each belong to one of some groups can be counted group by group.
A `GROUP BY` that leaves out the empty groups has the same sums.
-/

namespace Newsbaoter
namespace Support

variable {α β κ : Type*}

section Fibers

variable [DecidableEq κ] {groups : List κ}

/-- One of the groups is `a`. -/
theorem sum_map_indicator (hnodup : groups.Nodup) {a : κ} (ha : a ∈ groups) (n : ℕ) :
    (groups.map fun k => if a = k then n else 0).sum = n := by
  induction groups with
  | nil => cases ha
  | cons k groups ih =>
      obtain ⟨hk, hrest⟩ := List.nodup_cons.mp hnodup
      rw [List.map_cons, List.sum_cons]
      rcases List.mem_cons.mp ha with rfl | ha
      · have hzero : (groups.map fun k => if a = k then n else 0).sum = 0 := by
          apply List.sum_eq_zero
          intro m hm
          obtain ⟨k, hmem, rfl⟩ := List.mem_map.mp hm
          have hne : a ≠ k := fun heq => hk (heq ▸ hmem)
          exact if_neg hne
        rw [if_pos rfl, hzero, Nat.add_zero]
      · have hne : a ≠ k := fun heq => hk (heq ▸ ha)
        rw [if_neg hne, ih hrest ha, Nat.zero_add]

/-- The counts of the groups add up to the count of all. -/
theorem sum_countP_groups
    (hnodup : groups.Nodup) (key : β → κ) (p : β → Bool) {l : List β}
    (howned : ∀ x ∈ l, key x ∈ groups) :
    (groups.map fun k => l.countP fun x => key x == k && p x).sum = l.countP p := by
  induction l with
  | nil => simp
  | cons x l ih =>
      have hrest := ih fun y hy => howned y (List.mem_cons_of_mem x hy)
      have hx := sum_map_indicator hnodup (howned x List.mem_cons_self) (if p x then 1 else 0)
      have hsplit : ∀ k, (x :: l).countP (fun y => key y == k && p y) =
          l.countP (fun y => key y == k && p y) +
            if key x = k then (if p x then 1 else 0) else 0 := by
        intro k
        rw [List.countP_cons]
        by_cases hk : key x = k
        · simp [hk]
        · simp [hk]
      simp only [hsplit]
      rw [List.sum_map_add, hrest, hx, List.countP_cons]

end Fibers

/-- The sum over groups does not see those that are left out, if these have
nothing to add. -/
theorem sum_map_filterMap
    {f : α → Option β} {g : β → ℤ} {h : α → ℕ} {l : List α}
    (hsome : ∀ a ∈ l, ∀ b, f a = some b → g b = h a) (hnone : ∀ a ∈ l, f a = none → h a = 0) :
    ((l.filterMap f).map g).sum = ((l.map h).sum : ℕ) := by
  induction l with
  | nil => rfl
  | cons a l ih =>
      have hrest := ih (fun b hb => hsome b (List.mem_cons_of_mem a hb))
        fun b hb => hnone b (List.mem_cons_of_mem a hb)
      rw [List.map_cons, List.sum_cons, Int.natCast_add, ← hrest]
      cases ha : f a with
      | none =>
          rw [List.filterMap_cons_none ha, hnone a List.mem_cons_self ha, Int.natCast_zero,
            Int.zero_add]
      | some b =>
          rw [List.filterMap_cons_some ha, List.map_cons, List.sum_cons,
            hsome a List.mem_cons_self b ha]

end Support
end Newsbaoter
