import Mathlib.Data.List.Sort
import Mathlib.Order.Lattice

/-!
# Tables with an integer primary key

A table is the list of its rows in strictly ascending key order, which is the
order a scan of a rowid table visits them.  Strict ascent is a field of the
structure, so two rows with one key cannot be built, and every operation below
returns a table for which it holds again.
-/

namespace Newsbaoter
namespace Support

/-- Rows in strictly ascending order of an integer key. -/
structure KeyedTable (ρ : Type*) (key : ρ → ℤ) where
  rows : List ρ
  sorted : rows.Pairwise fun a b => key a < key b

namespace KeyedTable

variable {ρ : Type*} {key : ρ → ℤ}

/-- Two rows of a table with the same key are the same row. -/
theorem eq_of_key_eq (t : KeyedTable ρ key) {a b : ρ}
    (ha : a ∈ t.rows) (hb : b ∈ t.rows) (hkey : key a = key b) : a = b := by
  by_contra hne
  have hlt : key a < key b ∨ key b < key a := by
    refine List.Pairwise.forall_of_forall_of_flip ?_ ?_ ?_ ha hb
      (R := fun a b => a ≠ b → key a < key b ∨ key b < key a) hne
    · exact fun x _ hx => absurd rfl hx
    · exact t.sorted.imp fun h _ => Or.inl h
    · exact t.sorted.imp fun h _ => Or.inr h
  omega

theorem nodup_rows (t : KeyedTable ρ key) : t.rows.Nodup :=
  t.sorted.imp fun hlt heq => absurd (congrArg key heq) (ne_of_lt hlt)

/-- A query for a key returns its row alone. -/
theorem filter_key_eq (t : KeyedTable ρ key) {a : ρ} (ha : a ∈ t.rows) :
    (t.rows.filter fun r => key r == key a) = [a] := by
  refine List.Perm.eq_singleton ?_
  rw [List.perm_ext_iff_of_nodup (t.nodup_rows.filter _) (List.nodup_singleton a)]
  intro x
  rw [List.mem_filter, beq_iff_eq, List.mem_singleton]
  constructor
  · rintro ⟨hx, hkey⟩
    exact t.eq_of_key_eq hx ha hkey
  · rintro rfl
    exact ⟨ha, rfl⟩

/-- A table is known by its rows. -/
theorem eq_of_mem_iff {t t' : KeyedTable ρ key} (h : ∀ x, x ∈ t.rows ↔ x ∈ t'.rows) :
    t = t' := by
  have hperm := (List.perm_ext_iff_of_nodup t.nodup_rows t'.nodup_rows).mpr h
  have hrows : t.rows = t'.rows :=
    hperm.eq_of_pairwise (fun a b _ _ hab hba => absurd hab (lt_asymm hba)) t.sorted t'.sorted
  cases t
  cases t'
  congr

/-- The table without rows. -/
def empty : KeyedTable ρ key := ⟨[], List.Pairwise.nil⟩

@[simp] theorem rows_empty : (empty : KeyedTable ρ key).rows = [] := rfl

/-! ## Inserting or replacing one row -/

/-- Put `r` at its place in an ascending list, over a row with its key. -/
def insertRow (key : ρ → ℤ) (r : ρ) : List ρ → List ρ
  | [] => [r]
  | x :: xs =>
      if key r < key x then r :: x :: xs
      else if key r = key x then r :: xs
      else x :: insertRow key r xs

theorem mem_insertRow_of_sorted {r x : ρ} {xs : List ρ}
    (hsorted : xs.Pairwise fun a b => key a < key b) :
    x ∈ insertRow key r xs ↔ x = r ∨ (x ∈ xs ∧ key x ≠ key r) := by
  induction xs with
  | nil => simp [insertRow]
  | cons y ys ih =>
      rw [List.pairwise_cons] at hsorted
      have htail : ∀ z ∈ ys, key y < key z := hsorted.1
      unfold insertRow
      split
      next hlt =>
        have hne : ∀ z ∈ y :: ys, key z ≠ key r := by
          intro z hz
          rcases List.mem_cons.mp hz with rfl | hz
          · omega
          · have := htail z hz
            omega
        constructor
        · intro hx
          rcases List.mem_cons.mp hx with rfl | hx
          · exact Or.inl rfl
          · exact Or.inr ⟨hx, hne x hx⟩
        · rintro (rfl | ⟨hx, -⟩)
          · exact List.mem_cons_self
          · exact List.mem_cons_of_mem _ hx
      next hge =>
        split
        next heq =>
          constructor
          · intro hx
            rcases List.mem_cons.mp hx with rfl | hx
            · exact Or.inl rfl
            · have := htail x hx
              exact Or.inr ⟨List.mem_cons_of_mem _ hx, by omega⟩
          · rintro (rfl | ⟨hx, hkey⟩)
            · exact List.mem_cons_self
            · rcases List.mem_cons.mp hx with rfl | hx
              · exact absurd heq.symm hkey
              · exact List.mem_cons_of_mem _ hx
        next hne =>
          rw [List.mem_cons, ih hsorted.2, List.mem_cons]
          constructor
          · rintro (rfl | rfl | ⟨hx, hkey⟩)
            · exact Or.inr ⟨Or.inl rfl, fun h => hne h.symm⟩
            · exact Or.inl rfl
            · exact Or.inr ⟨Or.inr hx, hkey⟩
          · rintro (rfl | ⟨rfl | hx, hkey⟩)
            · exact Or.inr (Or.inl rfl)
            · exact Or.inl rfl
            · exact Or.inr (Or.inr ⟨hx, hkey⟩)

theorem insertRow_sorted {r : ρ} {xs : List ρ}
    (hsorted : xs.Pairwise fun a b => key a < key b) :
    (insertRow key r xs).Pairwise fun a b => key a < key b := by
  induction xs with
  | nil => simp [insertRow]
  | cons y ys ih =>
      obtain ⟨htail, hys⟩ := List.pairwise_cons.mp hsorted
      unfold insertRow
      split
      next hlt =>
        refine List.pairwise_cons.mpr ⟨?_, hsorted⟩
        intro z hz
        rcases List.mem_cons.mp hz with rfl | hz
        · exact hlt
        · exact lt_trans hlt (htail z hz)
      next hge =>
        split
        next heq =>
          refine List.pairwise_cons.mpr ⟨fun z hz => ?_, hys⟩
          rw [heq]
          exact htail z hz
        next hne =>
          refine List.pairwise_cons.mpr ⟨?_, ih hys⟩
          intro z hz
          rcases (mem_insertRow_of_sorted hys).mp hz with rfl | ⟨hz, -⟩
          · omega
          · exact htail z hz

/-- Insert `r`, replacing the row that has its key, if there is one. -/
def insertOrReplace (t : KeyedTable ρ key) (r : ρ) : KeyedTable ρ key :=
  ⟨insertRow key r t.rows, insertRow_sorted t.sorted⟩

@[simp] theorem mem_insertOrReplace {t : KeyedTable ρ key} {r x : ρ} :
    x ∈ (t.insertOrReplace r).rows ↔ x = r ∨ (x ∈ t.rows ∧ key x ≠ key r) :=
  mem_insertRow_of_sorted t.sorted

theorem insertOrReplace_eq_self {t : KeyedTable ρ key} {r : ρ} (hr : r ∈ t.rows) :
    t.insertOrReplace r = t := by
  apply eq_of_mem_iff
  intro x
  rw [mem_insertOrReplace]
  constructor
  · rintro (rfl | ⟨hx, -⟩)
    · exact hr
    · exact hx
  · intro hx
    by_cases hkey : key x = key r
    · exact Or.inl (t.eq_of_key_eq hx hr hkey)
    · exact Or.inr ⟨hx, hkey⟩

/-! ## Updating and deleting rows -/

/-- Apply `f`, which leaves keys alone, to every row that satisfies `p`. -/
def updateWhere (t : KeyedTable ρ key) (p : ρ → Bool) (f : ρ → ρ)
    (hf : ∀ r, key (f r) = key r) : KeyedTable ρ key where
  rows := t.rows.map fun r => if p r then f r else r
  sorted := by
    rw [List.pairwise_map]
    refine t.sorted.imp fun {a b} hab => ?_
    have hkey : ∀ r, key (if p r then f r else r) = key r := by
      intro r
      split
      · exact hf r
      · rfl
    rw [hkey, hkey]
    exact hab

@[simp] theorem rows_updateWhere (t : KeyedTable ρ key) (p : ρ → Bool)
    (f : ρ → ρ) (hf : ∀ r, key (f r) = key r) :
    (t.updateWhere p f hf).rows =
      t.rows.map fun r => if p r then f r else r := rfl

/-- Drop every row that satisfies `p`. -/
def deleteWhere (t : KeyedTable ρ key) (p : ρ → Bool) : KeyedTable ρ key where
  rows := t.rows.filter fun r => !p r
  sorted := t.sorted.filter _

@[simp] theorem mem_deleteWhere {t : KeyedTable ρ key} {p : ρ → Bool} {x : ρ} :
    x ∈ (t.deleteWhere p).rows ↔ x ∈ t.rows ∧ p x = false := by
  simp [deleteWhere]

/-! ## Keys not yet in use -/

/-- One more than the largest key in use, and `1` for an empty table. -/
def freshKey (t : KeyedTable ρ key) : ℤ :=
  t.rows.foldr (fun r m => max (key r) m) 0 + 1

theorem key_lt_freshKey {t : KeyedTable ρ key} {r : ρ} (hr : r ∈ t.rows) :
    key r < t.freshKey := by
  have hle : ∀ xs : List ρ, r ∈ xs →
      key r ≤ xs.foldr (fun r m => max (key r) m) 0 := by
    intro xs
    induction xs with
    | nil => simp
    | cons y ys ih =>
        intro hmem
        rw [List.foldr_cons]
        rcases List.mem_cons.mp hmem with rfl | hmem
        · exact le_max_left _ _
        · exact le_trans (ih hmem) (le_max_right _ _)
  exact Int.lt_add_one_of_le (hle t.rows hr)

theorem freshKey_ne {t : KeyedTable ρ key} {r : ρ} (hr : r ∈ t.rows) :
    key r ≠ t.freshKey :=
  ne_of_lt (key_lt_freshKey hr)

/-! ## Counting rows -/

theorem countP_insertRow_of_fresh (p : ρ → Bool) {r : ρ} {xs : List ρ}
    (hfresh : ∀ x ∈ xs, key x ≠ key r) :
    (insertRow key r xs).countP p = xs.countP p + if p r then 1 else 0 := by
  induction xs with
  | nil => simp [insertRow, List.countP_cons]
  | cons y ys ih =>
      have hy : key y ≠ key r := hfresh y List.mem_cons_self
      unfold insertRow
      split
      · rw [List.countP_cons]
      · rw [if_neg fun h => hy h.symm, List.countP_cons, List.countP_cons,
          ih fun x hx => hfresh x (List.mem_cons_of_mem _ hx)]
        omega

theorem countP_insertRow_of_mem (p : ρ → Bool) {r old : ρ} {xs : List ρ}
    (hsorted : xs.Pairwise fun a b => key a < key b)
    (hmem : old ∈ xs) (hkey : key old = key r) :
    (insertRow key r xs).countP p + (if p old then 1 else 0) =
      xs.countP p + if p r then 1 else 0 := by
  induction xs with
  | nil => simp at hmem
  | cons y ys ih =>
      rw [List.pairwise_cons] at hsorted
      unfold insertRow
      rcases List.mem_cons.mp hmem with rfl | hmem
      · rw [if_neg (by omega), if_pos hkey.symm, List.countP_cons,
          List.countP_cons]
        omega
      · have hy : key y < key r := hkey ▸ hsorted.1 old hmem
        rw [if_neg (by omega), if_neg (by omega), List.countP_cons,
          List.countP_cons]
        have := ih hsorted.2 hmem
        omega

/-- Inserting under an unused key adds the new row to every count. -/
theorem countP_insertOrReplace_of_fresh (t : KeyedTable ρ key)
    (p : ρ → Bool) {r : ρ} (hfresh : ∀ x ∈ t.rows, key x ≠ key r) :
    (t.insertOrReplace r).rows.countP p =
      t.rows.countP p + if p r then 1 else 0 :=
  countP_insertRow_of_fresh p hfresh

/-- Replacing a row exchanges its share of every count for the new one's. -/
theorem countP_insertOrReplace_of_mem (t : KeyedTable ρ key)
    (p : ρ → Bool) {r old : ρ} (hmem : old ∈ t.rows)
    (hkey : key old = key r) :
    (t.insertOrReplace r).rows.countP p + (if p old then 1 else 0) =
      t.rows.countP p + if p r then 1 else 0 :=
  countP_insertRow_of_mem p t.sorted hmem hkey

end KeyedTable

end Support
end Newsbaoter
