import Newsbaoter.Hash.Map

/-!
# Walking over the table

`next_hash_pair` hands out the records in the order of the array, one a call.
The caller keeps the offset, and a record is seen once, since no name occupies
two slots.
-/

namespace Newsbaoter
namespace Hash

open Newsbaoter.Support

variable {ν : Type*}

/-- The loop of `next_hash_pair` from index `i` on, with `rounds` indices left;
the outer `none` is an access outside the array. -/
def nextFrom (tab : List (Slot ν)) : ℕ → ℕ → Option (Option (ℕ × CStr × Option ν))
  | 0, _ => some none
  | rounds + 1, i =>
      match tab[i]? with
      | none => none
      | some (.live name value) => some (some (i + 1, name, value))
      | some _ => nextFrom tab rounds (i + 1)

/-- The offset after `next_hash_pair`, and the name and the value it returns; an
inner `none` is `NULL` where there is no record left. -/
def nextHashPair (offset : ℤ) (t : Table ν) : Option (ℤ × Option (CStr × Option ν)) :=
  let offset := if offset < 0 then 0 else offset
  (nextFrom t.tab (t.size - offset.toNat) offset.toNat).map fun found =>
    match found with
    | none => (offset, none)
    | some (next, name, value) => (next, some (name, value))

/-! ## The records -/

def Slot.record : Slot ν → Option (CStr × Option ν)
  | .live name value => some (name, value)
  | _ => none

/-- The records in the order of the array. -/
def records (tab : List (Slot ν)) : List (CStr × Option ν) :=
  tab.filterMap Slot.record

theorem Slot.record_eq_some_iff {slot : Slot ν} {name : CStr} {value : Option ν} :
    slot.record = some (name, value) ↔ slot = .live name value := by
  cases slot <;> simp [Slot.record]

theorem records_drop {tab : List (Slot ν)} {i : ℕ} {slot : Slot ν} (h : tab[i]? = some slot) :
    records (tab.drop i) = slot.record.toList ++ records (tab.drop (i + 1)) := by
  obtain ⟨hlt, rfl⟩ := List.getElem?_eq_some_iff.mp h
  rw [List.drop_eq_getElem_cons hlt, records, records, List.filterMap_cons]
  cases tab[i].record <;> rfl

/-- The loop stops at the first record behind the offset. -/
theorem nextFrom_spec
    (tab : List (Slot ν)) {rounds i : ℕ} (h : i + rounds = tab.length) :
    (nextFrom tab rounds i = some none ∧ records (tab.drop i) = []) ∨
      ∃ next name value, nextFrom tab rounds i = some (some (next, name, value)) ∧
        i < next ∧ next ≤ tab.length ∧
        records (tab.drop i) = (name, value) :: records (tab.drop next) := by
  induction rounds generalizing i with
  | zero =>
      refine Or.inl ⟨rfl, ?_⟩
      rw [List.drop_of_length_le (by omega)]
      rfl
  | succ rounds ih =>
      have hslot : tab[i]? = some tab[i] := List.getElem?_eq_getElem (by omega)
      rw [nextFrom, records_drop hslot, hslot]
      cases tab[i] with
      | live name value =>
          exact Or.inr ⟨i + 1, name, value, rfl, Nat.lt_add_one i, by omega, rfl⟩
      | null | deleted =>
          rcases ih (i := i + 1) (by omega) with
            hnone | ⟨next, name, value, hfound, hlt, hle, hrest⟩
          · exact Or.inl hnone
          · exact Or.inr ⟨next, name, value, hfound, by omega, hle, hrest⟩

/-- A call takes the first record behind the offset. -/
theorem nextHashPair_spec
    {t : Table ν} (hlength : t.tab.length = t.size) {i : ℕ} (hi : i ≤ t.size) :
    (nextHashPair i t = some ((i : ℤ), none) ∧ records (t.tab.drop i) = []) ∨
      ∃ (next : ℕ) (name : CStr) (value : Option ν),
        nextHashPair i t = some ((next : ℤ), some (name, value)) ∧
        i < next ∧ next ≤ t.size ∧
        records (t.tab.drop i) = (name, value) :: records (t.tab.drop next) := by
  have hoffset : (if (i : ℤ) < 0 then (0 : ℤ) else i) = i := if_neg (by omega)
  simp only [nextHashPair, hoffset, Int.toNat_natCast]
  rw [← hlength]
  rcases nextFrom_spec t.tab (Nat.add_sub_of_le (hlength.symm ▸ hi)) with
    ⟨hnone, hrest⟩ | ⟨next, name, value, hfound, hlt, hle, hrest⟩
  · exact Or.inl ⟨by rw [hnone]; rfl, hrest⟩
  · exact Or.inr ⟨next, name, value, by rw [hfound]; rfl, hlt, hle, hrest⟩

/-! ## The records of a map -/

theorem Refines.mem_records_iff
    {t : Table ν} {m : CStr → Option (Option ν)} (h : Refines t m) {name : CStr}
    {value : Option ν} :
    (name, value) ∈ records t.tab ↔ m name = some value := by
  rw [h.stores.holds, records, List.mem_filterMap]
  constructor
  · rintro ⟨slot, hslot, hrecord⟩
    obtain ⟨p, hp⟩ := List.getElem?_of_mem hslot
    rw [Slot.record_eq_some_iff.mp hrecord] at hp
    exact ⟨p, cells_eq_live_iff.mpr hp⟩
  · rintro ⟨p, hp⟩
    exact ⟨_, List.mem_of_getElem? (cells_eq_live_iff.mp hp), rfl⟩

/-- No name occupies two slots. -/
theorem Refines.pairwise_records
    {t : Table ν} {m : CStr → Option (Option ν)} (h : Refines t m) :
    (records t.tab).Pairwise fun r r' => r.1 ≠ r'.1 := by
  rw [records, List.pairwise_filterMap, List.pairwise_iff_getElem]
  rintro i j hi hj hlt ⟨name, value⟩ hrecord ⟨name', value'⟩ hrecord' rfl
  have hlive : ∀ {p : ℕ} {v : Option ν} (hp : p < t.tab.length),
      t.tab[p].record = some (name, v) → cells t.tab p = .live name v := by
    intro p v hp hrecord
    rw [cells_eq_live_iff, List.getElem?_eq_getElem hp, Slot.record_eq_some_iff.mp hrecord]
  have hsame := h.stores.eq_of_live (hlive hi hrecord) (hlive hj hrecord')
  omega

/-- What a name has in the map was set by an operation. -/
theorem set_mem_of_foldl_apply
    {ops : List (Op ν)} {name : CStr} {value : Option ν}
    (h : ops.foldl Op.apply (fun _ => none) name = some value) : .set name value ∈ ops := by
  induction ops using List.reverseRecOn with
  | nil => cases h
  | append_singleton ops op ih =>
      rw [List.foldl_append, List.foldl_cons, List.foldl_nil] at h
      rw [List.mem_append, List.mem_singleton]
      cases hchanges : op.changes name with
      | false =>
          rw [apply_of_not_changes hchanges] at h
          exact Or.inl (ih h)
      | true =>
          cases op with
          | set n v =>
              obtain rfl : n = name := eq_of_beq hchanges
              rw [Op.apply, Function.update_self] at h
              cases h
              exact Or.inr rfl
          | unset n =>
              obtain rfl : n = name := eq_of_beq hchanges
              rw [Op.apply, Function.update_self] at h
              cases h
          | get _ => cases hchanges

end Hash
end Newsbaoter
