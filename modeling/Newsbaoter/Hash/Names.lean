import Mathlib.Data.Finset.Card
import Newsbaoter.Hash.Pairs

/-!
# The names of the table

A table that stores a map has one live record for each of its names, so an
operation on a name stays inside the array just if the names, with that one, are
no more than the slots.
-/

namespace Newsbaoter
namespace Hash

variable {ν : Type*}

theorem Refines.named_iff
    {t : Table ν} {m : CStr → Option (Option ν)} (h : Refines t m) {name : CStr} :
    Named t name ↔ ∃ value, m name = some value := by
  refine exists_congr fun value => ?_
  rw [h.stores.holds]
  constructor
  · intro hmem
    obtain ⟨p, hp⟩ := List.getElem?_of_mem hmem
    exact ⟨p, cells_eq_live_iff.mpr hp⟩
  · rintro ⟨p, hp⟩
    exact List.mem_of_getElem? (cells_eq_live_iff.mp hp)

theorem length_records (tab : List (Slot ν)) : (records tab).length = tab.countP Slot.isLive := by
  rw [records, List.length_filterMap_eq_countP]
  apply List.countP_congr
  intro slot _
  cases slot <;> rfl

/-- The live records are as many as the names. -/
theorem Refines.live_eq
    {t : Table ν} {m : CStr → Option (Option ν)} (h : Refines t m) {names : Finset CStr}
    (hnames : ∀ name, name ∈ names ↔ ∃ value, m name = some value) :
    live t = names.card := by
  have hnodup : ((records t.tab).map Prod.fst).Nodup :=
    List.pairwise_map.mpr h.pairwise_records
  have hsame : names = ((records t.tab).map Prod.fst).toFinset := by
    ext name
    rw [hnames, List.mem_toFinset, List.mem_map]
    constructor
    · rintro ⟨value, hvalue⟩
      exact ⟨(name, value), h.mem_records_iff.mpr hvalue, rfl⟩
    · rintro ⟨⟨n, value⟩, hmem, rfl⟩
      exact ⟨value, h.mem_records_iff.mp hmem⟩
  rw [hsame, List.toFinset_card_of_nodup hnodup, List.length_map, length_records, live]

theorem Refines.room_iff
    {t : Table ν} {m : CStr → Option (Option ν)} (h : Refines t m) {names : Finset CStr}
    (hnames : ∀ name, name ∈ names ↔ ∃ value, m name = some value) (name : CStr) :
    Room t name ↔ (insert name names).card ≤ initialLoctabSize := by
  have hlive := h.live_eq hnames
  by_cases hname : name ∈ names
  · obtain ⟨value, hmem⟩ := h.named_iff.mpr ((hnames name).mp hname)
    have hle : live t ≤ initialLoctabSize := h.stuck.length_eq ▸ List.countP_le_length
    rw [Finset.insert_eq_of_mem hname, ← hlive]
    exact iff_of_true ⟨_, hmem, rfl⟩ hle
  · have hnew : ¬Named t name := fun hnamed => hname ((hnames name).mpr (h.named_iff.mp hnamed))
    rw [room_iff_live_lt h.stuck hnew, hlive, Finset.card_insert_of_notMem hname,
      Nat.succ_le_iff]

/-- To look up a name that is not stored is safe just while a slot is free. -/
theorem Refines.getHashVar_eq
    {t : Table ν} {m : CStr → Option (Option ν)} (h : Refines t m) {names : Finset CStr}
    (hnames : ∀ name, name ∈ names ↔ ∃ value, m name = some value) (name : CStr) :
    getHashVar (some name) t =
      if name ∈ names ∨ names.card < initialLoctabSize then some (m name).join else none := by
  by_cases hname : name ∈ names
  · obtain ⟨value, hm⟩ := (hnames name).mp hname
    rw [if_pos (Or.inl hname), hm]
    exact h.getHashVar_of_some hm
  · have hroom := h.room_iff hnames name
    rw [Finset.card_insert_of_notMem hname, Nat.succ_le_iff] at hroom
    have hget := step_isSome_iff h.stuck (.get (some name))
    rw [Hash.step, Option.isSome_map, Op.Fits, hroom] at hget
    cases hlookup : getHashVar (some name) t with
    | none =>
        rw [hlookup] at hget
        rw [if_neg (not_or.mpr ⟨hname, fun hlt => Bool.false_ne_true (hget.mpr hlt)⟩)]
    | some value =>
        rw [hlookup] at hget
        rw [if_pos (Or.inr (hget.mp rfl)), h.get hlookup]

end Hash
end Newsbaoter
