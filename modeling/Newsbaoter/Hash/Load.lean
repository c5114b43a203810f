import Newsbaoter.Hash.Table
import Newsbaoter.Support.Run

/-!
# The load of the table

`set_hash_var` tests `tab[index]==NULL` after it has filled the slot, so its
count never rises and the table never grows.  What remains true is exactly this:
an operation stays inside the array as long as its name is in the table or one
of the 32 slots is not taken.
-/

namespace Newsbaoter
namespace Hash

open Newsbaoter.Support

variable {ν : Type*}

/-! ## Probing -/

/-- The slots at which `find_hash` may stop for the name `n`. -/
def Slot.Takes (n : CStr) : Slot ν → Prop
  | .live m _ => m = n
  | _ => True

def Slot.isLive : Slot ν → Bool
  | .live _ _ => true
  | _ => false

/-- An array whose every slot is among the first `size` probes. -/
structure Regular (tab : List (Slot ν)) (size : ℕ) : Prop where
  length_eq : tab.length = size
  pos : 0 < size
  dvd : size ∣ 2 ^ 32

theorem probe_lt {k : UInt32} {size : ℕ} (i : ℕ) (hpos : 0 < size) :
    probe k size i < size :=
  Nat.mod_lt _ hpos

/-- The probe sequence visits every index. -/
theorem exists_probe_eq
    {size : ℕ} (k : UInt32) (hpos : 0 < size) (hdvd : size ∣ 2 ^ 32)
    {p : ℕ} (hp : p < size) :
    ∃ i < size, probe k size i = p := by
  refine ⟨(p + (size - k.toNat % size)) % size, Nat.mod_lt _ hpos, ?_⟩
  have hk : k.toNat % size < size := Nat.mod_lt _ hpos
  have hsum : p + (size - k.toNat % size) + k.toNat % size = p + size := by omega
  rw [probe, Nat.mod_mod_of_dvd _ hdvd, Nat.mod_add_mod, ← Nat.add_mod_mod, hsum,
    Nat.add_mod_right, Nat.mod_eq_of_lt hp]

/-- A free slot is remembered if none was before. -/
theorem exists_remembered
    {n : CStr} {tab : List (Slot ν)} {p : ℕ} {slot : Slot ν} {ret : ℤ}
    (hget : tab[p]? = some slot) (hfree : slot.Takes n)
    (hret : ret < 0 ∨ ∃ slot, tab[ret.toNat]? = some slot ∧ slot.Takes n) :
    0 ≤ (if ret < 0 then (p : ℤ) else ret) ∧
      ∃ slot, tab[(if ret < 0 then (p : ℤ) else ret).toNat]? = some slot ∧ slot.Takes n := by
  by_cases hneg : ret < 0
  · rw [if_pos hneg]
    exact ⟨Int.natCast_nonneg p, slot, by simpa using hget, hfree⟩
  · rw [if_neg hneg]
    exact ⟨Int.not_lt.mp hneg, hret.resolve_left hneg⟩

/-- What the loop of `find_hash` returns: nothing where no probe may stop, and
otherwise the index of a slot that may. -/
theorem findFrom_spec
    {n : CStr} {k : UInt32} {tab : List (Slot ν)} {size : ℕ} (hlen : tab.length = size)
    (hpos : 0 < size) (rounds i : ℕ) (ret : ℤ)
    (hret : ret < 0 ∨ ∃ slot, tab[ret.toNat]? = some slot ∧ slot.Takes n) :
    ∃ r, findFrom n k tab size rounds i ret = some r ∧
      (0 ≤ r → ∃ slot, tab[r.toNat]? = some slot ∧ slot.Takes n) ∧
      (r < 0 → ret < 0 ∧ ∀ j < rounds, ∀ slot,
        tab[probe k size (i + j)]? = some slot → ¬slot.Takes n) := by
  induction rounds generalizing i ret with
  | zero =>
      refine ⟨ret, rfl, ?_, fun hr => ⟨hr, fun j hj => absurd hj (Nat.not_lt_zero j)⟩⟩
      intro hr
      exact hret.resolve_left (Int.not_lt.mpr hr)
  | succ rounds ih =>
      have hlt : probe k size i < tab.length := by
        rw [hlen]
        exact probe_lt i hpos
      have hget : tab[probe k size i]? = some tab[probe k size i] :=
        List.getElem?_eq_getElem hlt
      simp only [findFrom, hget]
      cases hslot : tab[probe k size i] with
      | null =>
          rw [hslot] at hget
          obtain ⟨hnonneg, hslot'⟩ := exists_remembered (n := n) hget trivial hret
          exact ⟨_, rfl, fun _ => hslot', fun hneg => absurd hneg (Int.not_lt.mpr hnonneg)⟩
      | deleted =>
          rw [hslot] at hget
          obtain ⟨hnonneg, hslot'⟩ := exists_remembered (n := n) hget trivial hret
          obtain ⟨r, hr, hfound, hmissing⟩ := ih (i + 1) _ (Or.inr hslot')
          refine ⟨r, hr, hfound, fun hneg => ?_⟩
          exact absurd (hmissing hneg).1 (Int.not_lt.mpr hnonneg)
      | live m v =>
          rw [hslot] at hget
          by_cases hm : m = n
          · refine ⟨probe k size i, by simp [hm], ?_, ?_⟩
            · intro _
              exact ⟨.live m v, by simpa using hget, hm⟩
            · intro hneg
              omega
          · obtain ⟨r, hr, hfound, hmissing⟩ := ih (i + 1) ret hret
            refine ⟨r, by simpa [hm] using hr, hfound, fun hneg => ?_⟩
            obtain ⟨hstart, hprobes⟩ := hmissing hneg
            refine ⟨hstart, ?_⟩
            intro j hj slot hslot'
            cases j with
            | zero =>
                rw [Nat.add_zero, hget] at hslot'
                obtain rfl := Option.some.inj hslot'
                exact hm
            | succ j =>
                apply hprobes j (Nat.lt_of_succ_lt_succ hj) slot
                rwa [Nat.add_assoc, Nat.add_comm 1 j]

theorem lookup_eq_some_iff
    {name : CStr} {tab : List (Slot ν)} {size p : ℕ} {slot : Slot ν} :
    lookup name tab size = some (p, slot) ↔
      findHash name (hashFunc name) tab size = some (p : ℤ) ∧ tab[p]? = some slot := by
  constructor
  · intro h
    obtain ⟨r, hr, hread⟩ := Option.bind_eq_some_iff.mp h
    by_cases hneg : r < 0
    · rw [if_pos hneg] at hread
      cases hread
    · rw [if_neg hneg] at hread
      obtain ⟨found, hget, hpair⟩ := Option.map_eq_some_iff.mp hread
      obtain ⟨rfl, rfl⟩ := Prod.mk.inj hpair
      rw [Int.toNat_of_nonneg (Int.not_lt.mp hneg)]
      exact ⟨hr, hget⟩
  · rintro ⟨hfind, hslot⟩
    have hnonneg : ¬(p : ℤ) < 0 := Int.not_lt.mpr (Int.natCast_nonneg p)
    rw [lookup, hfind, Option.bind_some, if_neg hnonneg, Int.toNat_natCast, hslot]
    rfl

/-- `find_hash` comes back with an index in the array just if some slot is free
or has the name. -/
theorem lookup_spec
    (name : CStr) {tab : List (Slot ν)} {size : ℕ} (hreg : Regular tab size) :
    (∃ index slot, lookup name tab size = some (index, slot) ∧
        tab[index]? = some slot ∧ slot.Takes name) ∨
      (lookup name tab size = none ∧ ∀ slot ∈ tab, ¬slot.Takes name) := by
  obtain ⟨r, hr, hfound, hmissing⟩ :=
    findFrom_spec (n := name) (k := hashFunc name) hreg.length_eq hreg.pos size 0 (-1)
      (Or.inl (by decide))
  by_cases hneg : r < 0
  · refine Or.inr ⟨by simp [lookup, findHash, hr, hneg], ?_⟩
    intro slot hslot
    obtain ⟨p, hp⟩ := List.mem_iff_getElem?.mp hslot
    have hlt : p < size := hreg.length_eq ▸ (List.getElem?_eq_some_iff.mp hp).1
    obtain ⟨j, hj, rfl⟩ := exists_probe_eq (hashFunc name) hreg.pos hreg.dvd hlt
    apply (hmissing hneg).2 j hj slot
    rwa [Nat.zero_add]
  · obtain ⟨slot, hslot, htakes⟩ := hfound (Int.not_lt.mp hneg)
    refine Or.inl ⟨r.toNat, slot, ?_, hslot, htakes⟩
    simp [lookup, findHash, hr, hneg, hslot]

/-! ## What an operation needs -/

/-- The table as the operations leave it: 32 slots, and a count that never
rose. -/
structure Stuck (t : Table ν) : Prop where
  size_eq : t.size = initialLoctabSize
  length_eq : t.tab.length = initialLoctabSize
  cap_nonpos : t.cap ≤ 0

theorem stuck_initTable : Stuck (initTable : Table ν) :=
  ⟨by rfl, by simp [initTable], by rfl⟩

theorem Stuck.regular {t : Table ν} (h : Stuck t) : Regular t.tab t.size := by
  refine ⟨h.length_eq.trans h.size_eq.symm, ?_, ?_⟩
  · rw [h.size_eq]
    decide
  · rw [h.size_eq]
    decide

/-- The table has the name or a slot for it. -/
def Room (t : Table ν) (name : CStr) : Prop :=
  ∃ slot ∈ t.tab, slot.Takes name

def Op.Fits (t : Table ν) : Op ν → Prop
  | .set name _ => Room t name
  | .unset name => Room t name
  | .get (some name) => Room t name
  | .get none => True

theorem lookup_isSome_iff {t : Table ν} (h : Stuck t) (name : CStr) :
    (lookup name t.tab t.size).isSome ↔ Room t name := by
  rcases lookup_spec name h.regular with
    ⟨index, slot, hlookup, hslot, htakes⟩ | ⟨hlookup, hmissing⟩
  · simp only [hlookup, Option.isSome_some, true_iff]
    exact ⟨slot, List.mem_of_getElem? hslot, htakes⟩
  · simp only [hlookup, Option.isSome_none, Bool.false_eq_true, false_iff]
    rintro ⟨slot, hslot, htakes⟩
    exact hmissing slot hslot htakes

theorem occupied_isNull (name : CStr) (slot : Slot ν) :
    (slot.occupied name).isNull = false := by
  cases slot <;> rfl

/-- The count is far from the bound and stays where it is. -/
theorem setHashVar_eq
    {t : Table ν} (h : Stuck t) (name : CStr) (value : Option ν) :
    setHashVar name value t =
      (lookup name t.tab t.size).map fun found =>
        { t with tab := t.tab.set found.1 ((found.2.occupied name).withValue value) } := by
  have hgrows : ¬((t.size / 4 * 3 : ℕ) : ℤ) < t.cap := by
    have hcap := h.cap_nonpos
    omega
  simp only [setHashVar, hgrows, decide_false, Bool.false_eq_true, if_false,
    Option.bind_some, occupied_isNull]

theorem step_isSome_iff {t : Table ν} (h : Stuck t) (op : Op ν) :
    (step t op).isSome ↔ op.Fits t := by
  cases op with
  | set name value =>
      rw [step, setHashVar_eq h, Option.isSome_map, lookup_isSome_iff h]
      rfl
  | unset name =>
      rw [step, unsetHashVar, Option.isSome_map, lookup_isSome_iff h]
      rfl
  | get name =>
      cases name with
      | none => simp [step, getHashVar, Op.Fits]
      | some name =>
          rw [step, getHashVar, Option.isSome_map, Option.isSome_map,
            lookup_isSome_iff h]
          rfl

theorem Stuck.step {t u : Table ν} {op : Op ν} (h : Stuck t) (hstep : step t op = some u) :
    Stuck u := by
  cases op with
  | set name value =>
      rw [Hash.step, setHashVar_eq h, Option.map_eq_some_iff] at hstep
      obtain ⟨found, -, rfl⟩ := hstep
      exact ⟨h.size_eq, by simpa using h.length_eq, h.cap_nonpos⟩
  | unset name =>
      rw [Hash.step, unsetHashVar, Option.map_eq_some_iff] at hstep
      obtain ⟨found, -, rfl⟩ := hstep
      split
      · refine ⟨h.size_eq, by simpa using h.length_eq, ?_⟩
        have hcap := h.cap_nonpos
        dsimp only
        omega
      · exact h
  | get name =>
      rw [Hash.step, Option.map_eq_some_iff] at hstep
      obtain ⟨value, -, rfl⟩ := hstep
      exact h

/-- A sequence of operations stays inside the array just if each of them finds
its name or a free slot. -/
theorem runs_isSome_iff_fits (ops : List (Op ν)) :
    (runs step (initTable : Table ν) ops).isSome ↔
      Meets step (fun t op => op.Fits t) initTable ops :=
  runs_isSome_iff_meets (fun _ op h => step_isSome_iff h op)
    (fun _ _ _ h hstep => h.step hstep) stuck_initTable

/-! ## The count -/

/-- The number of live entries. -/
def live (t : Table ν) : ℕ :=
  t.tab.countP Slot.isLive

/-- The count is right and a slot is free. -/
structure Loaded (t : Table ν) : Prop where
  cap_eq : t.cap = live t
  free : ∃ slot ∈ t.tab, slot.isLive = false

/-- Every state of the run from `t` is loaded as intended, and no operation
leaves the array. -/
def StaysLoaded : Table ν → List (Op ν) → Prop
  | t, [] => Loaded t
  | t, op :: ops => Loaded t ∧ ∃ u, step t op = some u ∧ StaysLoaded u ops

theorem live_initTable : live (initTable : Table ν) = 0 := by
  simp [live, initTable, List.countP_replicate, Slot.isLive]

theorem loaded_initTable : Loaded (initTable : Table ν) where
  cap_eq := by rw [live_initTable]; rfl
  free := ⟨.null, by simp [initTable, initialLoctabSize], rfl⟩

variable (ν) in
theorem lookup_initTable (name : CStr) :
    ∃ index, lookup name (initTable : Table ν).tab (initTable : Table ν).size =
      some (index, .null) ∧ index < initialLoctabSize := by
  have hstuck : Stuck (initTable : Table ν) := stuck_initTable
  rcases lookup_spec name hstuck.regular with
    ⟨index, slot, hlookup, hslot, -⟩ | ⟨-, hmissing⟩
  · have hlt := (List.getElem?_eq_some_iff.mp hslot).1
    have hmem := List.mem_of_getElem? hslot
    obtain rfl : slot = .null := List.eq_of_mem_replicate hmem
    exact ⟨index, hlookup, by simpa [initTable] using hlt⟩
  · exact absurd trivial (hmissing .null (by simp [initTable, initialLoctabSize]))

def Op.IsSet : Op ν → Prop
  | .set _ _ => True
  | _ => False

/-- Lookups and removals leave an empty table as it is. -/
theorem step_initTable_of_not_isSet {op : Op ν} (h : ¬op.IsSet) :
    step (initTable : Table ν) op = some initTable := by
  cases op with
  | set name value => exact absurd trivial h
  | unset name =>
      obtain ⟨index, hlookup, -⟩ := lookup_initTable ν name
      rw [step, unsetHashVar, hlookup]
      rfl
  | get name =>
      cases name with
      | none => rfl
      | some name =>
          obtain ⟨index, hlookup, -⟩ := lookup_initTable ν name
          rw [step, getHashVar, hlookup]
          rfl

/-- The first entry is not counted. -/
theorem not_loaded_of_set
    {name : CStr} {value : Option ν} {u : Table ν}
    (hstep : step (initTable : Table ν) (.set name value) = some u) :
    ¬Loaded u := by
  obtain ⟨index, hlookup, hlt⟩ := lookup_initTable ν name
  rw [step, setHashVar_eq stuck_initTable, hlookup, Option.map_some] at hstep
  have hcap : u.cap = 0 := by
    rw [← Option.some.inj hstep]
    rfl
  have hlive : 0 < live u := by
    rw [live, List.countP_pos_iff]
    refine ⟨.live name value, ?_, by rfl⟩
    rw [← Option.some.inj hstep]
    apply List.mem_set
    simpa [initTable] using hlt
  intro hloaded
  have heq := hloaded.cap_eq
  omega

/-- The table is loaded as intended just as long as nothing is stored in it. -/
theorem staysLoaded_iff_no_set (ops : List (Op ν)) :
    StaysLoaded (initTable : Table ν) ops ↔ ∀ op ∈ ops, ¬op.IsSet := by
  induction ops with
  | nil => simpa [StaysLoaded] using loaded_initTable
  | cons op ops ih =>
      rw [StaysLoaded, List.forall_mem_cons]
      constructor
      · rintro ⟨-, u, hstep, hrest⟩
        have hset : ¬op.IsSet := by
          intro hset
          have hloaded : Loaded u := by
            cases ops with
            | nil => exact hrest
            | cons op' ops => exact hrest.1
          cases op with
          | set name value => exact not_loaded_of_set hstep hloaded
          | unset name => exact hset
          | get name => exact hset
        rw [step_initTable_of_not_isSet hset] at hstep
        obtain rfl := Option.some.inj hstep
        exact ⟨hset, ih.mp hrest⟩
      · rintro ⟨hset, hrest⟩
        exact ⟨loaded_initTable, initTable, step_initTable_of_not_isSet hset,
          ih.mpr hrest⟩

/-! ## Distinct names -/

def Named (t : Table ν) (name : CStr) : Prop :=
  ∃ value, .live name value ∈ t.tab

theorem Slot.takes_of_not_isLive {slot : Slot ν} (h : slot.isLive = false) (n : CStr) :
    slot.Takes n := by
  cases slot with
  | live m v => exact absurd h (by simp [Slot.isLive])
  | _ => trivial

theorem Slot.isLive_eq_false_of_takes
    {t : Table ν} {name : CStr} {slot : Slot ν} (hname : ¬Named t name)
    (hslot : slot ∈ t.tab) (htakes : slot.Takes name) :
    slot.isLive = false := by
  cases slot with
  | live m v =>
      obtain rfl : m = name := htakes
      exact absurd ⟨v, hslot⟩ hname
  | _ => rfl

/-- A table without the name has room for it just if it is not full. -/
theorem room_iff_live_lt
    {t : Table ν} {name : CStr} (h : Stuck t) (hname : ¬Named t name) :
    Room t name ↔ live t < initialLoctabSize := by
  have hfull : live t = initialLoctabSize ↔ ∀ slot ∈ t.tab, slot.isLive = true := by
    rw [live, ← h.length_eq, List.countP_eq_length]
  have hle : live t ≤ initialLoctabSize := h.length_eq ▸ List.countP_le_length
  constructor
  · rintro ⟨slot, hslot, htakes⟩
    apply Nat.lt_of_le_of_ne hle
    intro heq
    have hlive := hfull.mp heq slot hslot
    rw [Slot.isLive_eq_false_of_takes hname hslot htakes] at hlive
    exact Bool.false_ne_true hlive
  · intro hlt
    by_contra hroom
    apply Nat.ne_of_lt hlt
    apply hfull.mpr
    intro slot hslot
    by_contra hdead
    exact hroom ⟨slot, hslot, slot.takes_of_not_isLive (by simpa using hdead) name⟩

/-- A new name takes one more slot. -/
theorem step_set_new
    {t u : Table ν} {name : CStr} {value : Option ν} (h : Stuck t)
    (hname : ¬Named t name) (hstep : step t (.set name value) = some u) :
    live u = live t + 1 ∧ ∀ m, Named u m → Named t m ∨ m = name := by
  rcases lookup_spec name h.regular with
    ⟨index, slot, hlookup, hslot, htakes⟩ | ⟨hlookup, -⟩
  · rw [step, setHashVar_eq h, hlookup, Option.map_some] at hstep
    obtain rfl := Option.some.inj hstep
    have hdead := Slot.isLive_eq_false_of_takes hname (List.mem_of_getElem? hslot) htakes
    have hnew : (slot.occupied name).withValue value = .live name value := by
      cases slot with
      | live m v => exact absurd hdead (by simp [Slot.isLive])
      | _ => rfl
    obtain ⟨hlt, hget⟩ := List.getElem?_eq_some_iff.mp hslot
    refine ⟨?_, ?_⟩
    · simp only [live, hnew]
      rw [List.countP_set hlt, hget, hdead]
      simp [Slot.isLive]
    · rintro m ⟨v, hv⟩
      rcases List.mem_or_eq_of_mem_set hv with hv | hv
      · exact Or.inl ⟨v, hv⟩
      · rw [hnew, Slot.live.injEq] at hv
        exact Or.inr hv.1
  · rw [step, setHashVar_eq h, hlookup] at hstep
    simp at hstep

/-- Storing distinct new names works until the 32 slots are taken. -/
theorem runs_set_isSome_iff
    {t : Table ν} {names : List CStr} (value : Option ν) (h : Stuck t)
    (hnodup : names.Nodup) (hnames : ∀ name ∈ names, ¬Named t name)
    (hlive : live t ≤ initialLoctabSize) :
    (runs step t (names.map fun name => .set name value)).isSome ↔
      live t + names.length ≤ initialLoctabSize := by
  induction names generalizing t with
  | nil => simpa using hlive
  | cons name names ih =>
      obtain ⟨hnew, hrest⟩ := List.nodup_cons.mp hnodup
      have hname := hnames name List.mem_cons_self
      have hneeds : (step t (.set name value)).isSome ↔ live t < initialLoctabSize := by
        rw [step_isSome_iff h, Op.Fits, room_iff_live_lt h hname]
      rw [List.map_cons, runs_cons, List.length_cons]
      cases hstep : step t (.set name value) with
      | none =>
          rw [hstep, Option.isSome_none] at hneeds
          have hfull : ¬live t < initialLoctabSize :=
            fun hlt => Bool.false_ne_true (hneeds.mpr hlt)
          simp only [Option.bind_none, Option.isSome_none, Bool.false_eq_true, false_iff]
          omega
      | some u =>
          rw [hstep, Option.isSome_some] at hneeds
          have hlt := hneeds.mp rfl
          obtain ⟨hcount, hnamed⟩ := step_set_new h hname hstep
          have hfresh : ∀ m ∈ names, ¬Named u m := by
            intro m hm hu
            rcases hnamed m hu with ht | rfl
            · exact hnames m (List.mem_cons_of_mem name hm) ht
            · exact hnew hm
          rw [Option.bind_some, ih (h.step hstep) hrest hfresh (by omega), hcount,
            Nat.add_assoc, Nat.add_comm 1]

theorem StaysLoaded.runs_isSome
    {t : Table ν} {ops : List (Op ν)} (h : StaysLoaded t ops) :
    (runs step t ops).isSome := by
  induction ops generalizing t with
  | nil => rfl
  | cons op ops ih =>
      obtain ⟨-, u, hstep, hrest⟩ := h
      rw [runs_cons, hstep, Option.bind_some]
      exact ih hrest

/-- Names of one byte each. -/
def tagNames (n : ℕ) : List CStr :=
  (List.range n).map fun i => [97 + i.toUInt8]

/-- For the 33rd tag `find_hash` returns `-1`, and the tag is written in front
of the array. -/
theorem tag_33_leaves_table :
    runs step (initTable : Table Unit) ((tagNames 33).map fun name => .set name none) =
        none ∧
      ¬StaysLoaded (initTable : Table Unit)
        ((tagNames 33).map fun name => .set name none) := by
  have hnone : runs step (initTable : Table Unit)
      ((tagNames 33).map fun name => .set name none) = none := by
    rw [← Option.not_isSome_iff_eq_none, runs_set_isSome_iff none stuck_initTable]
    · rw [live_initTable]
      decide
    · decide
    · intro name _ hnamed
      obtain ⟨value, hmem⟩ := hnamed
      simp [initTable] at hmem
    · rw [live_initTable]
      decide
  refine ⟨hnone, ?_⟩
  intro hloaded
  have hsome := hloaded.runs_isSome
  rw [hnone] at hsome
  exact Bool.false_ne_true hsome

end Hash
end Newsbaoter
