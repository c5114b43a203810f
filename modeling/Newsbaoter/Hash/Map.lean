import Mathlib.Data.List.Induction
import Newsbaoter.Hash.Load
import Newsbaoter.Support.Probing

/-!
# The table as a map

As long as every operation stays inside the array, the table is a finite map
from names to values.  The search for a name passes the tombstones and the
records of other names, so what happens to those does not matter to it.
-/

namespace Newsbaoter
namespace Hash

open Newsbaoter.Support

variable {ν : Type*}

/-! ## The cells of the array -/

def Slot.cell : Slot ν → Cell CStr (Option ν)
  | .null => .null
  | .deleted => .deleted
  | .live name value => .live name value

def cells (tab : List (Slot ν)) (p : ℕ) : Cell CStr (Option ν) :=
  (tab[p]?.map Slot.cell).getD .null

/-- The path of a name through an array of `size` slots. -/
def probes (size : ℕ) (name : CStr) (i : ℕ) : ℕ :=
  probe (hashFunc name) size i

theorem cells_of_getElem?
    {tab : List (Slot ν)} {p : ℕ} {slot : Slot ν} (h : tab[p]? = some slot) :
    cells tab p = slot.cell := by
  rw [cells, h]
  rfl

theorem cells_eq_live_iff
    {tab : List (Slot ν)} {p : ℕ} {name : CStr} {value : Option ν} :
    cells tab p = .live name value ↔ tab[p]? = some (.live name value) := by
  rw [cells]
  cases tab[p]? with
  | none => simp
  | some slot => cases slot <;> simp [Slot.cell]

theorem cells_set
    {tab : List (Slot ν)} {p : ℕ} (hp : p < tab.length) (slot : Slot ν) :
    cells (tab.set p slot) = Function.update (cells tab) p slot.cell := by
  funext q
  by_cases hq : q = p
  · rw [hq, Function.update_self, cells, List.getElem?_set_self hp]
    rfl
  · rw [Function.update_of_ne hq, cells, List.getElem?_set_ne (Ne.symm hq), cells]

/-! ## The search -/

theorem exists_getElem?_probes
    {tab : List (Slot ν)} {size : ℕ} (hreg : Regular tab size) (name : CStr) (i : ℕ) :
    ∃ slot, tab[probes size name i]? = some slot := by
  have hlt : probes size name i < tab.length := by
    rw [hreg.length_eq]
    exact probe_lt i hreg.pos
  exact ⟨_, List.getElem?_eq_getElem hlt⟩

/-- The loop of `find_hash` goes on behind a slot that passes. -/
theorem findFrom_of_passes
    {name : CStr} {tab : List (Slot ν)} {size i : ℕ} {slot : Slot ν}
    (hslot : tab[probes size name i]? = some slot) (hpasses : slot.cell.Passes name)
    (rounds : ℕ) (ret : ℤ) :
    findFrom name (hashFunc name) tab size (rounds + 1) i ret =
      findFrom name (hashFunc name) tab size rounds (i + 1)
        (if slot.isLive = false ∧ ret < 0 then (probes size name i : ℤ) else ret) := by
  rw [probes] at hslot ⊢
  simp only [findFrom, hslot]
  cases slot with
  | null => cases hpasses
  | deleted => simp [Slot.isLive]
  | live m v =>
      have hm : m ≠ name := hpasses
      simp [Slot.isLive, hm]

/-- The loop finds the record its path comes to. -/
theorem findFrom_of_comes
    {name : CStr} {tab : List (Slot ν)} {size p i₀ : ℕ} {value : Option ν}
    (hreg : Regular tab size) (hlive : tab[p]? = some (.live name value))
    (hp : probes size name i₀ = p)
    (hbefore : ∀ j < i₀, (cells tab (probes size name j)).Passes name)
    {rounds i : ℕ} (hi : i ≤ i₀) (hrounds : i₀ < i + rounds) (ret : ℤ) :
    findFrom name (hashFunc name) tab size rounds i ret = some p := by
  induction rounds generalizing i ret with
  | zero => omega
  | succ rounds ih =>
      rcases Nat.lt_or_eq_of_le hi with hlt | rfl
      · obtain ⟨slot, hslot⟩ := exists_getElem?_probes hreg name i
        have hpasses := hbefore i hlt
        rw [cells_of_getElem? hslot] at hpasses
        rw [findFrom_of_passes hslot hpasses]
        exact ih hlt (by omega) _
      · have hindex : probe (hashFunc name) size i = p := hp
        simp [findFrom, hindex, hlive]

/-- A slot that a search for an absent name may return. -/
def Vacant (tab : List (Slot ν)) (size : ℕ) (name : CStr) (p : ℕ) : Prop :=
  (∃ slot, tab[p]? = some slot ∧ slot.isLive = false) ∧
    Comes (probes size) size (cells tab) name p

/-- Where the probes so far have only seen other names, the next slot is one the
search comes to. -/
theorem vacant_of_live
    {name : CStr} {tab : List (Slot ν)} {size i : ℕ} {slot : Slot ν} (hi : i < size)
    (hslot : tab[probes size name i]? = some slot) (hdead : slot.isLive = false)
    (hlive : ∀ j < i, ∃ m v, tab[probes size name j]? = some (.live m v) ∧ m ≠ name) :
    Vacant tab size name (probes size name i) := by
  refine ⟨⟨slot, hslot, hdead⟩, i, hi, rfl, ?_⟩
  intro j hj
  obtain ⟨m, v, hm, hne⟩ := hlive j hj
  refine ⟨?_, ?_⟩
  · intro hsame
    rw [hsame, hslot] at hm
    rw [Option.some.inj hm] at hdead
    cases hdead
  · rw [cells_of_getElem? hm]
    exact hne

/-- For an absent name the loop returns a vacant slot, or nothing. -/
theorem findFrom_of_absent
    {name : CStr} {tab : List (Slot ν)} {size : ℕ} (hreg : Regular tab size)
    (habsent : ∀ (p : ℕ) v, tab[p]? ≠ some (.live name v))
    {rounds i : ℕ} (hrounds : i + rounds = size)
    {ret : ℤ} (hnone : ret < 0 → ∀ j < i, ∃ m v,
      tab[probes size name j]? = some (.live m v) ∧ m ≠ name)
    (hfound : 0 ≤ ret → Vacant tab size name ret.toNat) :
    ∃ r, findFrom name (hashFunc name) tab size rounds i ret = some r ∧
      (0 ≤ r → Vacant tab size name r.toNat) := by
  induction rounds generalizing i ret with
  | zero => exact ⟨ret, rfl, hfound⟩
  | succ rounds ih =>
      obtain ⟨slot, hslot⟩ := exists_getElem?_probes hreg name i
      have hremember : slot.isLive = false →
          Vacant tab size name (if ret < 0 then (probes size name i : ℤ) else ret).toNat := by
        intro hdead
        split
        · next hneg => exact vacant_of_live (by omega) hslot hdead (hnone hneg)
        · next hpos => exact hfound (Int.not_lt.mp hpos)
      cases slot with
      | null =>
          refine ⟨if ret < 0 then (probes size name i : ℤ) else ret, ?_, ?_⟩
          · rw [probes] at hslot ⊢
            simp only [findFrom, hslot]
          · intro _
            exact hremember rfl
      | deleted =>
          rw [findFrom_of_passes hslot trivial]
          have hif : (if Slot.isLive (.deleted : Slot ν) = false ∧ ret < 0 then
              (probes size name i : ℤ) else ret) =
              if ret < 0 then (probes size name i : ℤ) else ret := by
            simp [Slot.isLive]
          rw [hif]
          apply ih (by omega)
          · intro hneg
            split at hneg <;> omega
          · intro _
            exact hremember rfl
      | live m v =>
          have hm : m ≠ name := by
            rintro rfl
            exact habsent _ v hslot
          rw [findFrom_of_passes hslot hm]
          have hif : (if Slot.isLive (.live m v : Slot ν) = false ∧ ret < 0 then
              (probes size name i : ℤ) else ret) = ret := by
            simp [Slot.isLive]
          rw [hif]
          apply ih (by omega) _ hfound
          intro hneg j hj
          rcases Nat.lt_succ_iff_lt_or_eq.mp hj with hlt | rfl
          · exact hnone hneg j hlt
          · exact ⟨m, v, hslot, hm⟩

/-- In a table that stores a map, a lookup finds a stored name. -/
theorem lookup_of_some
    {tab : List (Slot ν)} {size : ℕ} {m : CStr → Option (Option ν)} (hreg : Regular tab size)
    (h : Stores (probes size) size (cells tab) m) {name : CStr} {value : Option ν}
    (hm : m name = some value) :
    ∃ p : ℕ, lookup name tab size = some (p, .live name value) ∧
      tab[p]? = some (.live name value) := by
  obtain ⟨p, hp⟩ := (h.holds name value).mp hm
  obtain ⟨i, hi, hpath, hbefore⟩ := h.comes p name value hp
  have hlive := cells_eq_live_iff.mp hp
  have hfind : findHash name (hashFunc name) tab size = some p :=
    findFrom_of_comes hreg hlive hpath (fun j hj => (hbefore j hj).2) (Nat.zero_le i)
      (by omega) _
  exact ⟨p, lookup_eq_some_iff.mpr ⟨hfind, hlive⟩, hlive⟩

/-- A lookup finds a stored name, and comes to a vacant slot for any other. -/
theorem lookup_of_stores
    {tab : List (Slot ν)} {size : ℕ} {m : CStr → Option (Option ν)} (hreg : Regular tab size)
    (h : Stores (probes size) size (cells tab) m) {name : CStr} {p : ℕ} {slot : Slot ν}
    (hlookup : lookup name tab size = some (p, slot)) :
    (∃ value, m name = some value ∧ slot = .live name value ∧ tab[p]? = some slot) ∨
      (m name = none ∧ slot.isLive = false ∧ Vacant tab size name p) := by
  cases hm : m name with
  | some value =>
      obtain ⟨q, hq, hlive⟩ := lookup_of_some hreg h hm
      obtain ⟨rfl, rfl⟩ := Prod.mk.inj (Option.some.inj (hlookup.symm.trans hq))
      exact Or.inl ⟨value, rfl, rfl, hlive⟩
  | none =>
      obtain ⟨hfind, hget⟩ := lookup_eq_some_iff.mp hlookup
      rw [findHash] at hfind
      have habsent : ∀ (q : ℕ) v, tab[q]? ≠ some (.live name v) := by
        intro q v hlive
        have hsome := (h.holds name v).mpr ⟨q, cells_eq_live_iff.mpr hlive⟩
        rw [hm] at hsome
        cases hsome
      obtain ⟨r, hr, hvacant⟩ := findFrom_of_absent hreg habsent (Nat.zero_add size)
        (fun _ j hj => absurd hj (Nat.not_lt_zero j)) (fun h : (0 : ℤ) ≤ -1 => absurd h (by decide))
      obtain rfl := Option.some.inj (hfind.symm.trans hr)
      have hp := hvacant (Int.natCast_nonneg p)
      rw [Int.toNat_natCast] at hp
      obtain ⟨slot', hslot, hdead⟩ := hp.1
      obtain rfl := Option.some.inj (hget.symm.trans hslot)
      exact Or.inr ⟨rfl, hdead, hp⟩

/-! ## The operations -/

/-- What an operation does to the map. -/
def Op.apply (m : CStr → Option (Option ν)) : Op ν → CStr → Option (Option ν)
  | .set name value => Function.update m name (some value)
  | .unset name => Function.update m name none
  | .get _ => m

/-- The table stores the map. -/
structure Refines (t : Table ν) (m : CStr → Option (Option ν)) : Prop where
  stuck : Stuck t
  stores : Stores (probes t.size) t.size (cells t.tab) m

theorem refines_initTable : Refines (initTable : Table ν) fun _ => none := by
  have hcells : cells (initTable : Table ν).tab = fun _ => .null := by
    funext p
    rw [cells, initTable, List.getElem?_replicate]
    split <;> rfl
  exact ⟨stuck_initTable, by rw [hcells]; exact stores_null⟩

theorem Refines.lookup
    {t : Table ν} {m : CStr → Option (Option ν)} (h : Refines t m) {name : CStr} {p : ℕ}
    {slot : Slot ν} (hlookup : Hash.lookup name t.tab t.size = some (p, slot)) :
    (∃ value, m name = some value ∧ slot = .live name value ∧ t.tab[p]? = some slot) ∨
      (m name = none ∧ slot.isLive = false ∧ Vacant t.tab t.size name p) :=
  lookup_of_stores h.stuck.regular h.stores hlookup

theorem occupied_withValue
    {name : CStr} {slot : Slot ν} (h : slot.isLive = false ∨ ∃ v, slot = .live name v)
    (value : Option ν) :
    (slot.occupied name).withValue value = .live name value := by
  cases slot with
  | live n v =>
      rcases h with hdead | ⟨w, hw⟩
      · cases hdead
      · cases hw
        rfl
  | _ => rfl

theorem Refines.set
    {t u : Table ν} {m : CStr → Option (Option ν)} (h : Refines t m) {name : CStr}
    {value : Option ν} (hset : setHashVar name value t = some u) :
    Refines u (Function.update m name (some value)) := by
  have hstep : Hash.step t (.set name value) = some u := hset
  have hstuck := h.stuck.step hstep
  rw [setHashVar_eq h.stuck] at hset
  obtain ⟨⟨p, slot⟩, hlookup, rfl⟩ := Option.map_eq_some_iff.mp hset
  refine ⟨hstuck, ?_⟩
  dsimp only
  rcases h.lookup hlookup with ⟨old, hm, rfl, hslot⟩ | ⟨hm, hdead, hvacant⟩
  · have hlt := (List.getElem?_eq_some_iff.mp hslot).1
    have hcell := cells_eq_live_iff.mpr hslot
    rw [occupied_withValue (Or.inr ⟨old, rfl⟩), cells_set hlt]
    apply h.stores.store (h.stores.comes p name old hcell)
    · intro k w hlive
      rw [hcell] at hlive
      cases hlive
      rfl
    · intro q w hlive
      exact h.stores.eq_of_live hlive hcell
  · obtain ⟨⟨slot', hslot, hdead'⟩, hcomes⟩ := hvacant
    have hlt := (List.getElem?_eq_some_iff.mp hslot).1
    rw [occupied_withValue (Or.inl hdead), cells_set hlt]
    apply h.stores.store hcomes
    · intro k w hlive
      rw [cells_of_getElem? hslot] at hlive
      cases slot' with
      | live n v => cases hdead'
      | null => cases hlive
      | deleted => cases hlive
    · intro q w hlive
      have hsome := (h.stores.holds name w).mpr ⟨q, hlive⟩
      rw [hm] at hsome
      cases hsome

theorem Refines.unset
    {t u : Table ν} {m : CStr → Option (Option ν)} (h : Refines t m) {name : CStr}
    (hunset : unsetHashVar name t = some u) :
    Refines u (Function.update m name none) := by
  have hstep : Hash.step t (.unset name) = some u := hunset
  have hstuck := h.stuck.step hstep
  obtain ⟨⟨p, slot⟩, hlookup, rfl⟩ := Option.map_eq_some_iff.mp hunset
  refine ⟨hstuck, ?_⟩
  rcases h.lookup hlookup with ⟨old, hm, rfl, hslot⟩ | ⟨hm, hdead, hvacant⟩
  · have hlt := (List.getElem?_eq_some_iff.mp hslot).1
    dsimp only
    rw [cells_set hlt]
    exact h.stores.bury (cells_eq_live_iff.mpr hslot)
  · have hsame : Function.update m name none = m := by
      rw [← hm]
      exact Function.update_eq_self name m
    rw [hsame]
    cases slot with
    | live n v => cases hdead
    | null => exact h.stores
    | deleted => exact h.stores

/-- A stored name is found. -/
theorem Refines.getHashVar_of_some
    {t : Table ν} {m : CStr → Option (Option ν)} (h : Refines t m) {name : CStr}
    {value : Option ν} (hm : m name = some value) :
    getHashVar (some name) t = some value := by
  obtain ⟨p, hlookup, -⟩ := lookup_of_some h.stuck.regular h.stores hm
  rw [getHashVar, hlookup]
  rfl

/-- A lookup within the array returns what the map has. -/
theorem Refines.get
    {t : Table ν} {m : CStr → Option (Option ν)} (h : Refines t m) {name : CStr}
    {value : Option ν} (hget : getHashVar (some name) t = some value) :
    value = (m name).join := by
  obtain ⟨⟨p, slot⟩, hlookup, hvalue⟩ := Option.map_eq_some_iff.mp hget
  rcases h.lookup hlookup with ⟨old, hm, rfl, hslot⟩ | ⟨hm, hdead, hvacant⟩
  · rw [hm]
    exact hvalue.symm
  · rw [hm]
    cases slot with
    | live n v => cases hdead
    | null => exact hvalue.symm
    | deleted => exact hvalue.symm

theorem Refines.step
    {t u : Table ν} {m : CStr → Option (Option ν)} {op : Op ν} (h : Refines t m)
    (hstep : Hash.step t op = some u) :
    Refines u (op.apply m) := by
  cases op with
  | set name value => exact h.set hstep
  | unset name => exact h.unset hstep
  | get name =>
      obtain ⟨value, -, rfl⟩ := Option.map_eq_some_iff.mp hstep
      exact h

theorem refines_of_runs
    {t : Table ν} {ops : List (Op ν)} (h : runs step initTable ops = some t) :
    Refines t (ops.foldl Op.apply fun _ => none) :=
  refines_runs (fun _ _ _ _ hs hstep => Refines.step hs hstep) refines_initTable h

/-! ## The value of a name -/

/-- The operation sets or unsets the name. -/
def Op.changes (name : CStr) : Op ν → Bool
  | .set n _ => n == name
  | .unset n => n == name
  | .get _ => false

/-- The value of the last set of the name, unless it is unset after that. -/
def lastSet (name : CStr) (ops : List (Op ν)) : Option ν :=
  match ops.reverse.find? (Op.changes name) with
  | some (.set _ value) => value
  | _ => none

theorem apply_of_not_changes
    {name : CStr} {op : Op ν} (h : op.changes name = false) (m : CStr → Option (Option ν)) :
    op.apply m name = m name := by
  cases op with
  | set n value =>
      have hne : name ≠ n := fun heq => beq_eq_false_iff_ne.mp h heq.symm
      exact Function.update_of_ne hne _ _
  | unset n =>
      have hne : name ≠ n := fun heq => beq_eq_false_iff_ne.mp h heq.symm
      exact Function.update_of_ne hne _ _
  | get _ => rfl

theorem foldl_apply_join (name : CStr) (ops : List (Op ν)) :
    (ops.foldl Op.apply (fun _ => none) name).join = lastSet name ops := by
  induction ops using List.reverseRecOn with
  | nil => rfl
  | append_singleton ops op ih =>
      rw [List.foldl_append, List.foldl_cons, List.foldl_nil, lastSet, List.reverse_append,
        List.reverse_singleton, List.singleton_append, List.find?_cons]
      cases hchanges : op.changes name with
      | false =>
          rw [apply_of_not_changes hchanges, ih]
          rfl
      | true =>
          cases op with
          | set n value =>
              rw [eq_of_beq hchanges, Op.apply, Function.update_self]
              rfl
          | unset n =>
              rw [eq_of_beq hchanges, Op.apply, Function.update_self]
              rfl
          | get _ => cases hchanges

/-- Whatever the operations, as long as none leaves the array: a lookup returns
the last value set and not unset since, no name occupies two slots, and an
operation on one name does not change the lookup of another. -/
theorem table_refines_map
    (ops : List (Op ν)) {t : Table ν} (ht : runs step initTable ops = some t) :
    (∀ name value, getHashVar (some name) t = some value → value = lastSet name ops) ∧
      (∀ (p q : ℕ) name v w, t.tab[p]? = some (.live name v) →
        t.tab[q]? = some (.live name w) → p = q) ∧
      ∀ op u name before after, step t op = some u → op.changes name = false →
        getHashVar (some name) t = some before → getHashVar (some name) u = some after →
          after = before := by
  have hrefines := refines_of_runs ht
  refine ⟨?_, ?_, ?_⟩
  · intro name value hget
    rw [hrefines.get hget, foldl_apply_join]
  · intro p q name v w hp hq
    exact hrefines.stores.eq_of_live (cells_eq_live_iff.mpr hp) (cells_eq_live_iff.mpr hq)
  · intro op u name before after hstep hchanges hbefore hafter
    rw [hrefines.get hbefore, (hrefines.step hstep).get hafter, apply_of_not_changes hchanges]

/-- Two names with one home slot: the first is stored, buried, and stored again
at its tombstone. -/
def collidingOps : List (Op ℕ) :=
  [.set (ascii "c") (some 1), .set (ascii "p") (some 2), .unset (ascii "c"),
    .get (some (ascii "p")), .set (ascii "c") (some 3), .unset (ascii "p")]

theorem colliding_names_kept_apart :
    ∃ t, runs step initTable collidingOps = some t ∧
      (∀ value, getHashVar (some (ascii "c")) t = some value → value = some 3) ∧
      ∀ value, getHashVar (some (ascii "p")) t = some value → value = none := by
  have hruns : (runs step initTable collidingOps).isSome = true := by decide
  obtain ⟨t, ht⟩ := Option.isSome_iff_exists.mp hruns
  have hlast := (table_refines_map collidingOps ht).1
  have hc : lastSet (ascii "c") collidingOps = some 3 := by decide
  have hp : lastSet (ascii "p") collidingOps = none := by decide
  refine ⟨t, ht, ?_, ?_⟩
  · intro value hget
    rw [hlast _ _ hget, hc]
  · intro value hget
    rw [hlast _ _ hget, hp]

end Hash
end Newsbaoter
