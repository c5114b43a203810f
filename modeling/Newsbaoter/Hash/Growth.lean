import Newsbaoter.Hash.Map

/-!
# Growing the table

`grow_hash` goes on from a taken slot by one more than the hash, `find_hash` by
one, so a record that finds its home taken is put where no search comes to, or
nowhere at all.  And the array that `grow_hash` makes goes to a parameter of
`set_hash_var`: the owner keeps the old one, with the new size.
-/

namespace Newsbaoter
namespace Hash

open Newsbaoter.Support

variable {ν : Type*}

/-! ## What growing is for -/

/-- The lookups in `grown` find the records of `tab`, and nothing else. -/
structure SameRecords (tab grown : List (Slot ν)) (size : ℕ) : Prop where
  found : ∀ name value, .live name value ∈ tab →
    ∃ p, lookup name grown size = some (p, .live name value)
  others : ∀ name p slot, (∀ value, .live name value ∉ tab) →
    lookup name grown size = some (p, slot) → slot.isLive = false

/-- `set_hash_var` grows the table. -/
def Table.Grows (t : Table ν) : Prop :=
  ((t.size / 4 * 3 : ℕ) : ℤ) < t.cap

instance (t : Table ν) : Decidable t.Grows :=
  inferInstanceAs (Decidable (_ < _))

/-- The array that the owner has after storing `value` is `grown` with the value
stored. -/
def SeesGrown (grown : List (Slot ν)) (size : ℕ) (name : CStr) (value : Option ν)
    (u : Table ν) : Prop :=
  ∃ p slot, lookup name grown size = some (p, slot) ∧
    u.tab = grown.set p ((slot.occupied name).withValue value)

/-- Growing terminates and keeps the records, and the owner sees the grown
table whenever the table is grown. -/
structure GrowsRight (t : Table ν) : Prop where
  grown : ∃ grown, growHash t.tab t.size = some grown ∧ SameRecords t.tab grown (2 * t.size)
  owner : t.Grows → ∀ name value u, setHashVar name value t = some u →
    ∃ grown, growHash t.tab t.size = some grown ∧ SeesGrown grown (2 * t.size) name value u

/-! ## Records that find their home free -/

/-- The slot where the search for a name begins. -/
def home (size : ℕ) (name : CStr) : ℕ :=
  (hashFunc name).toNat % size

/-- No two live names have one home. -/
def Apart (size : ℕ) (tab : List (Slot ν)) : Prop :=
  tab.Pairwise fun a b => ∀ name value name' value', a = .live name value →
    b = .live name' value' → home size name ≠ home size name'

/-- One round of the loop of `grow_hash`. -/
def reinsert (newSize : ℕ) (tab : List (Slot ν)) : Slot ν → Option (List (Slot ν))
  | .live name value =>
      let k := hashFunc name
      (growProbe k newSize tab newSize (k.toNat % newSize)).map fun j =>
        tab.set j (.live name value)
  | _ => some tab

theorem growHash_eq (temp : List (Slot ν)) (size : ℕ) :
    growHash temp size =
      temp.foldlM (reinsert (2 * size)) (List.replicate (2 * size) .null) := by
  rfl

theorem reinsert_of_free
    {newSize : ℕ} {tab : List (Slot ν)} {name : CStr} (value : Option ν)
    (hfree : tab[home newSize name]? = some .null) (hpos : 0 < newSize) :
    reinsert newSize tab (.live name value) =
      some (tab.set (home newSize name) (.live name value)) := by
  obtain ⟨n, rfl⟩ := Nat.exists_eq_succ_of_ne_zero (Nat.ne_of_gt hpos)
  rw [home] at hfree ⊢
  simp only [reinsert, growProbe, hfree, Option.map_some]

/-- `grown` has the records of `temp` at their homes, and `acc` elsewhere. -/
structure Placed (newSize : ℕ) (temp acc grown : List (Slot ν)) : Prop where
  length : grown.length = newSize
  live : ∀ name value, .live name value ∈ temp →
    grown[home newSize name]? = some (.live name value)
  other : ∀ p, (∀ name value, .live name value ∈ temp → p ≠ home newSize name) →
    grown[p]? = acc[p]?

theorem Placed.nil {newSize : ℕ} {acc : List (Slot ν)} (hlen : acc.length = newSize) :
    Placed newSize [] acc acc where
  length := hlen
  live name value hmem := by cases hmem
  other _ _ := rfl

theorem Placed.skip
    {newSize : ℕ} {temp acc grown : List (Slot ν)} (h : Placed newSize temp acc grown)
    {slot : Slot ν} (hdead : slot.isLive = false) :
    Placed newSize (slot :: temp) acc grown where
  length := h.length
  live name value hmem := by
    rcases List.mem_cons.mp hmem with rfl | hmem
    · cases hdead
    · exact h.live name value hmem
  other p hp := h.other p fun name value hmem => hp name value (List.mem_cons_of_mem _ hmem)

/-- A record whose home no later record takes. -/
theorem Placed.cons
    {newSize : ℕ} {temp acc grown : List (Slot ν)} {name : CStr} {value : Option ν}
    (h : Placed newSize temp (acc.set (home newSize name) (.live name value)) grown)
    (hlt : home newSize name < acc.length)
    (hne : ∀ name' value', .live name' value' ∈ temp →
      home newSize name ≠ home newSize name') :
    Placed newSize (.live name value :: temp) acc grown where
  length := h.length
  live name' value' hmem := by
    rcases List.mem_cons.mp hmem with hsame | hmem
    · cases hsame
      rw [h.other _ hne, List.getElem?_set_self hlt]
    · exact h.live name' value' hmem
  other p hp := by
    rw [h.other p fun name' value' hmem => hp name' value' (List.mem_cons_of_mem _ hmem),
      List.getElem?_set_ne (hp name value List.mem_cons_self).symm]

/-- A free home takes its record, and every other slot stays as it is. -/
theorem exists_foldlM_reinsert
    {newSize : ℕ} (hpos : 0 < newSize) {temp acc : List (Slot ν)} (hlen : acc.length = newSize)
    (hapart : Apart newSize temp)
    (hfree : ∀ name value, .live name value ∈ temp → acc[home newSize name]? = some .null) :
    ∃ grown, temp.foldlM (reinsert newSize) acc = some grown ∧
      Placed newSize temp acc grown := by
  induction temp generalizing acc with
  | nil => exact ⟨acc, rfl, .nil hlen⟩
  | cons slot temp ih =>
      obtain ⟨hhead, htail⟩ := List.pairwise_cons.mp hapart
      have hrest : ∀ name value, .live name value ∈ temp →
          acc[home newSize name]? = some .null :=
        fun name value hmem => hfree name value (List.mem_cons_of_mem slot hmem)
      cases slot with
      | live name value =>
          have hhome := hfree name value List.mem_cons_self
          have hne : ∀ name' value', .live name' value' ∈ temp →
              home newSize name ≠ home newSize name' :=
            fun name' value' hmem => hhead _ hmem name value name' value' rfl rfl
          have hlen' : (acc.set (home newSize name) (.live name value)).length = newSize := by
            rw [List.length_set, hlen]
          have hrest' : ∀ name' value', .live name' value' ∈ temp →
              (acc.set (home newSize name) (.live name value))[home newSize name']? =
                some .null := by
            intro name' value' hmem
            rw [List.getElem?_set_ne (hne name' value' hmem)]
            exact hrest name' value' hmem
          obtain ⟨grown, hgrown, hplaced⟩ := ih hlen' htail hrest'
          refine ⟨grown, ?_, hplaced.cons (List.getElem?_eq_some_iff.mp hhome).1 hne⟩
          rw [List.foldlM_cons, reinsert_of_free value hhome hpos]
          exact hgrown
      | null =>
          obtain ⟨grown, hgrown, hplaced⟩ := ih hlen htail hrest
          exact ⟨grown, hgrown, hplaced.skip rfl⟩
      | deleted =>
          obtain ⟨grown, hgrown, hplaced⟩ := ih hlen htail hrest
          exact ⟨grown, hgrown, hplaced.skip rfl⟩

/-- A slot that does not pass ends the search at its first probe. -/
theorem lookup_of_home
    {tab : List (Slot ν)} {size : ℕ} (hpos : 0 < size) {name : CStr} {slot : Slot ν}
    (hslot : tab[home size name]? = some slot) (hstops : ¬slot.cell.Passes name) :
    lookup name tab size = some (home size name, slot) := by
  have hfirst : probe (hashFunc name) size 0 = home size name := by
    rw [probe, Nat.zero_add, Nat.mod_eq_of_lt (hashFunc name).toNat_lt, home]
  have hfind : findHash name (hashFunc name) tab size = some (home size name : ℤ) := by
    obtain ⟨n, rfl⟩ := Nat.exists_eq_succ_of_ne_zero (Nat.ne_of_gt hpos)
    cases slot with
    | null => simp [findHash, findFrom, hfirst, hslot]
    | deleted => exact absurd trivial hstops
    | live m value =>
        have hm : m = name := not_not.mp hstops
        simp [findHash, findFrom, hfirst, hslot, hm]
  exact lookup_eq_some_iff.mpr ⟨hfind, hslot⟩

/-- A lookup returns no record of another name. -/
theorem eq_of_lookup_live
    {tab : List (Slot ν)} {size p : ℕ} (hlen : tab.length = size) (hpos : 0 < size)
    {name m : CStr} {value : Option ν} (h : lookup name tab size = some (p, .live m value)) :
    m = name ∧ .live m value ∈ tab := by
  obtain ⟨hfind, hget⟩ := lookup_eq_some_iff.mp h
  rw [findHash] at hfind
  obtain ⟨r, hr, hfound, -⟩ := findFrom_spec hlen hpos size 0 (-1) (n := name)
    (k := hashFunc name) (Or.inl (by decide))
  obtain rfl := Option.some.inj (hfind.symm.trans hr)
  obtain ⟨slot, hslot, htakes⟩ := hfound (Int.natCast_nonneg p)
  rw [Int.toNat_natCast] at hslot
  obtain rfl := Option.some.inj (hget.symm.trans hslot)
  exact ⟨htakes, List.mem_of_getElem? hget⟩

theorem grown_of_apart
    {t : Table ν} (hpos : 0 < t.size) (hapart : Apart (2 * t.size) t.tab) :
    ∃ grown, growHash t.tab t.size = some grown ∧ SameRecords t.tab grown (2 * t.size) := by
  have hpos' : 0 < 2 * t.size := by omega
  have hnull : ∀ p < 2 * t.size,
      (List.replicate (2 * t.size) (.null : Slot ν))[p]? = some .null := by
    intro p hp
    rw [List.getElem?_replicate, if_pos hp]
  obtain ⟨grown, hgrown, hlength, hlive, hother⟩ :=
    exists_foldlM_reinsert hpos' (List.length_replicate (n := 2 * t.size) (a := (.null : Slot ν)))
      hapart fun name _ _ => hnull _ (Nat.mod_lt _ hpos')
  refine ⟨grown, (growHash_eq t.tab t.size).trans hgrown, ?_, ?_⟩
  · intro name value hmem
    exact ⟨_, lookup_of_home hpos' (hlive name value hmem) (not_not_intro rfl)⟩
  · intro name p slot habsent hlookup
    cases slot with
    | null => rfl
    | deleted => rfl
    | live m value =>
        obtain ⟨rfl, hmem⟩ := eq_of_lookup_live hlength hpos' hlookup
        obtain ⟨q, hq⟩ := List.mem_iff_getElem?.mp hmem
        by_cases hhome : ∃ name value, .live name value ∈ t.tab ∧ q = home (2 * t.size) name
        · obtain ⟨name, value', hmem', hindex⟩ := hhome
          rw [hindex, hlive name value' hmem'] at hq
          cases hq
          exact absurd hmem' (habsent value)
        · rw [hother q fun name value hmem heq => hhome ⟨name, value, hmem, heq⟩,
            List.getElem?_replicate] at hq
          split at hq <;> cases hq

/-! ## The owner -/

theorem length_of_foldlM_reinsert
    {newSize : ℕ} {temp acc grown : List (Slot ν)}
    (h : temp.foldlM (reinsert newSize) acc = some grown) : grown.length = acc.length := by
  induction temp generalizing acc with
  | nil =>
      cases h
      rfl
  | cons slot temp ih =>
      rw [List.foldlM_cons] at h
      obtain ⟨acc', hacc', hrest⟩ := Option.bind_eq_some_iff.mp h
      rw [ih hrest]
      cases slot with
      | live name value =>
          obtain ⟨j, -, rfl⟩ := Option.map_eq_some_iff.mp hacc'
          exact List.length_set
      | null =>
          cases hacc'
          rfl
      | deleted =>
          cases hacc'
          rfl

theorem length_of_growHash
    {temp grown : List (Slot ν)} {size : ℕ} (h : growHash temp size = some grown) :
    grown.length = 2 * size := by
  rw [length_of_foldlM_reinsert ((growHash_eq temp size).symm.trans h), List.length_replicate]

/-- Some name can be stored in the grown table. -/
theorem exists_lookup_grown
    {t : Table ν} (hpos : 0 < t.size) {grown : List (Slot ν)}
    (hgrown : growHash t.tab t.size = some grown)
    (hsame : SameRecords t.tab grown (2 * t.size)) :
    ∃ name found, lookup name grown (2 * t.size) = some found := by
  by_cases hlive : ∃ name value, .live name value ∈ t.tab
  · obtain ⟨name, value, hmem⟩ := hlive
    obtain ⟨p, hp⟩ := hsame.found name value hmem
    exact ⟨name, _, hp⟩
  · have hnone : ∀ name value, .live name value ∉ t.tab :=
      fun name value hmem => hlive ⟨name, value, hmem⟩
    have hnull : grown = List.replicate (2 * t.size) .null := by
      have hapart : Apart (2 * t.size) t.tab := by
        rw [Apart, List.pairwise_iff_forall_sublist]
        rintro a b hsub name value - - rfl
        exact absurd (hsub.subset List.mem_cons_self) (hnone name value)
      obtain ⟨grown', hgrown', hplaced⟩ := exists_foldlM_reinsert (by omega)
        (List.length_replicate (n := 2 * t.size) (a := (.null : Slot ν))) hapart
        fun name value hmem => absurd hmem (hnone name value)
      obtain rfl := Option.some.inj (hgrown.symm.trans ((growHash_eq t.tab t.size).trans hgrown'))
      exact List.ext_getElem? fun p =>
        hplaced.other p fun name value hmem => absurd hmem (hnone name value)
    have hhome : grown[home (2 * t.size) []]? = some .null := by
      have hlt : home (2 * t.size) [] < 2 * t.size := Nat.mod_lt _ (by omega)
      rw [hnull, List.getElem?_replicate, if_pos hlt]
    exact ⟨[], _, lookup_of_home (by omega) hhome id⟩

theorem Slot.length_writtenBack (value : Option ν) (old : List (Slot ν)) (found : Slot ν) :
    (found.writtenBack value old).length = old.length := by
  cases found with
  | null => rfl
  | deleted => rfl
  | live n v => exact List.length_map _

/-- Whoever grows the table, its owner keeps the old array. -/
theorem GrowsRight.not_grows
    {t : Table ν} (h : GrowsRight t) (hpos : 0 < t.size) (hlen : t.tab.length = t.size) :
    ¬t.Grows := by
  intro hgrows
  obtain ⟨grown, hgrown, hsame⟩ := h.grown
  obtain ⟨name, found, hfound⟩ := exists_lookup_grown hpos hgrown hsame
  have hset : setHashVar name none t = some
      { tab := found.2.writtenBack none t.tab
        size := 2 * t.size
        cap := if (found.2.occupied name).isNull then t.cap + 1 else t.cap } := by
    have hdecide : decide (((t.size / 4 * 3 : ℕ) : ℤ) < t.cap) = true := decide_eq_true hgrows
    simp only [setHashVar, hdecide, if_true, hgrown, Option.bind_some, hfound, Option.map_some]
  obtain ⟨grown', hgrown', p, slot, -, htab⟩ := h.owner hgrows name none _ hset
  have hlength := congrArg List.length htab
  rw [Slot.length_writtenBack, List.length_set, length_of_growHash hgrown', hlen] at hlength
  omega

/-- Growing is right where no two names have one home and the table is not
grown by `set_hash_var`; and it is never right where it is. -/
theorem growsRight_of_apart
    {t : Table ν} (hpos : 0 < t.size) (hlen : t.tab.length = t.size) :
    (Apart (2 * t.size) t.tab ∧ ¬t.Grows → GrowsRight t) ∧ (GrowsRight t → ¬t.Grows) := by
  refine ⟨?_, fun h => h.not_grows hpos hlen⟩
  rintro ⟨hapart, hgrows⟩
  exact ⟨grown_of_apart hpos hapart, fun h => absurd h hgrows⟩

/-- Two names whose home in 64 slots is slot 27. -/
def sameHome : List (Op ℕ) :=
  [.set (ascii "b") (some 1), .set (ascii "q") (some 2)]

/-- The second of them goes to slot 55, and the search for it ends at slot 28;
of two others, the second is never put anywhere in a table of four slots. -/
theorem colliding_names_lost :
    (∃ t, runs step initTable sameHome = some t ∧ ¬GrowsRight t) ∧
      growHash [.live (ascii "b") (some 1), .live (ascii "g") (some 2)] 2 = none := by
  refine ⟨?_, by rfl⟩
  have hruns : ((runs step initTable sameHome).bind fun t =>
      (growHash t.tab t.size).bind fun grown =>
        (lookup (ascii "q") grown (2 * t.size)).map fun found => found.2.isLive) =
          some false := by
    decide +kernel
  obtain ⟨t, ht, hruns⟩ := Option.bind_eq_some_iff.mp hruns
  obtain ⟨grown, hgrown, hruns⟩ := Option.bind_eq_some_iff.mp hruns
  obtain ⟨⟨p, slot⟩, hlookup, hdead⟩ := Option.map_eq_some_iff.mp hruns
  have hstored : sameHome.foldl Op.apply (fun _ => none) (ascii "q") = some (some 2) := by decide
  obtain ⟨q, hq⟩ := ((refines_of_runs ht).stores.holds _ _).mp hstored
  refine ⟨t, ht, ?_⟩
  intro hright
  obtain ⟨grown', hgrown', hsame⟩ := hright.grown
  obtain rfl := Option.some.inj (hgrown.symm.trans hgrown')
  obtain ⟨p', hfound⟩ := hsame.found _ _ (List.mem_of_getElem? (cells_eq_live_iff.mp hq))
  rw [hlookup] at hfound
  cases hfound
  cases hdead

/-- Two names whose homes in four slots are the slots 1 and 0. -/
def apartTable : Table ℕ where
  tab := [.live (ascii "c") (some 1), .live (ascii "e") (some 2)]
  size := 2
  cap := 0

theorem apart_names_grow_right : GrowsRight apartTable := by
  have hpos : 0 < apartTable.size := by decide
  have hhomes : home 4 (ascii "c") ≠ home 4 (ascii "e") := by decide
  have hapart : Apart (2 * apartTable.size) apartTable.tab := by
    refine List.pairwise_pair.mpr ?_
    intro name value name' value' hname hname'
    cases hname
    cases hname'
    exact hhomes
  exact (growsRight_of_apart hpos rfl).1 ⟨hapart, by decide⟩

end Hash
end Newsbaoter
