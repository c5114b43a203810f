import Newsbaoter.Core.Text

/-!
# The open-addressing table

The table of `hash.c` that holds the key bindings and the URL tags: probing from
the hash of a name, tombstones, growth by doubling, and the three operations.  A
result `none` means that the code reads or writes outside the array, or probes
forever.
-/

namespace Newsbaoter
namespace Hash

variable {ν : Type*}

/-- A pointer of the array: `NULL`, the address of `deleted`, or a record. -/
inductive Slot (ν : Type*)
  | null
  | deleted
  | live (name : CStr) (value : Option ν)

/-- The array its owner refers to, and the two counters that go with it. -/
structure Table (ν : Type*) where
  tab : List (Slot ν)
  size : ℕ
  cap : ℤ

/-- `INITIAL_LOCTAB_SIZE`. -/
def initialLoctabSize : ℕ := 32

/-- `init_urltag_table` and `init_uikey_table`, each for its own variables. -/
def initTable : Table ν where
  tab := List.replicate initialLoctabSize .null
  size := initialLoctabSize
  cap := 0

/-! ## Hashing -/

/-- A `char` added to a `uint32_t`: the type is signed, so bytes from 128 on
are negative. -/
def charValue (b : UInt8) : UInt32 :=
  if b < 128 then b.toUInt32 else b.toUInt32 - 256

def hashChar (k : UInt32) (b : UInt8) : UInt32 :=
  let k := k + charValue b
  let k := k + (k <<< 10)
  k ^^^ (k >>> 6)

def hashFunc (str : CStr) : UInt32 :=
  let k := str.foldl hashChar 0
  let k := k + (k <<< 3)
  let k := k ^^^ (k >>> 11)
  k + (k <<< 15)

/-- `(i+k)%size`, added as `uint32_t`. -/
def probe (k : UInt32) (size i : ℕ) : ℕ :=
  (i + k.toNat) % 2 ^ 32 % size

/-! ## Growing -/

/-- The loop that looks for a free slot, with `rounds` probes left.  After
`new_size` of them it has seen all it will ever see. -/
def growProbe (k : UInt32) (size : ℕ) (tab : List (Slot ν)) : ℕ → ℕ → Option ℕ
  | 0, _ => none
  | rounds + 1, j =>
      match tab[j]? with
      | none => none
      | some .null => some j
      | some _ => growProbe k size tab rounds (probe k size (j + 1))

/-- The array of twice the size with the records of `temp`. -/
def growHash (temp : List (Slot ν)) (size : ℕ) : Option (List (Slot ν)) :=
  let newSize := 2 * size
  temp.foldlM
    (fun tab slot =>
      match slot with
      | .live name value =>
          let k := hashFunc name
          (growProbe k newSize tab newSize (k.toNat % newSize)).map fun j =>
            tab.set j (.live name value)
      | _ => some tab)
    (List.replicate newSize .null)

/-! ## Finding -/

/-- The loop of `find_hash` from probe `i` on, with `rounds` probes left. -/
def findFrom (n : CStr) (k : UInt32) (tab : List (Slot ν)) (size : ℕ) :
    ℕ → ℕ → ℤ → Option ℤ
  | 0, _, ret => some ret
  | rounds + 1, i, ret =>
      let index := probe k size i
      match tab[index]? with
      | none => none
      | some .deleted =>
          findFrom n k tab size rounds (i + 1) (if ret < 0 then index else ret)
      | some .null => some (if ret < 0 then index else ret)
      | some (.live m _) =>
          if m = n then some index
          else findFrom n k tab size rounds (i + 1) ret

def findHash (n : CStr) (k : UInt32) (tab : List (Slot ν)) (size : ℕ) : Option ℤ :=
  findFrom n k tab size size 0 (-1)

/-- The index `find_hash` returns and the slot there, if it is in the array. -/
def lookup (name : CStr) (tab : List (Slot ν)) (size : ℕ) : Option (ℕ × Slot ν) :=
  (findHash name (hashFunc name) tab size).bind fun index =>
    if index < 0 then none
    else tab[index.toNat]?.map fun slot => (index.toNat, slot)

/-! ## The operations -/

/-- The slot after the first `if` of `set_hash_var`. -/
def Slot.occupied (name : CStr) : Slot ν → Slot ν
  | .live n v => .live n v
  | _ => .live name none

def Slot.isNull : Slot ν → Bool
  | .null => true
  | _ => false

/-- `tab[index]->value=value`. -/
def Slot.withValue (value : Option ν) : Slot ν → Slot ν
  | .live n _ => .live n value
  | s => s

/-- The write through a record of the grown array as the old array shows it:
both share the records, which are told apart by their names. -/
def Slot.shared (name : CStr) (value : Option ν) : Slot ν → Slot ν
  | .live n v => .live n (if n = name then value else v)
  | s => s

/-- The old array after the write to the slot that the search in the grown one has
found; a new record is in the grown array alone. -/
def Slot.writtenBack (value : Option ν) (old : List (Slot ν)) : Slot ν → List (Slot ν)
  | .live n _ => old.map (Slot.shared n value)
  | _ => old

/-- `tab` is a parameter of `set_hash_var`: when `grow_hash` replaces it, the
owner keeps the old array, but its `size` is the new one. -/
def setHashVar (name : CStr) (value : Option ν) (t : Table ν) : Option (Table ν) :=
  let grows : Bool := (t.size / 4 * 3 : ℕ) < t.cap
  let size := if grows then 2 * t.size else t.size
  (if grows then growHash t.tab t.size else some t.tab).bind fun tab =>
    (lookup name tab size).map fun found =>
      let slot := found.2.occupied name
      { tab :=
          if grows then found.2.writtenBack value t.tab
          else tab.set found.1 (slot.withValue value)
        size := size
        cap := if slot.isNull then t.cap + 1 else t.cap }

def unsetHashVar (name : CStr) (t : Table ν) : Option (Table ν) :=
  (lookup name t.tab t.size).map fun found =>
    match found.2 with
    | .live _ _ => { t with tab := t.tab.set found.1 .deleted, cap := t.cap - 1 }
    | _ => t

def getHashVar (name : Option CStr) (t : Table ν) : Option (Option ν) :=
  match name with
  | none => some none
  | some name =>
      (lookup name t.tab t.size).map fun found =>
        match found.2 with
        | .live _ value => value
        | _ => none

inductive Op (ν : Type*)
  | set (name : CStr) (value : Option ν)
  | unset (name : CStr)
  | get (name : Option CStr)

def step (t : Table ν) : Op ν → Option (Table ν)
  | .set name value => setHashVar name value t
  | .unset name => unsetHashVar name t
  | .get name => (getHashVar name t).map fun _ => t

end Hash
end Newsbaoter
