import Newsbaoter.Cache.Repeat
import Newsbaoter.Core.Hex

/-!
# Documents with many entries

A feed may have any number of entries.  With their numbers for unique ids they
are told apart, and the first refresh stores them all.
-/

namespace Newsbaoter
namespace Cache

/-- A document with `n` entries. -/
def entriesUpTo (n : ℕ) : List XmlNode :=
  (List.range n).map fun i =>
    .elem (ascii "entry") [.elem (ascii "entryUniqueId") [.text (hexText i.toUInt32)]]

def refreshUpTo (n : ℕ) : Refresh where
  url := ascii "http://example/feed"
  doc := some (entriesUpTo n)
  env := ⟨0, fun _ => blankTm, fun _ => []⟩

theorem entryNodes_map_elem (f : ℕ → List XmlNode) (l : List ℕ) :
    entryNodes (l.map fun i => .elem (ascii "entry") (f i)) = l.map f := by
  induction l with
  | nil => rfl
  | cons i l ih => rw [List.map_cons, entryNodes, if_pos rfl, ih, List.map_cons]

theorem uids_records_entriesUpTo (time : TimeLib) (env : RefreshEnv) (n : ℕ) :
    (records time env (entriesUpTo n)).map (fun d => d .uid) =
      (List.range n).map fun i => some (hexText i.toUInt32) := by
  rw [records, entriesUpTo, entryNodes_map_elem, List.zipIdx_map, List.map_map, List.map_map,
    ← List.zipIdx_map_fst 0 (List.range n), List.map_map, List.zipIdx_map_fst]
  rfl

/-- A 32-bit number has a text of its own. -/
theorem nodup_hexTexts {n : ℕ} (hn : n ≤ 2 ^ 32) :
    ((List.range n).map fun i => some (hexText i.toUInt32)).Nodup := by
  refine List.nodup_range.map_on ?_
  intro i hi j hj hij
  have heq := congrArg UInt32.toNat (hexText_injective (Option.some.inj hij))
  rw [List.mem_range] at hi hj
  rw [Nat.toUInt32_eq, Nat.toUInt32_eq, UInt32.toNat_ofNat', UInt32.toNat_ofNat'] at heq
  omega

/-- The first refresh of a feed with up to `2 ^ 32` entries inserts them all. -/
theorem getNumUnread_refreshUpTo
    (config : Config) {n : ℕ} (hn : n ≤ 2 ^ 32) :
    getNumUnread (run config [.refresh (refreshUpTo n)]) = n := by
  have huids := uids_records_entriesUpTo config.time (refreshUpTo n).env n
  have hlength : (records config.time (refreshUpTo n).env (entriesUpTo n)).length = n := by
    have := congrArg List.length huids
    rwa [List.length_map, List.length_map, List.length_range] at this
  have hfirst := getNumUnread_first config (r := refreshUpTo n) (by rfl)
    (by rw [huids]; exact nodup_hexTexts hn)
  rw [hlength] at hfirst
  exact hfirst

end Cache
end Newsbaoter
