import Newsbaoter.Fetch.Attempts

/-!
# What a batch is made of

`load_new_handles` decides in two places whether an item is passed over.  With a
`dl_retries` that is not negative both places agree, and a batch is the head of
the list of all items that are due.
-/

namespace Newsbaoter
namespace Fetch

/-! ## The three arrays -/

/-- `ce[i]`: its `CURLOPT_URL`, and the index of the `xh` that `CURLOPT_WRITEDATA`
points to. -/
structure EasyHandle where
  url : CStr
  writeData : ℕ

/-- The `for` loop of `load_new_handles` from index `i` of the arrays on, as it
fills `ula`, `xh` and `ce`. -/
def loadArrays (dlRetries : ℤ) : Bool → ℕ → ℕ → ℕ → List UrlItem → List (Slot × EasyHandle)
  | _, _, _, _, [] => []
  | _, _, 0, _, _ => []
  | inner, i, room + 1, pos, u :: us =>
      if passOver dlRetries inner u.nHttperr then
        loadArrays dlRetries true i (room + 1) (pos + 1) us
      else
        ({ ula := pos, xh := u.url }, { url := u.url, writeData := i }) ::
          loadArrays dlRetries false (i + 1) room (pos + 1) us

/-- The easy handles stand beside the slots that `loadWalk` fills. -/
theorem loadArrays_slots
    (R : ℤ) (inner : Bool) (i room pos : ℕ) (us : List UrlItem) :
    (loadArrays R inner i room pos us).map Prod.fst = (loadWalk R inner room pos us).2 := by
  induction us generalizing inner i room pos with
  | nil => simp [loadArrays, loadWalk]
  | cons u us ih =>
      cases room with
      | zero => simp [loadArrays, loadWalk]
      | succ room =>
          rw [loadArrays, loadWalk]
          split
          · exact ih true i (room + 1) (pos + 1)
          · rw [List.map_cons, ih false (i + 1) room (pos + 1)]

/-- `ula[j]`, `xh[j]` and `ce[j]` belong to one item. -/
theorem loadArrays_getElem?
    {R : ℤ} {inner : Bool} {i room pos j : ℕ} {us : List UrlItem} {slot : Slot}
    {handle : EasyHandle}
    (h : (loadArrays R inner i room pos us)[j]? = some (slot, handle)) :
    ∃ m u, us[m]? = some u ∧ slot = { ula := pos + m, xh := u.url } ∧
      handle = { url := u.url, writeData := i + j } := by
  induction us generalizing inner i room pos j with
  | nil => simp [loadArrays] at h
  | cons u us ih =>
      cases room with
      | zero => simp [loadArrays] at h
      | succ room =>
          rw [loadArrays] at h
          split at h
          · obtain ⟨m, v, hv, rfl, rfl⟩ := ih h
            exact ⟨m + 1, v, hv, by rw [Nat.add_assoc, Nat.add_comm 1 m], rfl⟩
          · cases j with
            | zero =>
                obtain ⟨rfl, rfl⟩ := Prod.mk.inj (Option.some.inj h)
                exact ⟨0, u, rfl, rfl, rfl⟩
            | succ j =>
                obtain ⟨m, v, hv, rfl, rfl⟩ := ih h
                refine ⟨m + 1, v, hv, by rw [Nat.add_assoc, Nat.add_comm 1 m], ?_⟩
                rw [Nat.add_assoc, Nat.add_comm 1 j]

/-! ## The items that are due -/

/-- Pending, or failed and still to be retried. -/
def Due (dlRetries n : ℤ) : Prop :=
  n < 0 ∨ 0 < n ∧ n < dlRetries

instance (dlRetries n : ℤ) : Decidable (Due dlRetries n) :=
  inferInstanceAs (Decidable (_ ∨ _))

/-- The positions of the items that are due, in list order, where the list
begins at position `pos`. -/
def dueFrom (dlRetries : ℤ) (pos : ℕ) (us : List UrlItem) : List ℕ :=
  ((us.zipIdx pos).filter fun item => Due dlRetries item.1.nHttperr).map Prod.snd

theorem dueFrom_cons (R : ℤ) (pos : ℕ) (u : UrlItem) (us : List UrlItem) :
    dueFrom R pos (u :: us) =
      if Due R u.nHttperr then pos :: dueFrom R (pos + 1) us else dueFrom R (pos + 1) us := by
  rw [dueFrom, List.zipIdx_cons, List.filter_cons]
  by_cases hdue : Due R u.nHttperr
  · rw [if_pos hdue, if_pos (decide_eq_true hdue)]
    rfl
  · rw [if_neg hdue, if_neg (by simpa using hdue)]
    rfl

/-- The two tests agree: the `-1` of a pending item is below every
`dl_retries`. -/
theorem passOver_iff_not_due
    {R n : ℤ} (hR : 0 ≤ R) (inner : Bool) : passOver R inner n = true ↔ ¬Due R n := by
  simp only [passOver, Due, Bool.and_eq_true, Bool.or_eq_true, decide_eq_true_eq]
  cases inner with
  | false =>
      simp only [Bool.false_eq_true, false_or]
      omega
  | true =>
      simp only [true_or, true_and]
      omega

theorem loadWalk_eq_take
    {R : ℤ} (hR : 0 ≤ R) (inner : Bool) (room pos : ℕ) (us : List UrlItem) :
    (loadWalk R inner room pos us).2.map Slot.ula = (dueFrom R pos us).take room := by
  induction us generalizing inner room pos with
  | nil => simp [loadWalk, dueFrom]
  | cons u us ih =>
      cases room with
      | zero => simp [loadWalk]
      | succ room =>
          rw [loadWalk, dueFrom_cons]
          by_cases hdue : Due R u.nHttperr
          · have hload : ¬passOver R inner u.nHttperr = true := by
              rw [passOver_iff_not_due hR, not_not]
              exact hdue
            rw [if_neg hload, if_pos hdue, List.map_cons, List.take_succ_cons, ih]
          · rw [if_pos ((passOver_iff_not_due hR inner).mpr hdue), if_neg hdue]
            exact ih true (room + 1) (pos + 1)

/-! ## One call -/

theorem loadNewHandles_slots (config : Config) (s : State) :
    (loadNewHandles config s).data.slots =
      (loadWalk config.dlRetries false s.data.npara.toNat 0 s.urls).2 := by
  rw [loadNewHandles_eq]
  split
  · next hempty => exact (List.isEmpty_iff.mp hempty).symm
  · rfl

theorem loadNewHandles_urls (config : Config) (s : State) :
    (loadNewHandles config s).urls =
      (loadWalk config.dlRetries false s.data.npara.toNat 0 s.urls).1 := by
  rw [loadNewHandles_eq]
  split
  · rfl
  · rfl

/-- A batch is the first `npara` of the items that are due, in list order, each
in one slot; the pending ones among them become `0`, and no other counter
changes. -/
theorem loadNewHandles_loads
    (config : Config) (s : State) (hR : 0 ≤ config.dlRetries) :
    let t := loadNewHandles config s
    let chosen := (dueFrom config.dlRetries 0 s.urls).take s.data.npara.toNat
    let arrays := loadArrays config.dlRetries false 0 s.data.npara.toNat 0 s.urls
    t.data.slots = arrays.map Prod.fst ∧
      arrays.map (fun a => a.1.ula) = chosen ∧
      chosen.Nodup ∧
      (∀ (i : ℕ) (slot : Slot) (handle : EasyHandle), arrays[i]? = some (slot, handle) →
        ∃ u, s.urls[slot.ula]? = some u ∧ slot.xh = u.url ∧
          handle = { url := u.url, writeData := i }) ∧
      ∀ i : ℕ, t.urls[i]? = s.urls[i]?.map fun u =>
        { u with nHttperr := if i ∈ chosen ∧ u.nHttperr < 0 then 0 else u.nHttperr } := by
  intro t chosen arrays
  have hslots : arrays.map Prod.fst =
      (loadWalk config.dlRetries false s.data.npara.toNat 0 s.urls).2 :=
    loadArrays_slots _ _ _ _ _ _
  have hchosen : (loadWalk config.dlRetries false s.data.npara.toNat 0 s.urls).2.map Slot.ula =
      chosen :=
    loadWalk_eq_take hR false s.data.npara.toNat 0 s.urls
  refine ⟨?_, ?_, ?_, ?_, ?_⟩
  · rw [hslots]
    exact loadNewHandles_slots config s
  · rw [← hchosen, ← hslots, List.map_map]
    rfl
  · rw [← hchosen]
    exact loadWalk_nodup _ _ _ _ _
  · intro i slot handle harrays
    obtain ⟨m, u, hu, rfl, rfl⟩ := loadArrays_getElem? harrays
    refine ⟨u, ?_, rfl, ?_⟩
    · rwa [Nat.zero_add]
    · rw [Nat.zero_add]
  · intro i
    have hget := loadWalk_getElem? config.dlRetries false s.data.npara.toNat 0 s.urls i
    rw [hchosen, Nat.zero_add, ← loadNewHandles_urls config s] at hget
    rw [hget]
    congr 1
    funext u
    by_cases hmem : i ∈ chosen
    · simp only [hmem, if_true, true_and, loaded]
    · simp only [hmem, if_false, false_and]

/-- Two of five items are through, one has failed, and two are pending. -/
def mixedList : State :=
  { httpInit [] Cache.emptyDb with
    urls := [⟨[97], 0⟩, ⟨[98], -1⟩, ⟨[99], 3⟩, ⟨[100], 1⟩, ⟨[101], -1⟩]
    data := ⟨true, 2, [], 0, false⟩ }

theorem loads_pending_and_failed :
    (loadNewHandles ⟨2, 3, plainCache⟩ mixedList).data.slots.map Slot.ula = [1, 3] := by
  obtain ⟨hslots, hchosen, -⟩ := loadNewHandles_loads ⟨2, 3, plainCache⟩ mixedList (by decide)
  rw [hslots, List.map_map]
  exact hchosen.trans (by decide)

end Fetch
end Newsbaoter
