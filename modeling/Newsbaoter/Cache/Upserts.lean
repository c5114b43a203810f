import Newsbaoter.Cache.Contents

/-!
# Upserts in a row

The last record for a key decides its row, but for the read mark, which is that
of the row before the first one.  So a list of upserts may be made twice, with a
countdown in between, and the rows for its keys are those of one time.
-/

namespace Newsbaoter
namespace Cache

variable {κ : Type*}

/-- The read mark of the row for a key, or that of a new row. -/
def Entries.mark (E : Entries κ) (key : Option κ) : ℤ :=
  ((E key).map Body.viewed).getD 0

theorem Body.over_congr (b : Body κ) {E E' : Entries κ} {key : Option κ}
    (h : E.mark key = E'.mark key) : b.over (E key) = b.over (E' key) := by
  rw [Body.over, Body.over]
  exact congrArg (fun v => { b with viewed := v }) h

theorem Entries.mark_countDown (E : Entries κ) (key : Option κ) :
    E.countDown.mark key = E.mark key := by
  rw [Entries.mark, Entries.countDown, Option.map_map]
  rfl

variable [DecidableEq κ]

/-- What the last record with this key says. -/
def written : List (Record κ) → Option κ → Option (Body κ)
  | [], _ => none
  | r :: rs, key => (written rs key).or (if r.1 = key then some r.2 else none)

theorem mem_of_written
    {rs : List (Record κ)} {key : Option κ} {b : Body κ} (h : written rs key = some b) :
    (key, b) ∈ rs := by
  induction rs with
  | nil => cases h
  | cons r rs ih =>
      rw [written, Option.or_eq_some_iff] at h
      rcases h with h | ⟨-, h⟩
      · exact List.mem_cons_of_mem r (ih h)
      · rw [Option.ite_none_right_eq_some] at h
        obtain ⟨rfl, hb⟩ := h
        rw [← Option.some.inj hb]
        exact List.mem_cons_self

theorem written_eq_none_iff {rs : List (Record κ)} {key : Option κ} :
    written rs key = none ↔ ∀ r ∈ rs, r.1 ≠ key := by
  induction rs with
  | nil => simp [written]
  | cons r rs ih => simp [written, ih, and_comm]

theorem Entries.mark_upsert (E : Entries κ) (r : Record κ) (key : Option κ) :
    (E.upsert r).mark key = E.mark key := by
  rw [Entries.mark, Entries.upsert]
  by_cases hkey : key = r.1
  · rw [hkey, Function.update_self]
    rfl
  · rw [Function.update_of_ne hkey]
    rfl

theorem Entries.mark_upserts (E : Entries κ) (rs : List (Record κ)) (key : Option κ) :
    (E.upserts rs).mark key = E.mark key := by
  induction rs generalizing E with
  | nil => rfl
  | cons r rs ih => exact (ih (E.upsert r)).trans (E.mark_upsert r key)

/-- The last record for a key decides its row. -/
theorem Entries.upserts_apply (E : Entries κ) (rs : List (Record κ)) (key : Option κ) :
    E.upserts rs key =
      match written rs key with
      | none => E key
      | some b => some (b.over (E key)) := by
  induction rs generalizing E with
  | nil => rfl
  | cons r rs ih =>
      have hrest : E.upserts (r :: rs) key = (E.upsert r).upserts rs key := rfl
      rw [hrest, ih, written]
      cases written rs key with
      | some b => exact congrArg some (b.over_congr (E.mark_upsert r key))
      | none =>
          rw [Option.none_or, Entries.upsert]
          dsimp only
          by_cases hkey : r.1 = key
          · rw [← hkey, Function.update_self, if_pos rfl]
          · rw [Function.update_of_ne (Ne.symm hkey), if_neg hkey]

/-- Rows for the keys of a list of records come out the same from any two
starts with the same read marks. -/
theorem Entries.upserts_congr
    {E E' : Entries κ} {rs : List (Record κ)} {key : Option κ}
    (hwritten : written rs key ≠ none) (hmark : E.mark key = E'.mark key) :
    E.upserts rs key = E'.upserts rs key := by
  obtain ⟨b, hb⟩ := Option.ne_none_iff_exists'.mp hwritten
  rw [Entries.upserts_apply, Entries.upserts_apply, hb]
  exact congrArg some (b.over_congr hmark)

theorem Entries.upserts_of_not_written
    {E : Entries κ} {rs : List (Record κ)} {key : Option κ} (hwritten : written rs key = none) :
    E.upserts rs key = E key := by
  rw [Entries.upserts_apply, hwritten]

theorem Entries.refreshed_congr
    {E E' : Entries κ} {ed : Edition κ} {key : Option κ} (entryRetention : ℤ)
    (hwritten : written ed.records key ≠ none) (hmark : E.mark key = E'.mark key) :
    E.refreshed entryRetention ed key = E'.refreshed entryRetention ed key := by
  have hmark' : E.countDown.mark key = E'.countDown.mark key := by
    rw [Entries.mark_countDown, Entries.mark_countDown, hmark]
  rw [Entries.refreshed, Entries.expire, Entries.upserts_congr hwritten hmark']
  rfl

theorem Entries.refreshed_of_not_written
    {E : Entries κ} {ed : Edition κ} {key : Option κ} (entryRetention : ℤ)
    (hwritten : written ed.records key = none) :
    E.refreshed entryRetention ed key =
      ((E key).map Body.countedDown).filter fun b => !b.isOld entryRetention ed.now := by
  rw [Entries.refreshed, Entries.expire, Entries.upserts_of_not_written hwritten,
    Entries.countDown]

end Cache
end Newsbaoter
