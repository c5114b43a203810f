import Newsbaoter.Cache.Marks

/-!
# The columns that an upsert writes

The other statements change `Viewed` and `Current` alone.  So what an upsert makes
sure of in its row, and what does not depend on these two, is so in every row of
every run.
-/

open Newsbaoter.Support

namespace Newsbaoter
namespace Cache

def AllEntries (P : Entry → Prop) (db : Db) : Prop :=
  ∀ e ∈ db.entry.rows, P e

/-- What every upsert of a refresh makes sure of, and no other statement undoes. -/
structure Carried (P : Entry → Prop) : Prop where
  viewed : ∀ (e : Entry) viewed, P e → P { e with viewed := viewed }
  current : ∀ (e : Entry) current, P e → P { e with current := current }
  upsert : ∀ db feedid time tp uid children, P (entryRow db feedid (entryData time tp uid children))

theorem allEntries_updateWhere
    {P : Entry → Prop} {db : Db} (h : AllEntries P db) {p : Entry → Bool} {f : Entry → Entry}
    (hkey : ∀ e, (f e).entryID = e.entryID) (hf : ∀ e, P e → P (f e)) :
    AllEntries P { db with entry := db.entry.updateWhere p f hkey } := by
  intro x hx
  obtain ⟨e, he, rfl⟩ := exists_of_mem_updateWhere hkey hx
  split
  · exact hf e (h e he)
  · exact h e he

namespace Carried

variable {P : Entry → Prop} (hP : Carried P) {db : Db}
include hP

theorem cacheInitCleanup (h : AllEntries P db) (feedid : ℤ) :
    AllEntries P (cacheInitCleanup feedid db) :=
  allEntries_updateWhere h _ fun e he => hP.current e _ he

theorem cacheToggleReadEntry (h : AllEntries P db) (id v : ℤ) :
    AllEntries P (cacheToggleReadEntry id v db) :=
  allEntries_updateWhere h _ fun e he => hP.viewed e _ he

theorem cacheReadFeed (h : AllEntries P db) (feedid : ℤ) :
    AllEntries P (cacheReadFeed feedid db) :=
  allEntries_updateWhere h _ fun e he => hP.viewed e _ he

theorem walk
    (h : AllEntries P db) (feedid : ℤ) {ds : List (EntryField → Option CStr)}
    (hds : ∀ d ∈ ds, ∃ time tp uid children, d = entryData time tp uid children) :
    AllEntries P (walk feedid ds db) := by
  induction ds generalizing db with
  | nil => exact h
  | cons d ds ih =>
      refine ih (fun x hx => ?_) fun d' hd' => hds d' (List.mem_cons_of_mem d hd')
      obtain ⟨time, tp, uid, children, rfl⟩ := hds d List.mem_cons_self
      rcases KeyedTable.mem_insertOrReplace.mp hx with rfl | ⟨hx, -⟩
      · exact hP.upsert db feedid time tp uid children
      · exact h x hx

theorem refresh (config : Config) (h : AllEntries P db) (r : Refresh) :
    AllEntries P (xmlprocUpdateCache config r db).1 := by
  cases hdoc : r.doc with
  | none =>
      rw [xmlprocUpdateCache_of_no_root config hdoc]
      exact h
  | some children =>
      rw [xmlprocUpdateCache_fst config hdoc]
      have hupdated : AllEntries P (updateFeed r.url children db).1 := h
      have hwalked : AllEntries P (beforeDeletion config r children db) := by
        refine hP.walk (hP.cacheInitCleanup hupdated _) _ fun d hd => ?_
        obtain ⟨node, -, rfl⟩ := List.mem_map.mp hd
        exact ⟨_, _, _, _, rfl⟩
      exact fun e he => hwalked e (KeyedTable.mem_deleteWhere.mp he).1

theorem apply (config : Config) (h : AllEntries P db) (op : Op) :
    AllEntries P (op.apply config db) := by
  cases op with
  | refresh r => exact hP.refresh config h r
  | toggleRead id v => exact hP.cacheToggleReadEntry h id v
  | readFeed feedid => exact hP.cacheReadFeed h feedid
  | writeField id => exact hP.cacheToggleReadEntry h id 1

theorem run (config : Config) (ops : List Op) : AllEntries P (run config ops) := by
  induction ops using List.reverseRecOn with
  | nil => simp [AllEntries, emptyDb]
  | append_singleton ops op ih =>
      rw [run_concat]
      exact hP.apply config ih op

end Carried

/-! ## Dates and titles -/

theorem bindDate_fits (text : Option CStr) : -2 ^ 31 ≤ bindDate text ∧ bindDate text < 2 ^ 31 := by
  have hlow : -((2 ^ 32 : ℕ) / 2 : ℤ) ≤ bindDate text := Int.le_bmod (by decide)
  have hhigh : bindDate text < ((2 ^ 32 : ℕ) + 1) / 2 := Int.bmod_lt (by decide)
  omega

theorem carried_pubDate : Carried fun e => -2 ^ 31 ≤ e.pubDate ∧ e.pubDate < 2 ^ 31 where
  viewed _ _ h := h
  current _ _ h := h
  upsert _ _ _ _ _ _ := bindDate_fits _

/-- `entry_line_cb` reads no title that is NULL. -/
theorem carried_title : Carried fun e => e.title.isSome = true where
  viewed _ _ h := h
  current _ _ h := h
  upsert _ _ _ _ _ _ := rfl

end Cache
end Newsbaoter
