import Newsbaoter.Cache.Integrity

/-!
# Read marks

The program sets `Viewed` to `1`, negates it, or copies it from the row that an
upsert replaces.  So it is `0` or `1` in every row of every run, although the
column takes any integer.
-/

open Newsbaoter.Support

namespace Newsbaoter
namespace Cache

/-- `Viewed` is `0` or `1` in every row. -/
def Marked (db : Db) : Prop :=
  ∀ e ∈ db.entry.rows, e.viewed = 0 ∨ e.viewed = 1

/-- `toggle_read_ipc` is the only caller that toggles, and it passes `-1`. -/
def Issued : Op → Prop
  | .toggleRead _ v => v = -1
  | _ => True

/-! ## The statements -/

theorem marked_updateWhere
    {db : Db} (h : Marked db) {p : Entry → Bool} {f : Entry → Entry}
    (hkey : ∀ e, (f e).entryID = e.entryID)
    (hf : ∀ e ∈ db.entry.rows, (f e).viewed = 0 ∨ (f e).viewed = 1) :
    Marked { db with entry := db.entry.updateWhere p f hkey } := by
  intro x hx
  obtain ⟨e, he, rfl⟩ := exists_of_mem_updateWhere hkey hx
  split
  · exact hf e he
  · exact h e he

theorem marked_cacheInitCleanup {db : Db} (h : Marked db) (feedid : ℤ) :
    Marked (cacheInitCleanup feedid db) :=
  marked_updateWhere h _ h

theorem marked_cacheCleanupOld
    {db : Db} (h : Marked db) (entryRetention now feedid : ℤ) :
    Marked (cacheCleanupOld entryRetention now feedid db) :=
  fun e he => h e (KeyedTable.mem_deleteWhere.mp he).1

/-- The statement is `Viewed=NOT Viewed` or `Viewed=1`. -/
theorem marked_cacheToggleReadEntry
    {db : Db} (h : Marked db) (id : ℤ) {v : ℤ} (hv : v < 0 ∨ v = 1) :
    Marked (cacheToggleReadEntry id v db) := by
  apply marked_updateWhere h
  intro e _
  rcases hv with hneg | rfl
  · by_cases hviewed : e.viewed = 0
    · right
      simp only [if_pos hneg, if_pos hviewed]
    · left
      simp only [if_pos hneg, if_neg hviewed]
  · have hset : ¬(1 : ℤ) < 0 := by decide
    right
    simp only [if_neg hset]

theorem marked_cacheReadFeed {db : Db} (h : Marked db) (feedid : ℤ) :
    Marked (cacheReadFeed feedid db) :=
  marked_updateWhere h _ fun _ _ => Or.inr rfl

/-- An upsert copies the mark of the row that it finds. -/
theorem entryRow_viewed
    (db : Db) (feedid : ℤ) (data : EntryField → Option CStr) :
    (entryRow db feedid data).viewed = 0 ∨
      ∃ e ∈ db.entry.rows, (entryRow db feedid data).viewed = e.viewed := by
  cases hfind : entryOf db feedid (data .uid) with
  | none =>
      left
      simp only [entryRow, hfind, Option.map_none, Option.getD_none]
  | some e =>
      right
      refine ⟨e, List.mem_of_find?_eq_some hfind, ?_⟩
      simp only [entryRow, hfind, Option.map_some, Option.getD_some]

theorem marked_cacheUpdateEntry
    {db : Db} (h : Marked db) (feedid : ℤ) (data : EntryField → Option CStr) :
    Marked (cacheUpdateEntry feedid data db) := by
  intro x hx
  rcases KeyedTable.mem_insertOrReplace.mp hx with rfl | ⟨hx, -⟩
  · rcases entryRow_viewed db feedid data with hzero | ⟨e, he, heq⟩
    · exact Or.inl hzero
    · rw [heq]
      exact h e he
  · exact h x hx

theorem marked_walk
    {db : Db} (h : Marked db) (feedid : ℤ) (ds : List (EntryField → Option CStr)) :
    Marked (walk feedid ds db) := by
  induction ds generalizing db with
  | nil => exact h
  | cons d ds ih => exact ih (marked_cacheUpdateEntry h feedid d)

/-! ## Runs -/

theorem marked_refresh
    (config : Config) {db : Db} (h : Marked db) (r : Refresh) :
    Marked (xmlprocUpdateCache config r db).1 := by
  cases hdoc : r.doc with
  | none =>
      rw [xmlprocUpdateCache_of_no_root config hdoc]
      exact h
  | some children =>
      rw [xmlprocUpdateCache_fst config hdoc]
      have hupdated : Marked (updateFeed r.url children db).1 := h
      exact marked_cacheCleanupOld (marked_walk (marked_cacheInitCleanup hupdated _) _ _) _ _ _

theorem marked_apply
    (config : Config) {db : Db} (h : Marked db) {op : Op} (hop : Issued op) :
    Marked (op.apply config db) := by
  cases op with
  | refresh r => exact marked_refresh config h r
  | toggleRead id v =>
      apply marked_cacheToggleReadEntry h
      left
      rw [show v = -1 from hop]
      decide
  | readFeed feedid => exact marked_cacheReadFeed h feedid
  | writeField id => exact marked_cacheToggleReadEntry h id (Or.inr rfl)

theorem marked_run
    (config : Config) {ops : List Op} (hops : ∀ op ∈ ops, Issued op) :
    Marked (run config ops) := by
  induction ops using List.reverseRecOn with
  | nil => simp [Marked, emptyDb]
  | append_singleton ops op ih =>
      rw [run_concat]
      have hbefore := ih fun op' hop' => hops op' (List.mem_append_left _ hop')
      exact marked_apply config hbefore (hops op (by simp))

end Cache
end Newsbaoter
