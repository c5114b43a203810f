import Newsbaoter.View.RowText
import Newsbaoter.View.Window

/-!
# Rows written again

Printing a row cuts it at its terminator and fills it up with blanks.  A listing
of the feeds writes the first cells of each row, and always the same ones.  So a
row that is written over itself, printed or not, shows the text it has shown.
-/

namespace Newsbaoter
namespace View

open Newsbaoter.Cache (Db)

/-! ## The texts of the rows -/

/-- The text that `print_crop` shows of the row at `a`. -/
def shownText (mem : Cells) (a : ℤ) (width : ℕ) : List TChar :=
  (List.range width).map fun m : ℕ => (printCrop mem a width).1 (a + m)

/-- The row at `a` is as in `page`, or as it is there once it has been printed. -/
def Printed (page mem : Cells) (a : ℤ) (width : ℕ) : Prop :=
  (∀ m < width, mem (a + m) = page (a + m)) ∨
    ∀ m < width, mem (a + m) = (printCrop page a width).1 (a + m)

theorem printCrop_congr
    {mem mem' : Cells} {a : ℤ} {width : ℕ} (h : ∀ m < width, mem' (a + m) = mem (a + m)) {m : ℕ}
    (hm : m < width) :
    (printCrop mem' a width).1 (a + m) = (printCrop mem a width).1 (a + m) := by
  have hcells : (∀ j ≤ m, mem' (a + j) ≠ 0) ↔ ∀ j ≤ m, mem (a + j) ≠ 0 :=
    forall₂_congr fun j hj => by rw [h j (Nat.lt_of_le_of_lt hj hm)]
  rw [printCrop_apply mem' a hm, printCrop_apply mem a hm, h m hm]
  simp only [hcells]

/-- A printed row has no terminator in its cells. -/
theorem printCrop_ne_zero (mem : Cells) (a : ℤ) {width m : ℕ} (hm : m < width) :
    (printCrop mem a width).1 (a + m) ≠ 0 := by
  rw [printCrop_apply mem a hm]
  split
  · next htext => exact htext m (Nat.le_refl m)
  · decide

/-- So printing it again does not change it. -/
theorem printCrop_printCrop (mem : Cells) (a : ℤ) {width m : ℕ} (hm : m < width) :
    (printCrop (printCrop mem a width).1 a width).1 (a + m) =
      (printCrop mem a width).1 (a + m) := by
  rw [printCrop_apply (printCrop mem a width).1 a hm]
  exact if_pos fun j hj => printCrop_ne_zero mem a (Nat.lt_of_le_of_lt hj hm)

theorem Printed.printCrop
    {page mem : Cells} {a : ℤ} {width : ℕ} (h : Printed page mem a width) :
    Printed page (printCrop mem a width).1 a width := by
  right
  intro m hm
  rcases h with hraw | hprinted
  · exact printCrop_congr hraw hm
  · rw [printCrop_congr hprinted hm, printCrop_printCrop page a hm]

theorem Printed.shownText
    {page mem : Cells} {a : ℤ} {width : ℕ} (h : Printed page mem a width) :
    View.shownText mem a width = View.shownText page a width := by
  apply List.map_congr_left
  intro m hm
  have hm := List.mem_range.mp hm
  rcases h with hraw | hprinted
  · exact printCrop_congr hraw hm
  · rw [printCrop_congr hprinted hm, printCrop_printCrop page a hm]

theorem shownText_printCrop (mem : Cells) (width i j : ℕ) :
    shownText (printCrop mem (lineAt width i) width).1 (lineAt width j) width =
      shownText mem (lineAt width j) width := by
  by_cases hij : j = i
  · rw [hij]
    have hraw : Printed mem mem (lineAt width i) width := Or.inl fun m _ => rfl
    exact hraw.printCrop.shownText
  · apply List.map_congr_left
    intro m hm
    exact printCrop_congr (fun m hm => printCrop_other mem hij hm) (List.mem_range.mp hm)

theorem drawRows_before
    {width i n j : ℕ} (t : Cells × ℕ) (hlt : j < i) {m : ℕ} (hm : m < width) :
    (drawRows width i n t).1 (lineAt width j + m) = t.1 (lineAt width j + m) := by
  induction n generalizing i t with
  | zero => rfl
  | succ n ih =>
      rw [drawRows, ih _ (Nat.lt_succ_of_lt hlt)]
      exact printCrop_other t.1 (Nat.ne_of_lt hlt) hm

/-- The loop of `update_view` prints each row. -/
theorem printed_drawRows
    (width : ℕ) {i n j : ℕ} (mem : Cells) (last : ℕ) (hle : i ≤ j) (hlt : j < i + n) :
    Printed mem (drawRows width i n (mem, last)).1 (lineAt width j) width := by
  right
  intro m hm
  induction n generalizing i mem last with
  | zero => omega
  | succ n ih =>
      rw [drawRows]
      by_cases hij : j = i
      · rw [hij]
        exact drawRows_before _ (Nat.lt_succ_self i) hm
      · rw [ih _ _ (by omega) (by omega)]
        exact printCrop_congr (fun m hm => printCrop_other mem hij hm) hm

/-! ## Writing the same again -/

/-- `f` writes first cells of each row, the same whatever there was. -/
def Overwrites (width : ℕ) (f : Lines → Lines) : Prop :=
  ∀ i : ℕ, ∃ (n : ℕ) (v : ℕ → TChar), ∀ t, ∀ m < width,
    (f t).body (lineAt width i + m) = if m < n then v m else t.body (lineAt width i + m)

theorem overwrites_of_body_eq
    {width : ℕ} {f : Lines → Lines} (hf : ∀ t, (f t).body = t.body) : Overwrites width f := by
  intro i
  refine ⟨0, fun _ => 0, ?_⟩
  intro t m _
  rw [hf, if_neg (Nat.not_lt_zero m)]

theorem Overwrites.comp
    {width : ℕ} {f g : Lines → Lines} (hg : Overwrites width g) (hf : Overwrites width f) :
    Overwrites width fun t => g (f t) := by
  intro i
  obtain ⟨n, v, hf⟩ := hf i
  obtain ⟨n', v', hg⟩ := hg i
  refine ⟨max n n', fun m => if m < n' then v' m else v m, ?_⟩
  intro t m hm
  dsimp only
  rw [hg (f t) m hm, hf t m hm]
  by_cases hlast : m < n'
  · rw [if_pos hlast, if_pos (by omega), if_pos hlast]
  · rw [if_neg hlast, if_neg hlast]
    by_cases hfirst : m < n
    · rw [if_pos hfirst, if_pos (by omega)]
    · rw [if_neg hfirst, if_neg (by omega)]

/-- What is stored from the begin of a row on, however long it is. -/
theorem overwrites_store
    {width ind : ℕ} {cs : List TChar} {f : Lines → Lines}
    (hf : ∀ t, (f t).body = store t.body (lineAt width ind) cs) :
    Overwrites width f := by
  intro i
  by_cases hle : ind ≤ i
  · obtain ⟨k, rfl⟩ := Nat.exists_eq_add_of_le hle
    refine ⟨cs.length - k * (width + 1), fun m => cs.getD (k * (width + 1) + m) 0, ?_⟩
    intro t m _
    have hat : lineAt width (ind + k) + m = lineAt width ind + (k * (width + 1) + m : ℕ) := by
      rw [lineAt, lineAt, Int.natCast_add, Int.add_mul, Int.natCast_add, Int.natCast_mul,
        Int.natCast_succ, Int.add_assoc]
    rw [hf, hat, store_add]
    by_cases hcell : k * (width + 1) + m < cs.length
    · rw [if_pos hcell, if_pos (by omega)]
    · rw [if_neg hcell, if_neg (by omega)]
  · refine ⟨0, fun _ => 0, ?_⟩
    intro t m hm
    have hbefore : lineAt width i + m < lineAt width ind :=
      lineAt_add_lt (Nat.lt_of_not_le hle) (Nat.le_of_lt hm)
    rw [hf, store_of_not_mem (Or.inl hbefore), if_neg (Nat.not_lt_zero m)]

theorem overwrites_execRows (loc : Locale) (width ind : ℕ) (rows : List FeedRow) :
    Overwrites width (execRows (feedLineCb loc width) ind rows) := by
  induction rows generalizing ind with
  | nil => exact overwrites_of_body_eq fun _ => rfl
  | cons row rows ih =>
      exact (ih (ind + 1)).comp (overwrites_store fun t => feedLineCb_body loc width ind row t)

theorem overwrites_clearRows (width ind n : ℕ) :
    Overwrites width fun t => { t with body := clearRows width ind n t.body } := by
  induction n generalizing ind with
  | zero => exact overwrites_of_body_eq fun _ => rfl
  | succ n ih =>
      have hfirst : Overwrites width fun t : Lines =>
          { t with body := store t.body (lineAt width ind) [0] } :=
        overwrites_store fun _ => rfl
      exact (ih (ind + 1)).comp hfirst

/-- A listing of the feeds overwrites the rows. -/
theorem overwrites_writeFeedLine
    {config : Config} {len width startInd : ℕ} {db : Db}
    (hrows : feedPage config db startInd len ≠ []) :
    Overwrites width fun t => (writeFeedLine config len width startInd db t).1 := by
  have hwrites : (fun t => (writeFeedLine config len width startInd db t).1) = fun t =>
      let u := execRows (feedLineCb config.locale width) 0 (feedPage config db startInd len) t
      { u with
        body := clearRows width (feedPage config db startInd len).length
          (len - (feedPage config db startInd len).length) u.body } := by
    funext t
    rw [writeFeedLine, writeLines, if_neg (by simpa using hrows)]
  rw [hwrites]
  exact (overwrites_clearRows width _ _).comp
    (overwrites_execRows config.locale width 0 (feedPage config db startInd len))

/-- A row that was overwritten, and printed since or not, shows the same text
when it is overwritten again. -/
theorem Overwrites.shownText
    {width : ℕ} {f : Lines → Lines} (hf : Overwrites width f) {t₀ t : Lines} {i : ℕ}
    (h : Printed (f t₀).body t.body (lineAt width i) width) :
    View.shownText (f t).body (lineAt width i) width =
      View.shownText t.body (lineAt width i) width := by
  obtain ⟨n, v, hf⟩ := hf i
  have hagain : ∀ m < width, (f t).body (lineAt width i + m) =
      if m < n then (f t₀).body (lineAt width i + m) else t.body (lineAt width i + m) := by
    intro m hm
    rw [hf t m hm]
    by_cases hwritten : m < n
    · rw [if_pos hwritten, if_pos hwritten, hf t₀ m hm, if_pos hwritten]
    · rw [if_neg hwritten, if_neg hwritten]
  rcases h with hraw | hprinted
  · apply List.map_congr_left
    intro m hm
    apply printCrop_congr _ (List.mem_range.mp hm)
    intro m hm
    rw [hagain m hm, hraw m hm, ite_self]
  · apply List.map_congr_left
    intro m hm
    have hm := List.mem_range.mp hm
    rw [printCrop_congr hprinted hm, printCrop_printCrop _ _ hm]
    by_cases htext : ∀ j ≤ m, (f t₀).body (lineAt width i + j) ≠ 0
    · -- up to here the text was printed as it is
      have hsame : ∀ j ≤ m, (f t).body (lineAt width i + j) = (f t₀).body (lineAt width i + j) := by
        intro j hj
        have hjm := Nat.lt_of_le_of_lt hj hm
        rw [hagain j hjm, hprinted j hjm, printCrop_apply _ _ hjm,
          if_pos fun k hk => htext k (Nat.le_trans hk hj), ite_self]
      rw [printCrop_apply _ _ hm, printCrop_apply _ _ hm, if_pos htext,
        if_pos fun j hj => by rw [hsame j hj]; exact htext j hj, hsame m (Nat.le_refl m)]
    · have hblank : (printCrop (f t₀).body (lineAt width i) width).1 (lineAt width i + m) = 32 := by
        rw [printCrop_apply _ _ hm, if_neg htext]
      rw [hblank, printCrop_apply _ _ hm]
      split
      · next hnew =>
          -- the old terminator has not been written again
          by_cases hwritten : m < n
          · exfalso
            apply htext
            intro j hj
            have hcell := hnew j hj
            rwa [hagain j (Nat.lt_of_le_of_lt hj hm), if_pos (Nat.lt_of_le_of_lt hj hwritten)]
              at hcell
          · rw [hagain m hm, if_neg hwritten, hprinted m hm, hblank]
      · rfl

end View
end Newsbaoter
