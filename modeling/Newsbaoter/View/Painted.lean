import Newsbaoter.View.Listing

/-!
# What the lines of a page look like

A terminal of at least three columns shows a digit of the line number in the
first three cells of each row that a callback wrote, and nothing a callback
writes later reaches those cells again.  So the rows of a page are written and
the rows behind them are blank.
-/

namespace Newsbaoter
namespace View


/-! ## One text -/

theorem charsToWidechars_of_lt_one
    {loc : Locale} {mem : Cells} {dst max : ℤ} {src : CStr} (hmax : max < 1) :
    charsToWidechars loc mem dst src max = (mem, 0) :=
  if_pos hmax

theorem charsToWidechars_of_lt
    {loc : Locale} {mem : Cells} {dst max p : ℤ} {src : CStr} (hp : p < dst) :
    (charsToWidechars loc mem dst src max).1 p = mem p := by
  unfold charsToWidechars
  split
  · rfl
  · dsimp only
    split
    · exact store_of_not_mem (Or.inl hp)
    · split
      · exact store_of_not_mem (Or.inl hp)
      · exact store_of_not_mem (Or.inl hp)

theorem neg_one_le_charsToWidechars
    {loc : Locale} {mem : Cells} {dst max : ℤ} {src : CStr} :
    -1 ≤ (charsToWidechars loc mem dst src max).2 := by
  unfold charsToWidechars
  split
  · exact (by decide : (-1 : ℤ) ≤ 0)
  · dsimp only
    split
    · dsimp only
      omega
    · split
      · dsimp only
        omega
      · exact Int.le_refl _

/-- An ASCII text arrives as it is, up to the room there is. -/
theorem charsToWidechars_ascii
    {loc : Locale} {mem : Cells} {dst : ℤ} {src : CStr} {max : ℕ}
    (hascii : ∀ b ∈ src, b < 128) (hmax : 0 < max) :
    charsToWidechars loc mem dst src max =
      (store mem dst ((src.map UInt8.toNat ++ [0]).take max),
        ((min max src.length : ℕ) : ℤ)) := by
  have hroom : ¬(max : ℤ) < 1 := by omega
  rw [charsToWidechars, if_neg hroom, loc.decode_ascii src hascii]
  simp only [List.length_map, Int.toNat_natCast, if_true]
  split
  · next hfull =>
      rw [List.take_append_of_le_length (by rw [List.length_map]; omega),
        Nat.min_eq_left (by omega)]
  · next hfits =>
      rw [List.take_of_length_le (by rw [List.length_append, List.length_map]; simp; omega),
        Nat.min_eq_right (by omega)]

theorem charsToWidechars_ascii_apply
    {loc : Locale} {mem : Cells} {dst : ℤ} {src : CStr} {max m : ℕ}
    (hascii : ∀ b ∈ src, b < 128) (hlt : m < max) (hm : m < src.length) :
    (charsToWidechars loc mem dst src max).1 (dst + m) = src[m].toNat := by
  rw [charsToWidechars_ascii hascii (Nat.zero_lt_of_lt hlt)]
  have hlength : m < ((src.map UInt8.toNat ++ [0]).take max).length := by
    rw [List.length_take, List.length_append, List.length_map]
    omega
  have hindex : (dst + m - dst).toNat = m := by omega
  dsimp only
  rw [store_of_mem (by omega) (by omega), hindex, List.getD_eq_getElem?_getD,
    List.getElem?_take_of_lt hlt,
    List.getElem?_append_left (by rw [List.length_map]; exact hm)]
  simp [hm]

/-! ## The texts behind the line number -/

/-- The offset stays at 3 or more through `n` further texts: a text moves it
back by one at most, and not at all once the line is full. -/
def Guarded (len n : ℕ) (off : ℤ) : Prop :=
  3 ≤ off ∧ (len ≤ off ∨ 3 + n ≤ off)

theorem putText_keeps
    (loc : Locale) {line : ℤ} {len n : ℕ} (s : CStr) {t : Cells × ℤ}
    (h : Guarded len n t.2) :
    ∀ p < line + 3, (putText loc line len s t).1 p = t.1 p := by
  intro p hp
  have hoff := h.1
  exact charsToWidechars_of_lt (by omega)

theorem putText_guarded
    (loc : Locale) (line : ℤ) {len n : ℕ} (s : CStr) {t : Cells × ℤ}
    (h : Guarded len (n + 1) t.2) :
    Guarded len n (putText loc line len s t).2 := by
  obtain ⟨hoff, hfull | hroom⟩ := h
  · rw [putText, charsToWidechars_of_lt_one (by omega)]
    exact ⟨by omega, Or.inl (by omega)⟩
  · have hback : -1 ≤ (charsToWidechars loc t.1 (line + t.2) s (len - t.2)).2 :=
      neg_one_le_charsToWidechars
    rw [putText]
    exact ⟨by omega, Or.inr (by omega)⟩

theorem putText_guarded_ascii
    (loc : Locale) (line : ℤ) {len n : ℕ} {s : CStr} (hascii : ∀ b ∈ s, b < 128)
    {t : Cells × ℤ} (h : Guarded len n t.2) :
    Guarded len n (putText loc line len s t).2 := by
  have hforth : 0 ≤ (charsToWidechars loc t.1 (line + t.2) s (len - t.2)).2 := by
    by_cases hmax : len - t.2 < 1
    · rw [charsToWidechars_of_lt_one hmax]
    · obtain ⟨max, hmaxeq⟩ := Int.eq_ofNat_of_zero_le (a := len - t.2) (by omega)
      rw [hmaxeq, charsToWidechars_ascii hascii (by omega)]
      exact Int.natCast_nonneg _
  obtain ⟨hoff, hroom⟩ := h
  rw [putText]
  exact ⟨by omega, by omega⟩

/-! ## The line number -/

theorem digits_of_mem_decimal {n : ℕ} {b : UInt8} (hb : b ∈ decimal n) : 48 ≤ b ∧ b < 58 := by
  obtain ⟨c, hc, rfl⟩ := List.mem_map.mp hb
  have hdigit : c.isDigit = true :=
    Nat.isDigit_of_mem_toDigits (by decide) (by decide) hc
  simp only [Char.isDigit, Bool.and_eq_true, decide_eq_true_eq] at hdigit
  have hlow : 48 ≤ c.toNat := UInt32.le_iff_toNat_le.mp hdigit.1
  have hhigh : c.toNat ≤ 57 := UInt32.le_iff_toNat_le.mp hdigit.2
  have hsmall : c.toNat.toUInt8.toNat = c.toNat := by
    rw [Nat.toUInt8_eq, UInt8.toNat_ofNat']
    omega
  rw [UInt8.le_iff_toNat_le, UInt8.lt_iff_toNat_lt, hsmall]
  exact ⟨hlow, Nat.lt_succ_of_le hhigh⟩

theorem length_decimal_pos (n : ℕ) : 0 < (decimal n).length := by
  rw [decimal, List.length_map]
  exact Nat.length_toDigits_pos

theorem lt_of_all_ascii
    {s : CStr} (h : s.all (fun b => decide (b < 128)) = true) : ∀ b ∈ s, b < 128 := by
  intro b hb
  exact of_decide_eq_true (List.all_eq_true.mp h b hb)

theorem ascii_indexText (ind : ℕ) : ∀ b ∈ indexText ind, b < 128 := by
  intro b hb
  have hmem := List.mem_of_mem_take hb
  rw [List.mem_append, List.mem_append] at hmem
  rcases hmem with (hpad | hdigit) | hgap
  · rw [List.eq_of_mem_replicate hpad]
    decide
  · exact UInt8.lt_of_lt_of_le (digits_of_mem_decimal hdigit).2 (by decide)
  · exact lt_of_all_ascii (by decide) b hgap

theorem five_le_length_indexText (ind : ℕ) : 5 ≤ (indexText ind).length := by
  have hpos := length_decimal_pos (ind + 1)
  have hgap : (ascii "  ").length = 2 := by decide
  simp only [indexText, snprintf, List.length_take, List.length_append,
    List.length_replicate, hgap]
  omega

/-- Blanks and then a digit, within the first three characters. -/
theorem indexText_shows (ind : ℕ) :
    ∃ j, ∃ hj : j < (indexText ind).length, j < 3 ∧
      (∀ m (hm : m < j), (indexText ind)[m] = 32) ∧ 48 ≤ (indexText ind)[j] := by
  have hpos := length_decimal_pos (ind + 1)
  have hlength := five_le_length_indexText ind
  refine ⟨3 - (decimal (ind + 1)).length, by omega, by omega, ?_, ?_⟩
  · intro m hm
    simp only [indexText, snprintf, List.getElem_take]
    rw [List.getElem_append_left, List.getElem_append_left, List.getElem_replicate]
    · rw [List.length_replicate]
      exact hm
    · rw [List.length_append, List.length_replicate]
      omega
  · simp only [indexText, snprintf, List.getElem_take]
    rw [List.getElem_append_left, List.getElem_append_right]
    · exact (digits_of_mem_decimal (List.getElem_mem _)).1
    · rw [List.length_replicate]
    · rw [List.length_append, List.length_replicate]
      omega

theorem putText_indexText
    (loc : Locale) (line : ℤ) {len : ℕ} (ind : ℕ) (mem : Cells) (hlen : 3 ≤ len) :
    (∀ p < line, (putText loc line len (indexText ind) (mem, 0)).1 p = mem p) ∧
      Written (putText loc line len (indexText ind) (mem, 0)).1 line 3 ∧
      Guarded len 2 (putText loc line len (indexText ind) (mem, 0)).2 := by
  have hput : putText loc line len (indexText ind) (mem, 0) =
      charsToWidechars loc mem line (indexText ind) len := by
    simp only [putText, Int.add_zero, Int.sub_zero, Int.zero_add]
  have hascii := ascii_indexText ind
  rw [hput]
  refine ⟨fun p hp => charsToWidechars_of_lt hp, ?_, ?_⟩
  · obtain ⟨j, hj, hj3, hblanks, hdigit⟩ := indexText_shows ind
    have hcell : ∀ m (hm : m < (indexText ind).length), m < 3 →
        (charsToWidechars loc mem line (indexText ind) len).1 (line + m) =
          (indexText ind)[m].toNat := by
      intro m hm hm3
      exact charsToWidechars_ascii_apply hascii (Nat.lt_of_lt_of_le hm3 hlen) hm
    have hge : 48 ≤ (indexText ind)[j].toNat := UInt8.le_iff_toNat_le.mp hdigit
    refine ⟨j, hj3, ?_, ?_, ?_⟩
    · intro m hm
      rw [hcell m (by omega) (by omega), hblanks m hm]
      rfl
    · rw [hcell j hj hj3]
      exact Nat.ne_of_gt (Nat.lt_of_lt_of_le (by decide) hge)
    · rw [hcell j hj hj3]
      exact Nat.ne_of_gt (Nat.lt_of_lt_of_le (by decide) hge)
  · have hlength := five_le_length_indexText ind
    rw [charsToWidechars_ascii hascii (by omega)]
    exact ⟨by omega, by omega⟩

/-! ## The callbacks -/

theorem Written.mono
    {mem : Cells} {a : ℤ} {v w : ℕ} (h : Written mem a v) (hle : v ≤ w) : Written mem a w := by
  obtain ⟨j, hj, hrest⟩ := h
  exact ⟨j, Nat.lt_of_lt_of_le hj hle, hrest⟩

theorem Written.congr
    {mem mem' : Cells} {a : ℤ} {w : ℕ} (h : Written mem a w)
    (hsame : ∀ m < w, mem' (a + m) = mem (a + m)) :
    Written mem' a w := by
  obtain ⟨j, hj, hblanks, hblank, hzero⟩ := h
  refine ⟨j, hj, ?_, ?_, ?_⟩
  · intro m hm
    rw [hsame m (Nat.lt_trans hm hj)]
    exact hblanks m hm
  · rwa [hsame j hj]
  · rwa [hsame j hj]

/-- What a callback stores in `lv`. -/
def StoresItem {ρ : Type*} (cb : ℕ → ρ → Lines → Lines) (item : ρ → Listview) : Prop :=
  ∀ ind row t, (cb ind row t).lv = Function.update t.lv ind (item row)

/-- What a callback for lines of this width does with its row. -/
structure WritesRow {ρ : Type*} (width : ℕ) (cb : ℕ → ρ → Lines → Lines)
    (item : ρ → Listview) : Prop where
  lv : ∀ ind row t, (cb ind row t).lv = Function.update t.lv ind (item row)
  before : ∀ ind row t, ∀ p < lineAt width ind, (cb ind row t).body p = t.body p
  written : ∀ ind row t, Written (cb ind row t).body (lineAt width ind) 3

/-- The texts behind the line number leave the row written. -/
theorem writes_of_keeps
    (loc : Locale) {line : ℤ} {len : ℕ} (ind : ℕ) (mem : Cells) (hlen : 3 ≤ len) {mem' : Cells}
    (hkeep : ∀ p < line + 3,
      mem' p = (putText loc line len (indexText ind) (mem, 0)).1 p) :
    (∀ p < line, mem' p = mem p) ∧ Written mem' line 3 := by
  obtain ⟨hbefore, hwritten, -⟩ := putText_indexText loc line ind mem hlen
  refine ⟨?_, ?_⟩
  · intro p hp
    rw [hkeep p (by omega), hbefore p hp]
  · apply hwritten.congr
    intro m hm
    exact hkeep _ (by omega)

theorem ascii_flag (p : Prop) [Decidable p] : ∀ b ∈ ascii (if p then "N" else " "), b < 128 := by
  split
  · exact lt_of_all_ascii (by decide)
  · exact lt_of_all_ascii (by decide)

theorem storesItem_feedLineCb (loc : Locale) (width : ℕ) :
    StoresItem (feedLineCb loc width) FeedRow.item :=
  fun _ _ _ => rfl

theorem storesItem_entryLineCb (loc : Locale) (width : ℕ) :
    StoresItem (entryLineCb loc width) EntryRow.item :=
  fun _ _ _ => rfl

theorem writesRow_feedLineCb
    (loc : Locale) {width : ℕ} (hwidth : 3 ≤ width) :
    WritesRow width (feedLineCb loc width) FeedRow.item := by
  have hkeep : ∀ ind row (t : Lines), ∀ p < lineAt width ind + 3,
      (feedLineCb loc width ind row t).body p =
        (putText loc (lineAt width ind) width (indexText ind) (t.body, 0)).1 p := by
    intro ind row t p hp
    obtain ⟨-, -, hindex⟩ := putText_indexText loc (lineAt width ind) ind t.body hwidth
    have hflag := putText_guarded_ascii loc (lineAt width ind)
      (ascii_flag (row.viewed < row.count)) hindex
    have hcount := putText_guarded loc (lineAt width ind) (countText row) hflag
    have hoff := hcount.1
    rw [feedLineCb]
    dsimp only
    rw [charsToWidechars_of_lt (by omega), putText_keeps loc _ hflag p hp,
      putText_keeps loc _ hindex p hp]
  exact
    { lv := storesItem_feedLineCb loc width
      before := fun ind row t => (writes_of_keeps loc ind t.body hwidth (hkeep ind row t)).1
      written := fun ind row t => (writes_of_keeps loc ind t.body hwidth (hkeep ind row t)).2 }

theorem writesRow_entryLineCb
    (loc : Locale) {width : ℕ} (hwidth : 3 ≤ width) :
    WritesRow width (entryLineCb loc width) EntryRow.item := by
  have hkeep : ∀ ind row (t : Lines), ∀ p < lineAt width ind + 3,
      (entryLineCb loc width ind row t).body p =
        (putText loc (lineAt width ind) width (indexText ind) (t.body, 0)).1 p := by
    intro ind row t p hp
    obtain ⟨-, -, hindex⟩ := putText_indexText loc (lineAt width ind) ind t.body hwidth
    have hflag := putText_guarded_ascii loc (lineAt width ind)
      (ascii_flag (row.viewed = 0)) hindex
    have hdate := putText_guarded loc (lineAt width ind)
      (loc.dayMonth row.pubDate) hflag
    rw [entryLineCb]
    dsimp only
    cases row.feedTitle with
    | none =>
        dsimp only
        rw [putText_keeps loc _ hdate p hp, putText_keeps loc _ hflag p hp,
          putText_keeps loc _ hindex p hp]
    | some title =>
        have hfeed := putText_guarded loc (lineAt width ind) (feedTitleText title) hdate
        dsimp only
        rw [putText_keeps loc _ hfeed p hp, putText_keeps loc _ hdate p hp,
          putText_keeps loc _ hflag p hp, putText_keeps loc _ hindex p hp]
  exact
    { lv := storesItem_entryLineCb loc width
      before := fun ind row t => (writes_of_keeps loc ind t.body hwidth (hkeep ind row t)).1
      written := fun ind row t => (writes_of_keeps loc ind t.body hwidth (hkeep ind row t)).2 }

/-! ## The rows of a page -/

theorem lineAt_succ (width ind : ℕ) : lineAt width (ind + 1) = lineAt width ind + width + 1 := by
  rw [lineAt, lineAt, Int.natCast_succ, Int.add_mul, Int.one_mul, Int.add_assoc]

/-- A row ends before the next one begins. -/
theorem lineAt_add_lt
    {width i ind m : ℕ} (hlt : i < ind) (hm : m ≤ width) :
    lineAt width i + m < lineAt width ind := by
  induction ind with
  | zero => omega
  | succ ind ih =>
      rw [lineAt_succ]
      rcases Nat.lt_succ_iff_lt_or_eq.mp hlt with hlt | rfl
      · have := ih hlt
        omega
      · omega

/-- Printing one row leaves the cells of the others. -/
theorem printCrop_other
    (mem : Cells) {width i j : ℕ} (hij : j ≠ i) {m : ℕ} (hm : m < width) :
    (printCrop mem (lineAt width i) width).1 (lineAt width j + m) = mem (lineAt width j + m) := by
  apply printCrop_of_not_mem
  rcases Nat.lt_or_gt_of_ne hij with hlt | hgt
  · exact Or.inl (lineAt_add_lt hlt (Nat.le_of_lt hm))
  · have hend : lineAt width i + width < lineAt width j := lineAt_add_lt hgt (Nat.le_refl width)
    exact Or.inr (by omega)

theorem execRows_lv_of_lt
    {ρ : Type*} {cb : ℕ → ρ → Lines → Lines} {item : ρ → Listview} (hcb : StoresItem cb item)
    (rows : List ρ) {ind i : ℕ} (t : Lines) (hlt : i < ind) :
    (execRows cb ind rows t).lv i = t.lv i := by
  induction rows generalizing ind t with
  | nil => rfl
  | cons row rows ih =>
      rw [execRows, ih _ (Nat.lt_succ_of_lt hlt), hcb]
      exact Function.update_of_ne (Nat.ne_of_lt hlt) _ _

theorem execRows_lv
    {ρ : Type*} {cb : ℕ → ρ → Lines → Lines} {item : ρ → Listview} (hcb : StoresItem cb item)
    {rows : List ρ} (ind : ℕ) (t : Lines) {i : ℕ} (hi : i < rows.length) :
    (execRows cb ind rows t).lv (ind + i) = item rows[i] := by
  induction rows generalizing ind t i with
  | nil => exact absurd hi (Nat.not_lt_zero i)
  | cons row rows ih =>
      rw [execRows]
      cases i with
      | zero =>
          have hrow := execRows_lv_of_lt hcb rows (cb ind row t) (Nat.lt_add_one ind)
          rw [hcb, Function.update_self] at hrow
          exact hrow
      | succ i =>
          have hrest := ih (ind + 1) (cb ind row t) (Nat.lt_of_succ_lt_succ hi)
          rw [Nat.add_right_comm] at hrest
          exact hrest

theorem execRows_before
    {ρ : Type*} {width : ℕ} {cb : ℕ → ρ → Lines → Lines} {item : ρ → Listview}
    (hcb : WritesRow width cb item) {rows : List ρ} (ind : ℕ) (t : Lines)
    {p : ℤ} (hp : p < lineAt width ind) :
    (execRows cb ind rows t).body p = t.body p := by
  induction rows generalizing ind t with
  | nil => rfl
  | cons row rows ih =>
      have hlater : p < lineAt width (ind + 1) := by
        rw [lineAt_succ]
        omega
      rw [execRows, ih _ _ hlater, hcb.before ind row t p hp]

/-- A row of the page is as its callback left it. -/
theorem exists_execRows_row
    {ρ : Type*} {width : ℕ} {cb : ℕ → ρ → Lines → Lines} {item : ρ → Listview}
    (hcb : WritesRow width cb item) {rows : List ρ} (ind : ℕ) (t : Lines)
    {i : ℕ} (hi : i < rows.length) :
    ∃ u, ∀ m ≤ width, (execRows cb ind rows t).body (lineAt width (ind + i) + m) =
      (cb (ind + i) rows[i] u).body (lineAt width (ind + i) + m) := by
  induction rows generalizing ind t i with
  | nil => exact absurd hi (Nat.not_lt_zero i)
  | cons row rows ih =>
      rw [execRows]
      cases i with
      | zero =>
          refine ⟨t, fun m hm => ?_⟩
          apply execRows_before hcb
          exact lineAt_add_lt (Nat.lt_succ_self ind) hm
      | succ i =>
          have hrest := ih (ind + 1) (cb ind row t) (Nat.lt_of_succ_lt_succ hi)
          rw [Nat.add_right_comm] at hrest
          exact hrest

theorem clearRows_before
    {width : ℕ} {ind : ℕ} (n : ℕ) (mem : Cells) {p : ℤ} (hp : p < lineAt width ind) :
    clearRows width ind n mem p = mem p := by
  induction n generalizing ind mem with
  | zero => rfl
  | succ n ih =>
      have hlater : p < lineAt width (ind + 1) := by
        rw [lineAt_succ]
        omega
      rw [clearRows, ih _ hlater]
      exact store_of_not_mem (Or.inl hp)

theorem clearRows_apply
    {width n : ℕ} (ind : ℕ) (mem : Cells) {i : ℕ} (hi : i < n) :
    clearRows width ind n mem (lineAt width (ind + i)) = 0 := by
  induction n generalizing ind mem i with
  | zero => exact absurd hi (Nat.not_lt_zero i)
  | succ n ih =>
      rw [clearRows]
      cases i with
      | zero =>
          have hnext : lineAt width ind + (0 : ℕ) < lineAt width (ind + 1) :=
            lineAt_add_lt (Nat.lt_add_one ind) (Nat.zero_le _)
          rw [Int.natCast_zero, Int.add_zero] at hnext
          have hcell := clearRows_before n (store mem (lineAt width ind) [0]) hnext
          rw [store_of_mem (Int.le_refl _) (by rw [List.length_singleton]; omega),
            Int.sub_self] at hcell
          exact hcell
      | succ i =>
          have hrest := ih (ind + 1) (store mem (lineAt width ind) [0])
            (Nat.lt_of_succ_lt_succ hi)
          rw [Nat.add_right_comm] at hrest
          exact hrest

/-- The rows behind the page are emptied without touching its own. -/
theorem exists_writeLines_row
    {ρ : Type*} {width : ℕ} {cb : ℕ → ρ → Lines → Lines} {item : ρ → Listview}
    (hcb : WritesRow width cb item) {rows : List ρ} (len : ℕ) (t : Lines)
    {i : ℕ} (hi : i < rows.length) :
    ∃ u, ∀ m ≤ width, (writeLines cb len width rows t).1.body (lineAt width i + m) =
      (cb i rows[i] u).body (lineAt width i + m) := by
  have hrows : rows ≠ [] := List.ne_nil_of_length_pos (Nat.zero_lt_of_lt hi)
  obtain ⟨u, hrow⟩ := exists_execRows_row hcb 0 t hi
  rw [Nat.zero_add] at hrow
  refine ⟨u, fun m hm => ?_⟩
  rw [writeLines, if_neg (by simpa using hrows), ← hrow m hm]
  exact clearRows_before _ _ (lineAt_add_lt hi hm)

/-- The first `k` of the rows are written and the others are blank. -/
structure Painted (mem : Cells) (width bodyLen k : ℕ) : Prop where
  written : ∀ i < bodyLen, i < k → Written mem (lineAt width i) width
  blank : ∀ i < bodyLen, k ≤ i → Blank mem (lineAt width i) width

theorem painted_writeLines
    {ρ : Type*} {width : ℕ} {cb : ℕ → ρ → Lines → Lines} {item : ρ → Listview}
    (hcb : WritesRow width cb item) (hwidth : 3 ≤ width) {rows : List ρ} (hrows : rows ≠ [])
    (len : ℕ) (t : Lines) :
    Painted (writeLines cb len width rows t).1.body width len rows.length := by
  constructor
  · intro i _ hi
    obtain ⟨u, hrow⟩ := exists_writeLines_row hcb len t hi
    apply Written.mono _ hwidth
    apply (hcb.written i rows[i] u).congr
    intro m hm
    exact hrow m (by omega)
  · intro i hi hge
    rw [writeLines, if_neg (by simpa using hrows)]
    have hzero : clearRows width rows.length (len - rows.length) (execRows cb 0 rows t).body
        (lineAt width (rows.length + (i - rows.length))) = 0 :=
      clearRows_apply rows.length _ (by omega)
    rw [Nat.add_sub_of_le hge] at hzero
    exact Or.inl hzero

theorem writeLines_lv
    {ρ : Type*} {cb : ℕ → ρ → Lines → Lines} {item : ρ → Listview} (hcb : StoresItem cb item)
    {rows : List ρ} (hrows : rows ≠ []) (len width : ℕ) (t : Lines) {i : ℕ}
    (hi : i < rows.length) :
    (writeLines cb len width rows t).1.lv i = item rows[i] := by
  rw [writeLines, if_neg (by simpa using hrows)]
  have hlv := execRows_lv hcb 0 t hi
  rw [Nat.zero_add] at hlv
  exact hlv

/-! ## `cache_gen_lines` -/

theorem cacheGenLines_of_nil
    {config : Config} {mw : MainWindow}
    (h : listing config mw.db mw.ctxType mw.ctxId mw.page mw.bodyLen = []) :
    cacheGenLines config mw = (mw, true) := by
  obtain ⟨lines, bodyLen, width, page, ctxType, ctxId, db⟩ := mw
  cases ctxType with
  | feeds =>
      rw [listing, List.map_eq_nil_iff] at h
      simp [cacheGenLines, writeFeedLine, writeLines, h]
  | entries =>
      rw [listing, List.map_eq_nil_iff] at h
      simp [cacheGenLines, writeEntryLine, writeLines, h]

/-- With rows, a page is painted as it is listed. -/
theorem cacheGenLines_of_ne_nil
    {config : Config} {mw : MainWindow} (hwidth : 3 ≤ mw.width)
    (h : listing config mw.db mw.ctxType mw.ctxId mw.page mw.bodyLen ≠ []) :
    let rows := listing config mw.db mw.ctxType mw.ctxId mw.page mw.bodyLen
    (cacheGenLines config mw).2 = false ∧
      Painted (cacheGenLines config mw).1.body mw.width mw.bodyLen rows.length ∧
      ∀ i (hi : i < rows.length), (cacheGenLines config mw).1.lv i = rows[i] := by
  intro rows
  have hfeed := writesRow_feedLineCb config.locale hwidth
  have hentry := writesRow_entryLineCb config.locale hwidth
  simp only [cacheGenLines, rows]
  cases hctx : mw.ctxType with
  | feeds =>
      rw [hctx, listing, Ne, List.map_eq_nil_iff] at h
      simp only [listing, List.length_map, List.getElem_map]
      refine ⟨?_, painted_writeLines hfeed hwidth h mw.bodyLen mw.toLines, ?_⟩
      · simp [writeFeedLine, writeLines, h]
      · intro i hi
        exact writeLines_lv hfeed.lv h mw.bodyLen mw.width mw.toLines hi
  | entries =>
      rw [hctx, listing, Ne, List.map_eq_nil_iff] at h
      simp only [listing, List.length_map, List.getElem_map]
      refine ⟨?_, painted_writeLines hentry hwidth h mw.bodyLen mw.toLines, ?_⟩
      · simp [writeEntryLine, writeLines, h]
      · intro i hi
        exact writeLines_lv hentry.lv h mw.bodyLen mw.width mw.toLines hi

end View
end Newsbaoter
