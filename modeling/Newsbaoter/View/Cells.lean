import Newsbaoter.Core.Text

/-!
# Rows of wide characters

The text of the body lies in one array of wide characters, each row in its own
cells.  `chars_to_widechars` converts a text into cells and `print_crop` prints
a row, which fills it up with blanks.
-/

namespace Newsbaoter
namespace View

/-- A `tchar_t`. -/
abbrev TChar := ℕ

/-- What `mw->body` points to, by address. -/
abbrev Cells := ℤ → TChar

/-- What the C library takes from the environment: the wide characters of a
text up to its end or its first invalid sequence, with the flag that there is
none; and a date in the format `"  %d %b  "`.  ASCII texts are valid everywhere. -/
structure Locale where
  decode : CStr → List TChar × Bool
  dayMonth : ℤ → CStr
  decode_ascii : ∀ s : CStr, (∀ b ∈ s, b < 128) → decode s = (s.map UInt8.toNat, true)

def store (mem : Cells) (a : ℤ) (cs : List TChar) : Cells :=
  fun p => if a ≤ p ∧ p < a + cs.length then cs.getD (p - a).toNat 0 else mem p

/-- The cells after `chars_to_widechars(dst,src,max)`, and what it returns;
`mbstowcs` stops without a terminator when `max` cells are full. -/
def charsToWidechars (loc : Locale) (mem : Cells) (dst : ℤ) (src : CStr) (max : ℤ) :
    Cells × ℤ :=
  if max < 1 then (mem, 0)
  else
    let d := loc.decode src
    if max ≤ d.1.length then (store mem dst (d.1.take max.toNat), max)
    else if d.2 then (store mem dst (d.1 ++ [0]), d.1.length)
    else (store mem dst d.1, -1)

/-- The number of cells from `a` on, at most `n`, before one that fails `p`. -/
def span (p : TChar → Bool) (mem : Cells) : ℕ → ℤ → ℕ
  | 0, _ => 0
  | n + 1, a => if p (mem a) then span p mem n (a + 1) + 1 else 0

/-- `print_crop` on the row at `a`; the flag says that the row shows something. -/
def printCrop (mem : Cells) (a : ℤ) (max : ℕ) : Cells × Bool :=
  let lead := span (fun c => c == 32) mem max a
  let stop := lead + span (fun c => c != 0) mem (max - lead) (a + lead)
  (store mem (a + stop) (List.replicate (max - stop) 32 ++ [0]),
    mem a != 0 && lead != max)

/-! ## Stored cells -/

theorem store_of_mem
    {mem : Cells} {a p : ℤ} {cs : List TChar} (hle : a ≤ p) (hlt : p < a + cs.length) :
    store mem a cs p = cs.getD (p - a).toNat 0 :=
  if_pos ⟨hle, hlt⟩

theorem store_of_not_mem
    {mem : Cells} {a p : ℤ} {cs : List TChar} (h : p < a ∨ a + cs.length ≤ p) :
    store mem a cs p = mem p := by
  apply if_neg
  omega

/-! ## Rows that show something -/

/-- Behind at most blanks, the row has a cell that is neither a blank nor a
terminator. -/
def Written (mem : Cells) (a : ℤ) (width : ℕ) : Prop :=
  ∃ j < width, (∀ m < j, mem (a + m) = 32) ∧ mem (a + j) ≠ 32 ∧ mem (a + j) ≠ 0

/-- The row is empty or all blanks. -/
def Blank (mem : Cells) (a : ℤ) (width : ℕ) : Prop :=
  mem a = 0 ∨ ∀ m < width, mem (a + m) = 32

theorem span_le (p : TChar → Bool) (mem : Cells) (n : ℕ) (a : ℤ) :
    span p mem n a ≤ n := by
  induction n generalizing a with
  | zero => exact Nat.le_refl 0
  | succ n ih =>
      rw [span]
      split
      · exact Nat.succ_le_succ (ih (a + 1))
      · exact Nat.zero_le _

theorem span_eq
    {p : TChar → Bool} {mem : Cells} {n j : ℕ} {a : ℤ} (hj : j < n)
    (hbefore : ∀ m < j, p (mem (a + m)) = true) (hat : p (mem (a + j)) = false) :
    span p mem n a = j := by
  induction n generalizing a j with
  | zero => omega
  | succ n ih =>
      rw [span]
      cases j with
      | zero =>
          rw [Int.natCast_zero, Int.add_zero] at hat
          simp [hat]
      | succ j =>
          have hfirst := hbefore 0 (Nat.succ_pos j)
          rw [Int.natCast_zero, Int.add_zero] at hfirst
          have hrest : span p mem n (a + 1) = j := by
            apply ih (Nat.lt_of_succ_lt_succ hj)
            · intro m hm
              have hnext := hbefore (m + 1) (Nat.succ_lt_succ hm)
              rwa [Int.natCast_succ, Int.add_comm (m : ℤ) 1, ← Int.add_assoc] at hnext
            · rwa [Int.natCast_succ, Int.add_comm (j : ℤ) 1, ← Int.add_assoc] at hat
          rw [if_pos hfirst, hrest]

theorem span_full
    {p : TChar → Bool} {mem : Cells} {n : ℕ} {a : ℤ}
    (h : ∀ m < n, p (mem (a + m)) = true) :
    span p mem n a = n := by
  induction n generalizing a with
  | zero => rfl
  | succ n ih =>
      have hfirst := h 0 (Nat.succ_pos n)
      rw [Int.natCast_zero, Int.add_zero] at hfirst
      have hrest : span p mem n (a + 1) = n := by
        apply ih
        intro m hm
        have hnext := h (m + 1) (Nat.succ_lt_succ hm)
        rwa [Int.natCast_succ, Int.add_comm (m : ℤ) 1, ← Int.add_assoc] at hnext
      rw [span, if_pos hfirst, hrest]

theorem apply_of_lt_span
    {p : TChar → Bool} {mem : Cells} {n j : ℕ} {a : ℤ} (hj : j < span p mem n a) :
    p (mem (a + j)) = true := by
  induction n generalizing a j with
  | zero => exact absurd hj (Nat.not_lt_zero j)
  | succ n ih =>
      rw [span] at hj
      split at hj
      · next hfirst =>
          cases j with
          | zero => rwa [Int.natCast_zero, Int.add_zero]
          | succ j =>
              have hrest := ih (Nat.lt_of_succ_lt_succ hj)
              rwa [Int.natCast_succ, Int.add_comm (j : ℤ) 1, ← Int.add_assoc]
      · exact absurd hj (Nat.not_lt_zero j)

theorem not_apply_span
    {p : TChar → Bool} {mem : Cells} {n : ℕ} {a : ℤ} (hlt : span p mem n a < n) :
    p (mem (a + span p mem n a)) = false := by
  induction n generalizing a with
  | zero => exact absurd hlt (Nat.not_lt_zero _)
  | succ n ih =>
      rw [span] at hlt ⊢
      split
      · next hfirst =>
          rw [if_pos hfirst] at hlt
          have hrest := ih (Nat.lt_of_succ_lt_succ hlt)
          rwa [Int.natCast_succ, Int.add_comm (span p mem n (a + 1) : ℤ) 1, ← Int.add_assoc]
      · next hfirst => simpa using hfirst

/-- `print_crop` stays within the cells of its row. -/
theorem printCrop_of_not_mem
    {mem : Cells} {a p : ℤ} {max : ℕ} (h : p < a ∨ a + max < p) :
    (printCrop mem a max).1 p = mem p := by
  have hlead := span_le (fun c => c == 32) mem max a
  set lead := span (fun c => c == 32) mem max a with hleadeq
  have hspan := span_le (fun c => c != 0) mem (max - lead) (a + lead)
  simp only [printCrop, ← hleadeq]
  apply store_of_not_mem
  rw [List.length_append, List.length_replicate, List.length_singleton]
  omega

/-- What `print_crop` makes of a cell: the text up to the first terminator stays,
and blanks follow it. -/
theorem printCrop_apply
    (mem : Cells) (a : ℤ) {max m : ℕ} (hm : m < max) :
    (printCrop mem a max).1 (a + m) =
      if ∀ j ≤ m, mem (a + j) ≠ 0 then mem (a + m) else 32 := by
  have hlead := span_le (fun c => c == 32) mem max a
  set lead := span (fun c => c == 32) mem max a with hleadeq
  have hspan := span_le (fun c => c != 0) mem (max - lead) (a + lead)
  set rest := span (fun c => c != 0) mem (max - lead) (a + lead) with hresteq
  have hbefore : ∀ j < lead + rest, mem (a + j) ≠ 0 := by
    intro j hj
    by_cases hjlead : j < lead
    · have hblank := apply_of_lt_span hjlead
      rw [beq_iff_eq] at hblank
      rw [hblank]
      decide
    · obtain ⟨i, rfl⟩ := Nat.exists_eq_add_of_le (Nat.le_of_not_lt hjlead)
      have htext := apply_of_lt_span (Nat.lt_of_add_lt_add_left hj)
      rwa [bne_iff_ne, Int.add_assoc, ← Int.natCast_add] at htext
  have hcell : (printCrop mem a max).1 (a + m) =
      store mem (a + (lead + rest : ℕ)) (List.replicate (max - (lead + rest)) 32 ++ [0])
        (a + m) := rfl
  rw [hcell]
  by_cases htext : m < lead + rest
  · rw [if_pos fun j hj => hbefore j (Nat.lt_of_le_of_lt hj htext)]
    exact store_of_not_mem (by omega)
  · have hend : mem (a + (lead + rest : ℕ)) = 0 := by
      have hlt : span (fun c => c != 0) mem (max - lead) (a + lead) < max - lead := by omega
      have hstop := not_apply_span hlt
      rwa [← hresteq, bne_eq_false_iff_eq, Int.add_assoc, ← Int.natCast_add] at hstop
    rw [if_neg fun hall => hall (lead + rest) (Nat.le_of_not_lt htext) hend,
      store_of_mem (by omega)
        (by rw [List.length_append, List.length_replicate, List.length_singleton]; omega)]
    have hindex : (a + m - (a + (lead + rest : ℕ))).toNat = m - (lead + rest) := by omega
    have hlt : m - (lead + rest) < max - (lead + rest) := by omega
    rw [hindex, List.getD_eq_getElem?_getD,
      List.getElem?_append_left (by rw [List.length_replicate]; exact hlt),
      List.getElem?_replicate, if_pos hlt, Option.getD_some]

/-- A written row is reported, and it stays as written as it was. -/
theorem printCrop_written
    {mem : Cells} {a : ℤ} {max : ℕ} (h : Written mem a max) :
    (printCrop mem a max).2 = true ∧ Written (printCrop mem a max).1 a max := by
  obtain ⟨j, hj, hblanks, hblank, hzero⟩ := h
  have hlead : span (fun c => c == 32) mem max a = j := by
    apply span_eq hj
    · intro m hm
      simp [hblanks m hm]
    · simpa using hblank
  have htext : ∀ m ≤ j, mem (a + m) ≠ 0 := by
    intro m hm
    rcases Nat.lt_or_eq_of_le hm with hlt | rfl
    · rw [hblanks m hlt]
      decide
    · exact hzero
  have hkept : ∀ m ≤ j, (printCrop mem a max).1 (a + m) = mem (a + m) := by
    intro m hm
    rw [printCrop_apply mem a (Nat.lt_of_le_of_lt hm hj),
      if_pos fun i hi => htext i (Nat.le_trans hi hm)]
  refine ⟨?_, j, hj, ?_, ?_, ?_⟩
  · have hfirst := htext 0 (Nat.zero_le j)
    rw [Int.natCast_zero, Int.add_zero] at hfirst
    simp only [printCrop, hlead]
    simp [hfirst, Nat.ne_of_lt hj]
  · intro m hm
    rw [hkept m (Nat.le_of_lt hm)]
    exact hblanks m hm
  · rw [hkept j (Nat.le_refl j)]
    exact hblank
  · rw [hkept j (Nat.le_refl j)]
    exact hzero

/-- A blank row is not reported, and it stays blank. -/
theorem printCrop_blank
    {mem : Cells} {a : ℤ} {max : ℕ} (h : Blank mem a max) :
    (printCrop mem a max).2 = false ∧ Blank (printCrop mem a max).1 a max := by
  rcases h with hzero | hblanks
  · have hfirst : mem (a + (0 : ℕ)) = 0 := by rwa [Int.natCast_zero, Int.add_zero]
    refine ⟨by simp [printCrop, hzero], Or.inr ?_⟩
    intro m hm
    rw [printCrop_apply mem a hm, if_neg fun hall => hall 0 (Nat.zero_le m) hfirst]
  · have hlead : span (fun c => c == 32) mem max a = max := by
      apply span_full
      intro m hm
      simp [hblanks m hm]
    refine ⟨by simp [printCrop, hlead], Or.inr ?_⟩
    intro m hm
    rw [printCrop_apply mem a hm, hblanks m hm, ite_self]

end View
end Newsbaoter
