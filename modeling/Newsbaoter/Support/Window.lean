import Mathlib.Data.List.Basic

/-!
# Windows into a buffer

A buffer is a function of the index.  A window of it is the list of the elements
from some index on.
-/

namespace Newsbaoter
namespace Support

variable {α : Type*}

/-- The `n` elements of `buf` from index `i` on. -/
def window (buf : ℕ → α) (i n : ℕ) : List α :=
  (List.range' i n).map buf

@[simp] theorem length_window (buf : ℕ → α) (i n : ℕ) : (window buf i n).length = n := by
  simp [window]

theorem window_succ (buf : ℕ → α) (i n : ℕ) :
    window buf i (n + 1) = buf i :: window buf (i + 1) n := by
  rw [window, List.range'_succ, List.map_cons, window]

theorem window_add (buf : ℕ → α) (i m n : ℕ) :
    window buf i (m + n) = window buf i m ++ window buf (i + m) n := by
  rw [window, window, window, ← List.map_append, List.range'_append_1]

theorem window_congr
    {buf buf' : ℕ → α} {i i' n : ℕ} (h : ∀ j < n, buf (i + j) = buf' (i' + j)) :
    window buf i n = window buf' i' n := by
  induction n generalizing i i' with
  | zero => rfl
  | succ n ih =>
      have hhead : buf i = buf' i' := h 0 (Nat.succ_pos n)
      have htail : window buf (i + 1) n = window buf' (i' + 1) n := by
        apply ih
        intro j hj
        have hnext := h (j + 1) (Nat.succ_lt_succ hj)
        rwa [Nat.add_comm j 1, ← Nat.add_assoc, ← Nat.add_assoc] at hnext
      rw [window_succ, window_succ, hhead, htail]

theorem getElem?_window
    (buf : ℕ → α) (i : ℕ) {j n : ℕ} (hj : j < n) :
    (window buf i n)[j]? = some (buf (i + j)) := by
  rw [window, List.getElem?_map, List.getElem?_range' hj]
  simp

/-- A list that is stored from index `i` on is the window there. -/
theorem window_eq_of_getElem?
    {buf : ℕ → α} {i : ℕ} {l : List α} (h : ∀ j < l.length, l[j]? = some (buf (i + j))) :
    window buf i l.length = l := by
  apply List.ext_getElem?
  intro j
  by_cases hj : j < l.length
  · rw [getElem?_window buf i hj, h j hj]
  · rw [List.getElem?_eq_none (by simpa using hj), List.getElem?_eq_none (by simpa using hj)]

/-- The split of a window at a prefix of its list. -/
theorem window_eq_append_iff
    {buf : ℕ → α} {i n : ℕ} {l₁ l₂ : List α} (h : window buf i n = l₁ ++ l₂) :
    window buf i l₁.length = l₁ ∧ window buf (i + l₁.length) l₂.length = l₂ := by
  have hlength : n = l₁.length + l₂.length := by
    have hcount := congrArg List.length h
    simpa using hcount
  rw [hlength, window_add] at h
  exact List.append_inj h (by simp)

end Support
end Newsbaoter
