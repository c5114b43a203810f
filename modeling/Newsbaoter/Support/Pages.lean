import Mathlib.Data.List.Range

/-!
# Pages of a list

A list cut into pages of a fixed number of elements.  The pages tile the list:
put together they are the list, and the pages past its end are empty.
-/

namespace Newsbaoter
namespace Support

variable {α β : Type*}

/-- Page `p` of the pages of `k` elements. -/
def page (l : List α) (k p : ℕ) : List α :=
  (l.drop (p * k)).take k

theorem map_page (f : α → β) (l : List α) (k p : ℕ) :
    (page l k p).map f = page (l.map f) k p := by
  rw [page, page, List.map_take, List.map_drop]

theorem length_page (l : List α) (k p : ℕ) :
    (page l k p).length = min k (l.length - p * k) := by
  rw [page, List.length_take, List.length_drop]

theorem getElem?_page {l : List α} {k p j : ℕ} (hj : j < k) :
    (page l k p)[j]? = l[p * k + j]? := by
  rw [page, List.getElem?_take_of_lt hj, List.getElem?_drop]

theorem page_eq_nil_iff {l : List α} {k p : ℕ} (hk : 0 < k) :
    page l k p = [] ↔ l.length ≤ p * k := by
  rw [page, List.take_eq_nil_iff, List.drop_eq_nil_iff]
  exact or_iff_right (Nat.ne_of_gt hk)

/-- The first `n` pages are the first `n * k` elements, in order. -/
theorem flatMap_page (l : List α) (k n : ℕ) :
    (List.range n).flatMap (page l k) = l.take (n * k) := by
  induction n with
  | zero => simp
  | succ n ih =>
      rw [List.range_succ, List.flatMap_append, ih, List.flatMap_singleton, page, Nat.succ_mul,
        List.take_add]

/-- Enough pages are the whole list. -/
theorem flatMap_page_of_le {l : List α} {k n : ℕ} (h : l.length ≤ n * k) :
    (List.range n).flatMap (page l k) = l := by
  rw [flatMap_page, List.take_of_length_le h]

end Support
end Newsbaoter
