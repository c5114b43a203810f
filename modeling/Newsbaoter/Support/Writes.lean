import Mathlib.Data.List.Induction
import Mathlib.Data.Option.Basic

/-!
# Places that are written again and again

Some steps of a run write a place, whatever is there, and the others leave it alone.
In the end it has what was written last.
-/

namespace Newsbaoter
namespace Support

theorem foldl_or
    {α β : Type} (write : β → Option α) (bs : List β) (a : Option α) :
    bs.foldl (fun a b => (write b).or a) a = ((bs.filterMap write).getLast?).or a := by
  induction bs using List.reverseRecOn with
  | nil => rfl
  | append_singleton bs b ih =>
      rw [List.foldl_append, List.foldl_cons, List.foldl_nil, ih, List.filterMap_append,
        List.getLast?_append]
      cases hb : write b with
      | none => simp [hb]
      | some v => simp [hb]

theorem foldl_getD
    {α β : Type} (write : β → Option α) (bs : List β) (a : α) :
    bs.foldl (fun a b => (write b).getD a) a = ((bs.filterMap write).getLast?).getD a := by
  have hsteps : bs.foldl (fun a b => (write b).or a) (some a) =
      some (bs.foldl (fun a b => (write b).getD a) a) := by
    refine List.foldl_hom some fun a b => ?_
    cases write b with
    | none => rfl
    | some v => rfl
  apply Option.some_injective
  rw [← hsteps, foldl_or]
  cases (bs.filterMap write).getLast? with
  | none => rfl
  | some v => rfl

/-- What is written last is what the last write says. -/
theorem getLast?_filterMap
    {α β : Type} (write : β → Option α) (bs : List β) :
    (bs.filterMap write).getLast? =
      ((bs.filter fun b => (write b).isSome).getLast?).bind write := by
  induction bs using List.reverseRecOn with
  | nil => rfl
  | append_singleton bs b ih =>
      rw [List.filterMap_append, List.filter_append, List.getLast?_append, List.getLast?_append, ih]
      cases hb : write b with
      | none => simp [hb]
      | some v => simp [hb]

/-- A list whose entries are written at their indices. -/
theorem getElem?_foldl_set
    {α : Type} (ws : List (ℕ × α)) (l : List α) (i : ℕ) :
    (ws.foldl (fun l w => l.set w.1 w.2) l)[i]? =
      l[i]?.map fun a => ((ws.filterMap fun w => if w.1 = i then some w.2 else none).getLast?).getD
        a := by
  induction ws using List.reverseRecOn with
  | nil => simp
  | append_singleton ws w ih =>
      have hlength : (ws.foldl (fun l w => l.set w.1 w.2) l).length = l.length := by
        refine List.foldlRecOn (motive := fun l' : List α => l'.length = l.length) ws _ rfl ?_
        intro l' hl' w _
        rw [List.length_set, hl']
      rw [List.foldl_append, List.foldl_cons, List.foldl_nil, List.getElem?_set, ih,
        List.filterMap_append, List.getLast?_append, hlength]
      by_cases hw : w.1 = i
      · by_cases hi : w.1 < l.length
        · subst hw
          simp [hi]
        · subst hw
          simp [hi]
      · simp [hw]

end Support
end Newsbaoter
