import Mathlib.Data.List.Chain
import Mathlib.Data.List.DropRight

/-!
# Fields between separators

The fields of a list are its maximal runs without a separator.  A list with a
field at its front is the field, a gap of separators, and the rest.
-/

namespace Newsbaoter
namespace Support

variable {α : Type*} {p : α → Bool} {field gap rest : List α}

/-- The maximal runs of elements that are no separators. -/
def fields (p : α → Bool) (l : List α) : List (List α) :=
  (l.splitOnP p).filter fun run => !run.isEmpty

theorem ne_nil_of_mem_fields {l run : List α} (h : run ∈ fields p l) : run ≠ [] := by
  have hrun := (List.mem_filter.mp h).2
  simpa using hrun

theorem fields_nil : fields p [] = [] := by
  rfl

theorem fields_gap_append (hgap : ∀ x ∈ gap, p x = true) : fields p (gap ++ rest) = fields p rest := by
  induction gap with
  | nil => rfl
  | cons x gap ih =>
      obtain ⟨hx, hgap⟩ := List.forall_mem_cons.mp hgap
      have hsplit : ([] ++ x :: (gap ++ rest)).splitOnP p = [] :: (gap ++ rest).splitOnP p :=
        List.splitOnP_append_cons_of_forall_mem (by simp) x hx (gap ++ rest)
      rw [List.nil_append] at hsplit
      rw [List.cons_append, fields, hsplit, List.filter_cons_of_neg (by simp)]
      exact ih hgap

theorem fields_singleton
    (hfield : ∀ x ∈ field, p x = false) (hne : field ≠ []) : fields p field = [field] := by
  rw [fields, List.splitOnP_eq_singleton hfield, List.filter_cons_of_pos (by simpa using hne),
    List.filter_nil]

/-- The field at the front, and those of the rest. -/
theorem fields_append
    (hfield : ∀ x ∈ field, p x = false) (hne : field ≠ []) (hgap : ∀ x ∈ gap, p x = true)
    (hend : gap = [] → rest = []) :
    fields p (field ++ gap ++ rest) = field :: fields p rest := by
  cases gap with
  | nil =>
      rw [hend rfl, List.append_nil, List.append_nil, fields_nil]
      exact fields_singleton hfield hne
  | cons x gap =>
      obtain ⟨hx, hgap⟩ := List.forall_mem_cons.mp hgap
      rw [List.append_assoc, List.cons_append, fields,
        List.splitOnP_append_cons_of_forall_mem hfield x hx,
        List.filter_cons_of_pos (by simpa using hne), ← fields, fields_gap_append hgap]

/-! ## Single separators -/

/-- But for those at its end, the list has no two separators in a row. -/
def Spaced (p : α → Bool) (l : List α) : Prop :=
  List.IsChain (fun x y => ¬(p x = true ∧ p y = true)) (l.rdropWhile p)

theorem spaced_nil : Spaced p [] := by
  rw [Spaced, List.rdropWhile_nil]
  exact List.isChain_nil

/-- Where separators stand alone, at most one is in front of a field. -/
theorem isChain_gap_iff (hgap : ∀ x ∈ gap, p x = true) :
    List.IsChain (fun x y => ¬(p x = true ∧ p y = true)) gap ↔ gap.length ≤ 1 := by
  match gap with
  | [] => simp
  | [x] => simp
  | x :: y :: gap =>
      have hx := hgap x (by simp)
      have hy := hgap y (by simp)
      simp [hx, hy]

theorem isChain_field (hfield : ∀ x ∈ field, p x = false) :
    List.IsChain (fun x y => ¬(p x = true ∧ p y = true)) field := by
  apply List.Pairwise.isChain
  rw [List.pairwise_iff_forall_sublist]
  intro x y hsub hboth
  have hx := hfield x (hsub.subset (by simp))
  rw [hboth.1] at hx
  cases hx

theorem rdropWhile_append_of_field
    (l : List α) {x : α} (hx : x ∈ rest) (hfield : p x = false) :
    (l ++ rest).rdropWhile p = l ++ rest.rdropWhile p := by
  have hsome : (rest.reverse.dropWhile p).isEmpty = false := by
    rw [List.isEmpty_eq_false_iff, Ne, List.dropWhile_eq_nil_iff]
    intro hall
    have hsep := hall x (List.mem_reverse.mpr hx)
    rw [hfield] at hsep
    cases hsep
  rw [List.rdropWhile, List.rdropWhile, List.reverse_append, List.dropWhile_append, hsome]
  simp

/-- The gap behind a field may be longer than one separator just if nothing
follows it. -/
theorem spaced_append
    (hfield : ∀ x ∈ field, p x = false) (hgap : ∀ x ∈ gap, p x = true)
    (hrest : ∀ x ∈ rest.head?, p x = false) :
    Spaced p (field ++ gap ++ rest) ↔ (rest = [] ∨ gap.length ≤ 1) ∧ Spaced p rest := by
  cases rest with
  | nil =>
      refine iff_of_true ?_ ⟨Or.inl rfl, spaced_nil⟩
      have hgap' : ∀ x ∈ gap.reverse, p x = true := fun x hx => hgap x (List.mem_reverse.mp hx)
      have hdrop : (field ++ gap).rdropWhile p = field.rdropWhile p := by
        rw [List.rdropWhile, List.reverse_append, List.dropWhile_append_of_pos hgap',
          List.rdropWhile]
      obtain ⟨trailing, hsplit⟩ := List.rdropWhile_prefix p (l := field)
      have hchain := isChain_field hfield
      rw [← hsplit] at hchain
      rw [List.append_nil, Spaced, hdrop]
      exact hchain.left_of_append
  | cons y rest =>
      have hy : p y = false := hrest y rfl
      have hhead : ∀ z ∈ ((y :: rest).rdropWhile p).head?, p z = false := by
        intro z hz
        obtain ⟨trailing, hsplit⟩ := List.rdropWhile_prefix p (l := y :: rest)
        have hfirst : ((y :: rest).rdropWhile p ++ trailing).head? = some z := by
          rw [List.head?_append, hz, Option.some_or]
        rw [hsplit] at hfirst
        exact hrest z hfirst
      have hgapLink : ∀ x ∈ field.getLast?, ∀ z ∈ gap.head?, ¬(p x = true ∧ p z = true) := by
        rintro x hx z - ⟨hsep, -⟩
        rw [hfield x (List.mem_of_getLast? hx)] at hsep
        cases hsep
      have hrestLink : ∀ x ∈ (field ++ gap).getLast?, ∀ z ∈ ((y :: rest).rdropWhile p).head?,
          ¬(p x = true ∧ p z = true) := by
        rintro x - z hz ⟨-, hsep⟩
        rw [hhead z hz] at hsep
        cases hsep
      rw [Spaced, rdropWhile_append_of_field _ List.mem_cons_self hy, List.isChain_append,
        List.isChain_append, isChain_gap_iff hgap, or_iff_right (List.cons_ne_nil y rest)]
      constructor
      · rintro ⟨⟨-, hgap, -⟩, hrest, -⟩
        exact ⟨hgap, hrest⟩
      · rintro ⟨hgap, hrest⟩
        exact ⟨⟨isChain_field hfield, hgap, hgapLink⟩, hrest, hrestLink⟩

end Support
end Newsbaoter
