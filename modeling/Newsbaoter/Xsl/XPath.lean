import Newsbaoter.Core.Text

/-!
# XPath functions on strings

The functions that the stylesheets apply to texts.  Lengths and positions count
characters, each of which is one byte and the continuation bytes behind it.
-/

namespace Newsbaoter
namespace Xsl

/-- The text before and after the first occurrence of `sep`. -/
def splitAt (sep : CStr) : CStr → Option (CStr × CStr)
  | [] => if sep.isEmpty then some ([], []) else none
  | b :: s =>
      if sep.isPrefixOf (b :: s) then some ([], (b :: s).drop sep.length)
      else (splitAt sep s).map fun r => (b :: r.1, r.2)

/-- `substring-before(s,sep)` -/
def substringBefore (s sep : CStr) : CStr :=
  ((splitAt sep s).map Prod.fst).getD []

/-- `substring-after(s,sep)` -/
def substringAfter (s sep : CStr) : CStr :=
  ((splitAt sep s).map Prod.snd).getD []

def isContinuation (b : UInt8) : Bool :=
  128 ≤ b && b < 192

/-- `string-length(s)` -/
def stringLength (s : CStr) : ℕ :=
  s.countP fun b => !isContinuation b

def characters : ℕ → CStr → CStr
  | _, [] => []
  | 0, b :: s => if isContinuation b then b :: characters 0 s else []
  | n + 1, b :: s => b :: characters (if isContinuation b then n + 1 else n) s

/-- `substring(s,0,n)`: positions start at 1, so these are `n - 1` characters. -/
def substringFromZero (s : CStr) (n : ℕ) : CStr :=
  characters (n - 1) s

example : substringFromZero (ascii "12:34:56Z") 8 = ascii "12:34:5" := by decide

/-! ## Splitting -/

theorem splitAt_append
    {b : UInt8} {sep front : CStr} (hfront : b ∉ front) (back : CStr) :
    splitAt (b :: sep) (front ++ (b :: sep ++ back)) = some (front, back) := by
  induction front with
  | nil =>
      have hstart : (b :: sep).isPrefixOf (b :: (sep ++ back)) = true := by simp
      rw [List.nil_append, List.cons_append, splitAt, if_pos hstart]
      simp
  | cons c front ih =>
      obtain ⟨hne, hfront⟩ := not_or.mp (mt List.mem_cons.mpr hfront)
      have hstart : ¬(b :: sep).isPrefixOf (c :: (front ++ (b :: sep ++ back))) = true := by
        simp [hne]
      rw [List.cons_append, splitAt, if_neg hstart, ih hfront]
      rfl

theorem splitAt_eq_none {sep : CStr} (hsep : sep ≠ []) {s : CStr} (h : ¬sep <:+: s) :
    splitAt sep s = none := by
  induction s with
  | nil =>
      have hempty : ¬sep.isEmpty = true := by simpa using hsep
      rw [splitAt, if_neg hempty]
  | cons c s ih =>
      obtain ⟨hstart, hrest⟩ := not_or.mp (mt List.infix_cons_iff.mpr h)
      rw [splitAt, if_neg (mt List.isPrefixOf_iff_prefix.mp hstart), ih hrest]
      rfl

section Separator

variable {b : UInt8} {sep front : CStr} (hfront : b ∉ front) (back : CStr)
include hfront

theorem substringBefore_append :
    substringBefore (front ++ (b :: sep ++ back)) (b :: sep) = front := by
  rw [substringBefore, splitAt_append hfront]
  rfl

theorem substringAfter_append :
    substringAfter (front ++ (b :: sep ++ back)) (b :: sep) = back := by
  rw [substringAfter, splitAt_append hfront]
  rfl

end Separator

theorem substringAfter_eq_nil {sep : CStr} (hsep : sep ≠ []) {s : CStr} (h : ¬sep <:+: s) :
    substringAfter s sep = [] := by
  rw [substringAfter, splitAt_eq_none hsep h]
  rfl

/-! ## Characters of one byte -/

theorem stringLength_of_ascii {s : CStr} (h : ∀ b ∈ s, isContinuation b = false) :
    stringLength s = s.length := by
  rw [stringLength, List.countP_eq_length]
  intro b hb
  rw [h b hb]
  rfl

theorem characters_append
    {s : CStr} (h : ∀ b ∈ s, isContinuation b = false) {rest : CStr}
    (hrest : ∀ b ∈ rest.head?, isContinuation b = false) :
    characters s.length (s ++ rest) = s := by
  induction s with
  | nil =>
      cases rest with
      | nil => rfl
      | cons b rest =>
          have hb := hrest b rfl
          rw [List.length_nil, List.nil_append, characters, hb, if_neg Bool.false_ne_true]
  | cons b s ih =>
      obtain ⟨hb, hs⟩ := List.forall_mem_cons.mp h
      rw [List.length_cons, List.cons_append, characters, hb, if_neg Bool.false_ne_true, ih hs]

end Xsl
end Newsbaoter
