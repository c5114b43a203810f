import Newsbaoter.Config.InPlace

/-!
# The arguments of a command

`copy_strarr` counts the words of its text with `get_line_word`, and then walks
over the NULs that this has left in the buffer.  A gap has one NUL, whatever its
length, so a word keeps the other blanks in front of it.
-/

namespace Newsbaoter
namespace Config

open Newsbaoter.Support

/-- `p[i]=strdup(v); while(*(v++));`, `n` times. -/
def nulStringsAt (size : ℕ) (mem : ℕ → UInt8) : ℕ → ℕ → List CStr
  | 0, _ => []
  | n + 1, v =>
      let s := stringAt size mem v
      s :: nulStringsAt size mem n (v + s.length + 1)

/-- `copy_strarr` in the buffer. -/
def copyStrarrAt (size rounds : ℕ) (mem : ℕ → UInt8) (sd : Option (List CStr)) (next : ℕ) :
    Option (Option (List CStr) × ℤ) :=
  (wordsAt size rounds mem next).map fun r =>
    let n := r.1.length
    if n < 1 then (sd, 1) else (some (nulStringsAt size r.2 n next), 0)

/-- The words of a line, each with what is left of the gap in front of it. -/
def gappedWords : ℕ → CStr → CStr → List CStr
  | 0, _, _ => []
  | rounds + 1, front, line =>
      match getLineWord line with
      | none => []
      | some (v, next) =>
          (front ++ v) :: gappedWords rounds ((line.drop v.length).takeWhile isBlank).tail next

/-! ## The walk over the NULs -/

theorem takeWhile_gap
    {line v gap next : CStr} (hsplit : line = v ++ gap ++ next) (hgap : ∀ b ∈ gap, isBlank b = true)
    (hnext : ∀ b ∈ next.head?, isBlank b = false) :
    (line.drop v.length).takeWhile isBlank = gap := by
  rw [hsplit, List.append_assoc, List.drop_left, takeWhile_of_front hgap hnext]

theorem not_mem_of_blanks {gap : CStr} (hgap : ∀ b ∈ gap, isBlank b = true) : 0 ∉ gap :=
  fun h => ne_zero_of_isBlank (hgap 0 h) rfl

/-- A text that holds these strings, with a NUL between each two of them. -/
inductive Strung : List CStr → CStr → Prop
  | nil (text : CStr) : Strung [] text
  | last {s : CStr} (hs : 0 ∉ s) : Strung [s] s
  | cons {s rest : CStr} {ss : List CStr} (hs : 0 ∉ s) (h : Strung ss rest) :
      Strung (s :: ss) (s ++ 0 :: rest)

theorem Strung.nulStrings_eq {ss : List CStr} {text : CStr} (h : Strung ss text) :
    nulStrings ss.length text = ss := by
  induction h with
  | nil text => rfl
  | last hs =>
      rw [List.length_singleton, nulStrings, ← cString, cString_of_not_mem hs]
      rfl
  | @cons s rest ss hs h ih =>
      rw [List.length_cons, nulStrings, ← cString, cString_append_nul, cString_of_not_mem hs,
        List.dropWhile_append_of_pos (nonzero_of_not_mem hs)]
      simp [ih]

/-- The walk in a buffer, from where the text is stored. -/
theorem Strung.nulStringsAt_eq
    {ss : List CStr} {text : CStr} (h : Strung ss text) {size i : ℕ} {mem : ℕ → UInt8}
    (hstored : StoredAt size mem i text) : nulStringsAt size mem ss.length i = ss := by
  induction h generalizing i with
  | nil text => rfl
  | last hs =>
      rw [List.length_singleton, nulStringsAt, hstored.stringAt_eq hs]
      rfl
  | @cons s rest ss hs h ih =>
      have hstring : stringAt size mem i = s := by
        rw [hstored.stringAt_eq_cString, cString_append_nul, cString_of_not_mem hs]
      rw [List.length_cons, nulStringsAt, hstring, ih hstored.right.tail]

theorem length_gappedWords
    {n : ℕ} {front line : CStr} (hn : line.length ≤ n) :
    (gappedWords n front line).length = (lineWords line).length := by
  induction n generalizing front line with
  | zero =>
      obtain rfl := List.length_eq_zero_iff.mp (Nat.le_zero.mp hn)
      rfl
  | succ n ih =>
      rw [gappedWords]
      rcases hword : getLineWord line with - | ⟨v, next⟩
      · rw [getLineWord_eq_none_iff.mp hword]
        rfl
      · have hlt := length_getLineWord_lt hword
        dsimp only
        rw [lineWords_cons hword, List.length_cons, List.length_cons, ih (by omega)]

/-- In the punched text stand the words with their gaps. -/
theorem strung_gappedWords
    {n : ℕ} {front line : CStr} (hfront : 0 ∉ front) (hline : 0 ∉ line) (hn : line.length ≤ n) :
    Strung (gappedWords n front line) (front ++ punch n line) := by
  induction n generalizing front line with
  | zero => exact Strung.nil _
  | succ n ih =>
      rw [gappedWords]
      rcases hword : getLineWord line with - | ⟨v, next⟩
      · exact Strung.nil _
      · have hlt := length_getLineWord_lt hword
        obtain ⟨gap, hsplit, -, hgap, hend, hnext⟩ := getLineWord_split hword
        dsimp only
        rw [takeWhile_gap hsplit hgap hnext]
        have hnulWord : 0 ∉ v := fun hmem => hline (by rw [hsplit]; simp [hmem])
        have hnulNext : 0 ∉ next := fun hmem => hline (by rw [hsplit]; simp [hmem])
        have hnulFront : 0 ∉ front ++ v := by
          rw [List.mem_append]
          exact fun hmem => hmem.elim hfront hnulWord
        cases gap with
        | nil =>
            -- the line ends with its only word
            obtain rfl := hend rfl
            have hword' : line = v := by simpa using hsplit
            rw [hword'] at hword ⊢
            rw [punch_word hword]
            cases n with
            | zero => exact Strung.last hnulFront
            | succ n => exact Strung.last hnulFront
        | cons c gap =>
            have hgap' : ∀ b ∈ gap, isBlank b = true := fun b hb => hgap b (List.mem_cons_of_mem c hb)
            rw [punch_gap hword hsplit hgap' hnext, ← List.append_assoc, List.tail_cons]
            exact Strung.cons hnulFront (ih (not_mem_of_blanks hgap') hnulNext (by omega))

theorem strung_punch {text : CStr} (hnul : 0 ∉ text) :
    Strung (gappedWords text.length [] text) (punch text.length text) := by
  have hpunched := strung_gappedWords List.not_mem_nil hnul (Nat.le_refl text.length)
  rwa [List.nil_append] at hpunched

/-- What `copy_strarr` stores for a text. -/
theorem nulStrings_punch {text : CStr} (hnul : 0 ∉ text) :
    nulStrings (lineWords text).length (punch text.length text) =
      gappedWords text.length [] text := by
  rw [← length_gappedWords (Nat.le_refl text.length), (strung_punch hnul).nulStrings_eq]

theorem copyStrarr_eq
    (sd : Option (List CStr)) {text : CStr} (hnul : 0 ∉ text) :
    copyStrarr sd text =
      if text = [] then (sd, 1) else (some (gappedWords text.length [] text), 0) := by
  by_cases hempty : text = []
  · rw [hempty]
    rfl
  · rcases hword : getLineWord text with - | ⟨v, next⟩
    · exact absurd (getLineWord_eq_none_iff.mp hword) hempty
    · have hcount : ¬(lineWords text).length < 1 := by
        rw [lineWords_cons hword, List.length_cons]
        omega
      rw [copyStrarr, if_neg hcount, if_neg hempty, ← nulStrings_punch hnul]

/-- In the buffer, `copy_strarr` stores what the model of the options has. -/
theorem copyStrarrAt_eq
    {size rounds i : ℕ} {mem : ℕ → UInt8} {text : CStr} (h : StoredAt size mem i text)
    (hnul : 0 ∉ text) (hrounds : text.length < rounds) (sd : Option (List CStr)) :
    copyStrarrAt size rounds mem sd i = some (copyStrarr sd text) := by
  obtain ⟨cut, hrun, hframe, hpunched⟩ := wordsAt_eq h hnul hrounds
  have htext := hpunched text.length (Nat.le_refl _)
  have hlength : (punch text.length text).length = text.length := by
    rw [← htext, length_window]
  have hstored : StoredAt size cut i (punch text.length text) := by
    refine ⟨?_, ?_, ?_⟩
    · rw [hlength, htext]
    · rw [hlength, hframe _ (Or.inr (Nat.le_refl _))]
      exact h.nul
    · rw [hlength]
      exact h.lt_size
  rw [copyStrarrAt, hrun, Option.map_some, copyStrarr]
  dsimp only
  rw [nulStrings_punch hnul, ← length_gappedWords (Nat.le_refl text.length),
    (strung_punch hnul).nulStringsAt_eq hstored]

/-! ## Words without blanks -/

theorem not_blank_of_mem_lineWords {line : CStr} :
    ∀ v ∈ lineWords line, ∀ b ∈ v, isBlank b = false := by
  induction hn : line.length using Nat.strong_induction_on generalizing line with
  | _ n ih =>
      rcases hword : getLineWord line with - | ⟨v, next⟩
      · rw [getLineWord_eq_none_iff.mp hword, lineWords_nil]
        exact fun v hv => absurd hv List.not_mem_nil
      · obtain ⟨-, -, hv, -⟩ := getLineWord_split hword
        rw [lineWords_cons hword, List.forall_mem_cons]
        exact ⟨hv, ih _ (hn ▸ length_getLineWord_lt hword) rfl⟩

/-- The walk finds the words alone just if nothing is left of the gaps in front
of them. -/
theorem gappedWords_eq_iff
    {n : ℕ} {front line : CStr} (hn : line.length ≤ n) :
    gappedWords n front line = lineWords line ↔
      (line = [] ∨ front = []) ∧ Spaced isBlank line := by
  induction n generalizing front line with
  | zero =>
      obtain rfl := List.length_eq_zero_iff.mp (Nat.le_zero.mp hn)
      exact iff_of_true rfl ⟨Or.inl rfl, spaced_nil⟩
  | succ n ih =>
      rw [gappedWords]
      rcases hword : getLineWord line with - | ⟨v, next⟩
      · rw [getLineWord_eq_none_iff.mp hword]
        exact iff_of_true rfl ⟨Or.inl rfl, spaced_nil⟩
      · have hlt := length_getLineWord_lt hword
        have hne : line ≠ [] := by
          rintro rfl
          cases hword
        obtain ⟨gap, hsplit, hv, hgap, hend, hnext⟩ := getLineWord_split hword
        have htail : gap.tail = [] ↔ gap.length ≤ 1 := by
          rw [← List.length_eq_zero_iff, List.length_tail]
          omega
        dsimp only
        rw [takeWhile_gap hsplit hgap hnext, lineWords_cons hword, List.cons.injEq,
          List.append_left_eq_self, ih (by omega), htail, or_iff_right hne]
        rw [hsplit, spaced_append hv hgap hnext]

/-- `copy_strarr` stores the words of its text, and no blanks with them. -/
def StoresWords (size rounds : ℕ) (mem : ℕ → UInt8) (sd : Option (List CStr)) (i : ℕ)
    (text : CStr) : Prop :=
  ∃ r, copyStrarrAt size rounds mem sd i = some r ∧
    (r.2 = 0 → r.1 = some (lineWords text) ∧
      ∀ v ∈ lineWords text, ∀ b ∈ v, isBlank b = false)

/-- The words of a text are stored as they are just if no two blanks in a row
stand in front of one. -/
theorem storesWords_iff
    {size rounds i : ℕ} {mem : ℕ → UInt8} {text : CStr} (h : StoredAt size mem i text)
    (hnul : 0 ∉ text) (hrounds : text.length < rounds) (sd : Option (List CStr)) :
    StoresWords size rounds mem sd i text ↔ Spaced isBlank text := by
  have hrun := copyStrarrAt_eq h hnul hrounds sd
  rw [copyStrarr_eq sd hnul] at hrun
  by_cases hempty : text = []
  · rw [if_pos hempty] at hrun
    refine iff_of_true ⟨_, hrun, fun hzero => ?_⟩ (hempty ▸ spaced_nil)
    exact absurd hzero Int.one_ne_zero
  · rw [if_neg hempty] at hrun
    have hsame : gappedWords text.length [] text = lineWords text ↔
        (text = [] ∨ ([] : CStr) = []) ∧ Spaced isBlank text :=
      gappedWords_eq_iff (Nat.le_refl text.length)
    rw [and_iff_right (Or.inr rfl)] at hsame
    rw [← hsame]
    constructor
    · rintro ⟨r, hr, hstores⟩
      obtain rfl := Option.some.inj (hrun.symm.trans hr)
      exact Option.some.inj (hstores rfl).1
    · intro hwords
      exact ⟨_, hrun, fun _ => ⟨congrArg some hwords, not_blank_of_mem_lineWords⟩⟩

theorem storesWords_single_blanks :
    StoresWords 64 32 (bytesOf (ascii "less -R\t-X  ")) none 0 (ascii "less -R\t-X  ") := by
  have hstored : StoredAt 64 (bytesOf (ascii "less -R\t-X  ")) 0 (ascii "less -R\t-X  ") :=
    ⟨by decide, by decide, by decide⟩
  refine (storesWords_iff hstored (by decide) (by decide) none).mpr ?_
  have hspaced : List.IsChain (fun x y => ¬(isBlank x = true ∧ isBlank y = true))
      ((ascii "less -R\t-X  ").rdropWhile isBlank) := by
    decide
  exact hspaced

/-- Two blanks before an argument, and it is passed on with one of them. -/
theorem second_blank_is_passed_on :
    copyStrarrAt 64 32 (bytesOf (ascii "less  -R")) none 0 =
        some (some [ascii "less", ascii " -R"], 0) ∧
      lineWords (ascii "less  -R") = [ascii "less", ascii "-R"] ∧
      ¬StoresWords 64 32 (bytesOf (ascii "less  -R")) none 0 (ascii "less  -R") := by
  have hrun : copyStrarrAt 64 32 (bytesOf (ascii "less  -R")) none 0 =
      some (some [ascii "less", ascii " -R"], 0) := by
    decide +kernel
  have hwords : lineWords (ascii "less  -R") = [ascii "less", ascii "-R"] := by
    decide
  refine ⟨hrun, hwords, ?_⟩
  rintro ⟨r, hr, hstores⟩
  obtain rfl := Option.some.inj (hrun.symm.trans hr)
  have hsame := (hstores rfl).1
  rw [hwords] at hsame
  exact absurd hsame (by decide)

end Config
end Newsbaoter
