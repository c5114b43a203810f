import Newsbaoter.Config.Options
import Newsbaoter.Config.Delivery
import Newsbaoter.Support.Fields

/-!
# Words cut out of the buffer

`get_line_word` puts a NUL behind each word it finds and hands out pointers into
the line.  Called until it returns `NULL`, it finds the fields of the line, unless
a blank at the front makes the first word empty.
-/

namespace Newsbaoter
namespace Config

open Newsbaoter.Support

/-! ## One word -/

/-- `get_line_word(buf,&next)` in an allocation of `size` bytes, with indices for
the pointers: `*next`, and the bytes with the NUL behind the word at `buf`. -/
def getLineWordAt (size : ℕ) (mem : ℕ → UInt8) (buf : ℕ) : Option (ℕ × (ℕ → UInt8)) :=
  if mem buf = 0 then none
  else
    let p := scan (fun b => b != 0 && !isBlank b) mem (size - buf) buf
    let np := if mem p ≠ 0 then scan isBlank mem (size - (p + 1)) (p + 1) else p
    some (np, Function.update mem p 0)

/-- The C string at an index. -/
def stringAt (size : ℕ) (mem : ℕ → UInt8) (i : ℕ) : CStr :=
  (window mem i (size - i)).takeWhile fun b => b ≠ 0

/-- `while((v=get_line_word(next,&next)))`: the words, as they are when they are
returned, and the bytes in the end. -/
def wordsAt (size : ℕ) : ℕ → (ℕ → UInt8) → ℕ → Option (List CStr × (ℕ → UInt8))
  | 0, _, _ => none
  | rounds + 1, mem, next =>
      match getLineWordAt size mem next with
      | none => some ([], mem)
      | some (np, cut) =>
          (wordsAt size rounds cut np).map fun r => (stringAt size cut next :: r.1, r.2)

/-- The line is stored at an index, with its NUL. -/
structure StoredAt (size : ℕ) (mem : ℕ → UInt8) (i : ℕ) (line : CStr) : Prop where
  text : window mem i line.length = line
  nul : mem (i + line.length) = 0
  lt_size : i + line.length < size

/-- The word at the front of a line, the gap behind it, and the rest. -/
theorem getLineWord_split
    {line v next : CStr} (h : getLineWord line = some (v, next)) :
    ∃ gap, line = v ++ gap ++ next ∧ (∀ b ∈ v, isBlank b = false) ∧
      (∀ b ∈ gap, isBlank b = true) ∧ (gap = [] → next = []) ∧
      ∀ b ∈ next.head?, isBlank b = false := by
  rw [getLineWord] at h
  split at h
  · cases h
  · obtain ⟨rfl, rfl⟩ := Prod.mk.inj (Option.some.inj h)
    set np := line.dropWhile fun b => !isBlank b with hnp
    have hword : ∀ b ∈ line.takeWhile fun b => !isBlank b, isBlank b = false := by
      intro b hb
      have hnot := List.mem_takeWhile_imp hb
      simpa using hnot
    have hhead : ∀ b ∈ (np.tail.dropWhile isBlank).head?, isBlank b = false := by
      intro b hb
      have hstop := List.head?_dropWhile_not isBlank np.tail
      rw [Option.mem_def.mp hb] at hstop
      simpa using hstop
    have hsplit := List.takeWhile_append_dropWhile (p := fun b => !isBlank b) (l := line)
    cases hcases : np with
    | nil =>
        refine ⟨[], ?_, hword, by simp, fun _ => rfl, by simp⟩
        rw [← hnp, hcases] at hsplit
        simpa using hsplit.symm
    | cons c rest =>
        have hc : isBlank c = true := by
          have hstop := List.head?_dropWhile_not (fun b => !isBlank b) line
          rw [← hnp, hcases] at hstop
          simpa using hstop
        rw [hcases] at hhead
        refine ⟨c :: rest.takeWhile isBlank, ?_, hword, ?_, by simp, hhead⟩
        · rw [List.append_assoc, List.cons_append, List.tail_cons, List.takeWhile_append_dropWhile,
            ← hcases, hnp]
          exact hsplit.symm
        · rw [List.forall_mem_cons]
          exact ⟨hc, fun b hb => List.mem_takeWhile_imp hb⟩

/-- Every word takes at least one byte. -/
theorem length_getLineWord_lt
    {line v next : CStr} (h : getLineWord line = some (v, next)) : next.length < line.length := by
  have hne : line ≠ [] := by
    rintro rfl
    cases h
  obtain ⟨gap, hsplit, -, -, hend, -⟩ := getLineWord_split h
  cases gap with
  | nil =>
      rw [hend rfl]
      exact List.length_pos_iff.mpr hne
  | cons c gap =>
      rw [hsplit, List.length_append, List.length_append, List.length_cons]
      omega

theorem getLineWord_eq_none_iff {line : CStr} : getLineWord line = none ↔ line = [] := by
  rw [getLineWord]
  constructor
  · intro h
    by_contra hne
    rw [if_neg hne] at h
    cases h
  · intro h
    exact if_pos h

/-! ## The line in the buffer -/

section Stored

variable {size i : ℕ} {mem : ℕ → UInt8} {line l₁ l₂ : CStr}

theorem StoredAt.window_eq (h : StoredAt size mem i line) :
    ∃ more, window mem i (size - i) = line ++ 0 :: more := by
  have hlt := h.lt_size
  refine ⟨window mem (i + line.length + 1) (size - i - (line.length + 1)), ?_⟩
  have hcount : size - i = line.length + (size - i - (line.length + 1) + 1) := by omega
  rw [hcount, window_add, h.text, window_succ, h.nul, ← hcount]

theorem StoredAt.right (h : StoredAt size mem i (l₁ ++ l₂)) :
    StoredAt size mem (i + l₁.length) l₂ := by
  obtain ⟨-, htext⟩ := window_eq_append_iff h.text
  refine ⟨htext, ?_, ?_⟩
  · rw [Nat.add_assoc, ← List.length_append]
    exact h.nul
  · rw [Nat.add_assoc, ← List.length_append]
    exact h.lt_size

theorem StoredAt.tail {b : UInt8} (h : StoredAt size mem i (b :: line)) :
    StoredAt size mem (i + 1) line := by
  have hsplit : StoredAt size mem i ([b] ++ line) := h
  exact hsplit.right

theorem StoredAt.congr {cut : ℕ → UInt8} (h : StoredAt size mem i line)
    (hcut : ∀ j ≥ i, cut j = mem j) : StoredAt size cut i line := by
  refine ⟨?_, ?_, h.lt_size⟩
  · refine (window_congr ?_).trans h.text
    exact fun j _ => hcut _ (Nat.le_add_right i j)
  · rw [hcut _ (Nat.le_add_right i _)]
    exact h.nul

/-- A NUL behind the first part makes a line of it. -/
theorem StoredAt.left (h : StoredAt size mem i (l₁ ++ l₂)) :
    StoredAt size (Function.update mem (i + l₁.length) 0) i l₁ := by
  obtain ⟨htext, -⟩ := window_eq_append_iff h.text
  have hlt := h.lt_size
  rw [List.length_append] at hlt
  refine ⟨?_, Function.update_self .., by omega⟩
  refine (window_congr ?_).trans htext
  intro j hj
  exact Function.update_of_ne (by omega) _ _

theorem StoredAt.stringAt_eq_cString (h : StoredAt size mem i line) :
    stringAt size mem i = cString line := by
  obtain ⟨more, hmore⟩ := h.window_eq
  rw [stringAt, hmore, ← cString, cString_append_nul]

theorem StoredAt.stringAt_eq (h : StoredAt size mem i line) (hnul : 0 ∉ line) :
    stringAt size mem i = line := by
  rw [h.stringAt_eq_cString, cString_of_not_mem hnul]

/-- With the NUL behind the word, the rest of the line is a line of its own. -/
theorem storedAt_next
    {v gap next : CStr} (h : StoredAt size mem i (v ++ (gap ++ next))) (hend : gap = [] → next = []) :
    StoredAt size (Function.update mem (i + v.length) 0) (i + v.length + gap.length) next := by
  cases gap with
  | nil =>
      have hlt := h.right.lt_size
      rw [hend rfl] at hlt ⊢
      exact ⟨rfl, Function.update_self .., hlt⟩
  | cons c gap =>
      refine h.right.right.congr ?_
      intro j hj
      rw [List.length_cons] at hj
      exact Function.update_of_ne (by omega) _ _

/-- A NUL in the line, or again at its end, leaves the other bytes. -/
theorem StoredAt.update_eq
    {n j : ℕ} (h : StoredAt size mem i line) (hn : n ≤ line.length)
    (hj : j < i ∨ i + line.length ≤ j) : Function.update mem (i + n) 0 j = mem j := by
  by_cases hjn : j = i + n
  · have hjend : j = i + line.length := by omega
    rw [hjn, Function.update_self, ← hjn, hjend]
    exact h.nul.symm
  · exact Function.update_of_ne hjn _ _

theorem ne_zero_of_isBlank {b : UInt8} (h : isBlank b = true) : b ≠ 0 := by
  rintro rfl
  cases h

/-- The word ends at the first blank or at the NUL. -/
theorem scan_word
    {v rest : CStr} (h : StoredAt size mem i (v ++ rest)) (hnul : 0 ∉ v)
    (hv : ∀ b ∈ v, isBlank b = false) (hrest : ∀ b ∈ rest.head?, isBlank b = true) :
    scan (fun b => b != 0 && !isBlank b) mem (size - i) i = i + v.length := by
  obtain ⟨more, hmore⟩ := h.window_eq
  rw [scan_eq, hmore, List.append_assoc, takeWhile_of_front]
  · intro b hb
    have hne : b ≠ 0 := fun h0 => hnul (h0 ▸ hb)
    simp [hne, hv b hb]
  · intro b hb
    cases rest with
    | nil =>
        obtain rfl : b = 0 := (Option.some.inj hb).symm
        rfl
    | cons c rest =>
        obtain rfl := Option.some.inj hb
        simp [hrest _ rfl]

theorem scan_gap
    {gap next : CStr} (h : StoredAt size mem i (gap ++ next))
    (hgap : ∀ b ∈ gap, isBlank b = true) (hnext : ∀ b ∈ next.head?, isBlank b = false) :
    scan isBlank mem (size - i) i = i + gap.length := by
  obtain ⟨more, hmore⟩ := h.window_eq
  rw [scan_eq, hmore, List.append_assoc, takeWhile_of_front hgap]
  intro b hb
  cases next with
  | nil =>
      obtain rfl : b = 0 := (Option.some.inj hb).symm
      rfl
  | cons c next =>
      obtain rfl := Option.some.inj hb
      exact hnext _ rfl

/-- `get_line_word` changes just the byte behind the word. -/
theorem getLineWordAt_eq
    {v gap next : CStr} (h : StoredAt size mem i (v ++ gap ++ next)) (hne : v ++ gap ++ next ≠ [])
    (hnul : 0 ∉ v ++ gap ++ next) (hv : ∀ b ∈ v, isBlank b = false)
    (hgap : ∀ b ∈ gap, isBlank b = true) (hend : gap = [] → next = [])
    (hnext : ∀ b ∈ next.head?, isBlank b = false) :
    getLineWordAt size mem i =
      some (i + v.length + gap.length, Function.update mem (i + v.length) 0) := by
  have hfirst : mem i ≠ 0 := by
    obtain ⟨b, rest, hcons⟩ := List.exists_cons_of_ne_nil hne
    have htext := h.text
    rw [hcons, List.length_cons, window_succ, List.cons.injEq] at htext
    rw [htext.1]
    rintro rfl
    exact hnul (by rw [hcons]; exact List.mem_cons_self)
  have hnulv : 0 ∉ v := fun hmem => hnul (by simp [hmem])
  rw [List.append_assoc] at h
  have hword := scan_word h hnulv hv (by
    intro b hb
    cases gap with
    | nil =>
        rw [hend rfl] at hb
        cases hb
    | cons c gap =>
        obtain rfl := Option.some.inj hb
        exact hgap _ List.mem_cons_self)
  rw [getLineWordAt, if_neg hfirst]
  simp only [hword]
  have hbehind := h.right
  cases gap with
  | nil =>
      obtain rfl := hend rfl
      have hzero : mem (i + v.length) = 0 := hbehind.nul
      rw [if_neg (not_not.mpr hzero)]
      rfl
  | cons c gap =>
      have hblank := hgap c List.mem_cons_self
      have hc : mem (i + v.length) = c := by
        have htext := hbehind.text
        rw [List.cons_append, List.length_cons, window_succ, List.cons.injEq] at htext
        exact htext.1
      have hgapAt : StoredAt size mem (i + v.length + 1) (gap ++ next) := hbehind.tail
      rw [hc, if_pos (ne_zero_of_isBlank hblank),
        scan_gap hgapAt (fun b hb => hgap b (List.mem_cons_of_mem c hb)) hnext]
      rw [List.length_cons, Nat.add_comm gap.length 1, Nat.add_assoc]

end Stored

/-! ## All words -/

theorem wordsIn_congr {m n : ℕ} {line : CStr} (hm : line.length ≤ m) (hn : line.length ≤ n) :
    wordsIn m line = wordsIn n line := by
  induction m generalizing n line with
  | zero =>
      obtain rfl := List.length_eq_zero_iff.mp (Nat.le_zero.mp hm)
      cases n with
      | zero => rfl
      | succ n => rfl
  | succ m ih =>
      cases n with
      | zero =>
          obtain rfl := List.length_eq_zero_iff.mp (Nat.le_zero.mp hn)
          rfl
      | succ n =>
          rw [wordsIn, wordsIn]
          rcases hword : getLineWord line with - | ⟨v, next⟩
          · rfl
          · have hlt := length_getLineWord_lt hword
            dsimp only
            rw [ih (n := n) (by omega) (by omega)]

theorem lineWords_cons {line v next : CStr} (h : getLineWord line = some (v, next)) :
    lineWords line = v :: lineWords next := by
  have hlt := length_getLineWord_lt h
  obtain ⟨n, hn⟩ := Nat.exists_eq_add_of_lt hlt
  rw [lineWords, hn, wordsIn, h, lineWords]
  dsimp only
  rw [wordsIn_congr (Nat.le_add_right next.length n) (Nat.le_refl _)]

theorem lineWords_nil : lineWords [] = [] := by
  rfl

/-- The buffer after the counting loop: a NUL in each gap. -/
theorem punch_gap
    {n : ℕ} {line v gap next : CStr} {c : UInt8} (h : getLineWord line = some (v, next))
    (hsplit : line = v ++ (c :: gap) ++ next) (hgap : ∀ b ∈ gap, isBlank b = true)
    (hnext : ∀ b ∈ next.head?, isBlank b = false) :
    punch (n + 1) line = v ++ 0 :: (gap ++ punch n next) := by
  have hdrop : line.drop v.length = c :: (gap ++ next) := by
    rw [hsplit, List.append_assoc, List.drop_left, List.cons_append]
  have htake : (gap ++ next).takeWhile isBlank = gap := takeWhile_of_front hgap hnext
  rw [punch, h]
  dsimp only
  rw [hdrop]
  dsimp only
  rw [htake]

theorem punch_word {n : ℕ} {v : CStr} (h : getLineWord v = some (v, [])) : punch (n + 1) v = v := by
  rw [punch, h]
  dsimp only
  rw [List.drop_length]

/-- The first word and its gap, in the bytes that the loop leaves. -/
theorem window_punch
    {size i n : ℕ} {mem cut : ℕ → UInt8} {line v gap next : CStr}
    (hword : getLineWord line = some (v, next)) (hsplit : line = v ++ gap ++ next)
    (hgap : ∀ b ∈ gap, isBlank b = true) (hend : gap = [] → next = [])
    (hnext : ∀ b ∈ next.head?, isBlank b = false) (h : StoredAt size mem i (v ++ (gap ++ next)))
    (hframe : ∀ j < i + v.length + gap.length, cut j = Function.update mem (i + v.length) 0 j)
    (hpunched : window cut (i + v.length + gap.length) next.length = punch n next) :
    window cut i line.length = punch (n + 1) line := by
  have hfront : window cut i v.length = v := by
    refine (window_congr ?_).trans h.left.text
    exact fun j hj => hframe _ (by omega)
  cases gap with
  | nil =>
      obtain rfl := hend rfl
      have hword' : line = v := by simpa using hsplit
      rw [hword'] at hword ⊢
      rw [punch_word hword, hfront]
  | cons c gap =>
      rw [List.length_cons] at hframe hpunched
      have hcount : line.length = v.length + (gap.length + next.length + 1) := by
        rw [hsplit, List.length_append, List.length_append, List.length_cons]
        omega
      have hcut : cut (i + v.length) = 0 := by
        rw [hframe _ (by omega), Function.update_self]
      have hkept : window cut (i + v.length + 1) gap.length = gap := by
        have hgapAt : StoredAt size mem (i + v.length + 1) (gap ++ next) := h.right.tail
        refine (window_congr ?_).trans hgapAt.left.text
        intro j hj
        rw [hframe _ (by omega), Function.update_of_ne (by omega), Function.update_of_ne (by omega)]
      rw [Nat.add_comm gap.length 1, ← Nat.add_assoc] at hpunched
      rw [punch_gap hword hsplit (fun b hb => hgap b (List.mem_cons_of_mem c hb)) hnext,
        hcount, window_add, hfront, window_succ, window_add, hcut, hkept, hpunched]

/-- The run lemma: the loop over `get_line_word` ends with the words of the line,
and only bytes of the line are changed, each gap at its first blank. -/
theorem wordsAt_eq
    {size rounds i : ℕ} {mem : ℕ → UInt8} {line : CStr} (h : StoredAt size mem i line)
    (hnul : 0 ∉ line) (hrounds : line.length < rounds) :
    ∃ cut, wordsAt size rounds mem i = some (lineWords line, cut) ∧
      (∀ j, j < i ∨ i + line.length ≤ j → cut j = mem j) ∧
      ∀ n, line.length ≤ n → window cut i line.length = punch n line := by
  induction rounds generalizing i mem line with
  | zero => omega
  | succ rounds ih =>
      rw [wordsAt]
      rcases hword : getLineWord line with - | ⟨v, next⟩
      · obtain rfl := getLineWord_eq_none_iff.mp hword
        have hzero : mem i = 0 := h.nul
        refine ⟨mem, ?_, fun _ _ => rfl, ?_⟩
        · rw [getLineWordAt, if_pos hzero, lineWords_nil]
        · intro n _
          cases n with
          | zero => rfl
          | succ n => rfl
      · have hne : line ≠ [] := by
          rintro rfl
          cases hword
        have hlt := length_getLineWord_lt hword
        obtain ⟨gap, hsplit, hv, hgap, hend, hnext⟩ := getLineWord_split hword
        have hlength : line.length = v.length + gap.length + next.length := by
          rw [hsplit, List.length_append, List.length_append]
        have hnulNext : 0 ∉ next := fun hmem => hnul (by rw [hsplit]; simp [hmem])
        have hnulWord : 0 ∉ v := fun hmem => hnul (by rw [hsplit]; simp [hmem])
        have hline := h
        rw [hsplit] at h hnul hne
        rw [getLineWordAt_eq h hne hnul hv hgap hend hnext]
        rw [List.append_assoc] at h
        obtain ⟨cut, hrun, hframe, hpunched⟩ := ih (storedAt_next h hend) hnulNext (by omega)
        refine ⟨cut, ?_, ?_, ?_⟩
        · rw [lineWords_cons hword]
          simp only [hrun, h.left.stringAt_eq hnulWord, Option.map_some]
        · intro j hj
          rw [hframe j (by omega)]
          exact hline.update_eq (by omega) hj
        · intro n hn
          obtain ⟨n, rfl⟩ := Nat.exists_eq_succ_of_ne_zero (Nat.ne_of_gt (Nat.lt_of_lt_of_le
            (List.length_pos_iff.mpr (hsplit ▸ hne)) hn))
          exact window_punch hword hsplit hgap hend hnext h (fun j hj => hframe j (Or.inl hj))
            (hpunched n (by omega))

/-! ## The fields of the line -/

theorem lineWords_eq_fields
    {line : CStr} (hline : ∀ b ∈ line.head?, isBlank b = false) :
    lineWords line = fields isBlank line := by
  induction hn : line.length using Nat.strong_induction_on generalizing line with
  | _ n ih =>
      rcases hword : getLineWord line with - | ⟨v, next⟩
      · rw [getLineWord_eq_none_iff.mp hword, lineWords_nil, fields_nil]
      · have hlt := length_getLineWord_lt hword
        obtain ⟨gap, hsplit, hv, hgap, hend, hnext⟩ := getLineWord_split hword
        have hne : v ≠ [] := by
          rintro rfl
          cases gap with
          | nil =>
              rw [hsplit, hend rfl] at hlt
              exact Nat.lt_irrefl _ hlt
          | cons c gap =>
              have hc : isBlank c = false := hline c (by rw [hsplit]; rfl)
              rw [hgap c List.mem_cons_self] at hc
              cases hc
        rw [lineWords_cons hword, ih _ (hn ▸ hlt) hnext rfl, hsplit,
          fields_append hv hne hgap hend]

/-- Called until it returns `NULL`, `get_line_word` yields the fields of the line
and changes no byte outside of it. -/
def SplitsLine (size rounds : ℕ) (mem : ℕ → UInt8) (i : ℕ) (line : CStr) : Prop :=
  ∃ cut, wordsAt size rounds mem i = some (fields isBlank line, cut) ∧
    ∀ j, j < i ∨ i + line.length ≤ j → cut j = mem j

/-- A line is split into its fields just if it does not begin with a blank. -/
theorem splitsLine_iff
    {size rounds i : ℕ} {mem : ℕ → UInt8} {line : CStr} (h : StoredAt size mem i line)
    (hnul : 0 ∉ line) (hrounds : line.length < rounds) :
    SplitsLine size rounds mem i line ↔ ∀ b ∈ line.head?, isBlank b = false := by
  obtain ⟨cut, hrun, hframe, -⟩ := wordsAt_eq h hnul hrounds
  constructor
  · rintro ⟨cut', hfields, -⟩ b hb
    have hwords : lineWords line = fields isBlank line := by
      rw [hrun] at hfields
      exact congrArg Prod.fst (Option.some.inj hfields)
    by_contra hblank
    obtain ⟨rest, rfl⟩ := List.head?_eq_some_iff.mp hb
    have hempty : getLineWord (b :: rest) = some ([], rest.dropWhile isBlank) := by
      rw [getLineWord, if_neg (List.cons_ne_nil b rest)]
      simp [hblank]
    rw [lineWords_cons hempty] at hwords
    exact ne_nil_of_mem_fields (hwords ▸ List.mem_cons_self) rfl
  · intro hline
    rw [lineWords_eq_fields hline] at hrun
    exact ⟨cut, hrun, hframe⟩

/-- The bytes of a line in a fresh buffer of zeros. -/
def bytesOf (line : CStr) : ℕ → UInt8 :=
  fun i => line.getD i 0

theorem splitsLine_option :
    SplitsLine 64 32 (bytesOf (ascii "color \t listfocus cyan  ")) 0
      (ascii "color \t listfocus cyan  ") := by
  have hstored : StoredAt 64 (bytesOf (ascii "color \t listfocus cyan  ")) 0
      (ascii "color \t listfocus cyan  ") :=
    ⟨by decide, by decide, by decide⟩
  have hhead : (ascii "color \t listfocus cyan  ").head? = some 99 := by decide
  refine (splitsLine_iff hstored (by decide) (by decide)).mpr ?_
  rw [hhead]
  rintro b ⟨⟩
  rfl

def indentedUrl : CStr := ascii " http://example/feed"

/-- Of a line that begins with a blank, the first word is empty, and the URL
comes second, where `urlparse` takes it for a tag. -/
theorem indented_url_is_second_word :
    readLines (fun _ _ => 0) 30 0 (Conf.fresh fun _ => 0) [⟨indentedUrl ++ [10], by decide⟩] =
        .ok [indentedUrl] ∧
      (wordsAt 256 30 (bytesOf indentedUrl) 0).map Prod.fst =
        some [[], ascii "http://example/feed"] ∧
      ¬SplitsLine 256 30 (bytesOf indentedUrl) 0 indentedUrl := by
  have hwords : (wordsAt 256 30 (bytesOf indentedUrl) 0).map Prod.fst =
      some [[], ascii "http://example/feed"] := by
    decide +kernel
  refine ⟨by rfl, hwords, ?_⟩
  rintro ⟨cut, hrun, -⟩
  rw [hrun] at hwords
  have hfields : fields isBlank indentedUrl = [[], ascii "http://example/feed"] :=
    Option.some.inj hwords
  have hempty : [] ∈ fields isBlank indentedUrl := by
    rw [hfields]
    exact List.mem_cons_self
  exact ne_nil_of_mem_fields hempty rfl

end Config
end Newsbaoter
