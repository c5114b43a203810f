import Newsbaoter.View.Inside

/-!
# Characters of several bytes

What an encoding without shift states guarantees to those who put texts together
and cut them, and UTF-8 as such an encoding.
-/

namespace Newsbaoter
namespace View

/-- Valid texts can be put together, the begin of a valid text has the first of
its characters, and no character is empty.  Dates are valid. -/
structure Multibyte (loc : Locale) : Prop where
  append : ∀ s t, (loc.decode s).2 = true →
    loc.decode (s ++ t) = ((loc.decode s).1 ++ (loc.decode t).1, (loc.decode t).2)
  take : ∀ s n, (loc.decode s).2 = true → (loc.decode (s.take n)).1 <+: (loc.decode s).1
  ne_nil : ∀ s, (loc.decode s).2 = true → s ≠ [] → (loc.decode s).1 ≠ []
  dayMonth : ∀ t, (loc.decode (loc.dayMonth t)).2 = true

theorem multibyte_byteLocale : Multibyte byteLocale where
  append := fun s t _ => by
    rw [byteLocale]
    exact congrArg (·, true) List.map_append
  take := fun s n _ => (List.take_prefix n s).map UInt8.toNat
  ne_nil := fun s _ hs => by
    rw [Ne, byteLocale, List.map_eq_nil_iff]
    exact hs
  dayMonth := fun _ => rfl

/-! ## UTF-8 -/

/-- The number that goes on with the last six bits of `n` bytes, which all have
to be of the form `10xxxxxx`. -/
def tailCode : ℕ → ℕ → CStr → Option ℕ
  | 0, code, _ => some code
  | _ + 1, _, [] => none
  | n + 1, code, b :: s =>
      if 0x80 ≤ b && b < 0xC0 then tailCode n (code * 64 + b.toNat % 64) s else none

/-- From the first byte of a character, the number of the others and its bits. -/
def utf8Header (b : UInt8) : Option (ℕ × ℕ) :=
  if b < 0x80 then some (0, b.toNat)
  else if b < 0xC2 then none
  else if b < 0xE0 then some (1, b.toNat % 32)
  else if b < 0xF0 then some (2, b.toNat % 16)
  else if b < 0xF8 then some (3, b.toNat % 8)
  else none

/-- Forms longer than needed, surrogates and what is beyond the last code point
are invalid. -/
def utf8Valid (n code : ℕ) : Bool :=
  match n with
  | 2 => 0x800 ≤ code && (code < 0xD800 || 0xE000 ≤ code)
  | 3 => 0x10000 ≤ code && code < 0x110000
  | _ => true

/-- The first character and the number of its bytes. -/
def utf8Char : CStr → Option (TChar × ℕ)
  | [] => none
  | b :: s =>
      (utf8Header b).bind fun h =>
        ((tailCode h.1 h.2 s).filter (utf8Valid h.1)).map (·, h.1 + 1)

/-- The characters of the first `n` or less, with the flag that the text ends
with them. -/
def utf8Chars : ℕ → CStr → List TChar × Bool
  | _, [] => ([], true)
  | 0, _ :: _ => ([], false)
  | n + 1, b :: s =>
      match utf8Char (b :: s) with
      | some (c, k) =>
          let rest := utf8Chars n ((b :: s).drop k)
          (c :: rest.1, rest.2)
      | none => ([], false)

def utf8Decode (s : CStr) : List TChar × Bool :=
  utf8Chars s.length s

theorem tailCode_spec
    {n code r : ℕ} {s : CStr} (h : tailCode n code s = some r) :
    n ≤ s.length ∧ ∀ t, tailCode n code (s ++ t) = some r := by
  induction n generalizing code s with
  | zero => exact ⟨Nat.zero_le _, fun _ => h⟩
  | succ n ih =>
      cases s with
      | nil => cases h
      | cons b s =>
          rw [tailCode] at h
          split at h
          · next htail =>
              obtain ⟨hlength, happend⟩ := ih h
              refine ⟨Nat.succ_le_succ hlength, ?_⟩
              intro t
              rw [List.cons_append, tailCode, if_pos htail, happend]
          · cases h

/-- A character has a byte, and what follows it does not matter. -/
theorem utf8Char_spec
    {s : CStr} {r : TChar × ℕ} (h : utf8Char s = some r) :
    0 < r.2 ∧ r.2 ≤ s.length ∧ ∀ t, utf8Char (s ++ t) = some r := by
  cases s with
  | nil => cases h
  | cons b s =>
      obtain ⟨header, hheader, h⟩ := Option.bind_eq_some_iff.mp h
      obtain ⟨c, hc, rfl⟩ := Option.map_eq_some_iff.mp h
      obtain ⟨htail, hvalid⟩ := Option.filter_eq_some_iff.mp hc
      obtain ⟨hlength, happend⟩ := tailCode_spec htail
      refine ⟨Nat.succ_pos _, Nat.succ_le_succ hlength, ?_⟩
      intro t
      rw [List.cons_append, utf8Char, hheader, Option.bind_some, happend,
        Option.filter_some_pos hvalid, Option.map_some]

/-- The number of characters that are tried does not matter, if it is enough. -/
theorem utf8Chars_congr
    {m n : ℕ} {s : CStr} (hm : s.length ≤ m) (hn : s.length ≤ n) :
    utf8Chars m s = utf8Chars n s := by
  induction m generalizing n s with
  | zero =>
      obtain rfl := List.length_eq_zero_iff.mp (Nat.le_zero.mp hm)
      cases n with
      | zero => rfl
      | succ n => rfl
  | succ m ih =>
      cases s with
      | nil =>
          cases n with
          | zero => rfl
          | succ n => rfl
      | cons b s =>
          obtain ⟨n, rfl⟩ := Nat.exists_eq_succ_of_ne_zero
            (Nat.ne_of_gt (Nat.lt_of_lt_of_le (Nat.succ_pos s.length) hn))
          rw [utf8Chars, utf8Chars]
          cases hchar : utf8Char (b :: s) with
          | none => rfl
          | some r =>
              obtain ⟨hpos, -, -⟩ := utf8Char_spec hchar
              have hdrop := List.length_drop (l := b :: s) (i := r.2)
              have hrest : utf8Chars m ((b :: s).drop r.2) = utf8Chars n ((b :: s).drop r.2) :=
                ih (by omega) (by omega)
              dsimp only
              rw [hrest]

/-- A text is its first character and the rest. -/
theorem utf8Decode_of_some
    {s : CStr} {r : TChar × ℕ} (h : utf8Char s = some r) :
    utf8Decode s =
      (r.1 :: (utf8Decode (s.drop r.2)).1, (utf8Decode (s.drop r.2)).2) := by
  obtain ⟨hpos, hle, -⟩ := utf8Char_spec h
  cases s with
  | nil => cases h
  | cons b s =>
      have hdrop := List.length_drop (l := b :: s) (i := r.2)
      have hrest : utf8Chars s.length ((b :: s).drop r.2) = utf8Decode ((b :: s).drop r.2) :=
        utf8Chars_congr (by rw [List.length_cons] at hdrop; omega) (Nat.le_refl _)
      rw [utf8Decode, List.length_cons, utf8Chars, h]
      dsimp only
      rw [hrest]

theorem utf8Decode_of_none
    {b : UInt8} {s : CStr} (h : utf8Char (b :: s) = none) : utf8Decode (b :: s) = ([], false) := by
  rw [utf8Decode, List.length_cons, utf8Chars, h]

theorem utf8Decode_append
    {s : CStr} (t : CStr) (h : (utf8Decode s).2 = true) :
    utf8Decode (s ++ t) = ((utf8Decode s).1 ++ (utf8Decode t).1, (utf8Decode t).2) := by
  induction hn : s.length using Nat.strong_induction_on generalizing s with
  | _ n ih =>
      cases s with
      | nil => rfl
      | cons b s =>
          cases hchar : utf8Char (b :: s) with
          | none =>
              rw [utf8Decode_of_none hchar] at h
              cases h
          | some r =>
              obtain ⟨hpos, hle, happend⟩ := utf8Char_spec hchar
              rw [utf8Decode_of_some hchar] at h ⊢
              have hshort : ((b :: s).drop r.2).length < n := by
                rw [List.length_drop]
                omega
              have hrest := ih _ hshort h rfl
              rw [utf8Decode_of_some (happend t), List.drop_append_of_le_length hle, hrest]
              rfl

theorem utf8Decode_prefix (s t : CStr) : (utf8Decode s).1 <+: (utf8Decode (s ++ t)).1 := by
  induction hn : s.length using Nat.strong_induction_on generalizing s with
  | _ n ih =>
      cases s with
      | nil => exact List.nil_prefix
      | cons b s =>
          cases hchar : utf8Char (b :: s) with
          | none =>
              rw [utf8Decode_of_none hchar]
              exact List.nil_prefix
          | some r =>
              obtain ⟨hpos, hle, happend⟩ := utf8Char_spec hchar
              have hshort : ((b :: s).drop r.2).length < n := by
                rw [List.length_drop]
                omega
              have hrest := ih _ hshort _ rfl
              rw [utf8Decode_of_some hchar, utf8Decode_of_some (happend t),
                List.drop_append_of_le_length hle, List.prefix_cons_inj]
              exact hrest

theorem utf8Decode_ascii
    {s : CStr} (h : ∀ b ∈ s, b < 128) : utf8Decode s = (s.map UInt8.toNat, true) := by
  induction s with
  | nil => rfl
  | cons b s ih =>
      have hchar : utf8Char (b :: s) = some (b.toNat, 1) := by
        rw [utf8Char, utf8Header, if_pos (h b List.mem_cons_self)]
        rfl
      rw [utf8Decode_of_some hchar, List.drop_succ_cons, List.drop_zero,
        ih fun c hc => h c (List.mem_cons_of_mem _ hc)]
      rfl

theorem utf8Decode_ne_nil
    {s : CStr} (h : (utf8Decode s).2 = true) (hs : s ≠ []) : (utf8Decode s).1 ≠ [] := by
  cases s with
  | nil => exact absurd rfl hs
  | cons b s =>
      cases hchar : utf8Char (b :: s) with
      | none =>
          rw [utf8Decode_of_none hchar] at h
          cases h
      | some r =>
          rw [utf8Decode_of_some hchar]
          exact List.cons_ne_nil _ _

/-! ## Where a text can be cut -/

/-- The byte is inside a character. -/
def isContinuation (b : UInt8) : Bool :=
  0x80 ≤ b && b < 0xC0

theorem not_continuation_of_utf8Header
    {b : UInt8} {h : ℕ × ℕ} (hheader : utf8Header b = some h) : isContinuation b = false := by
  rw [utf8Header] at hheader
  split at hheader
  · next hascii =>
      rw [isContinuation, Bool.and_eq_false_iff]
      exact Or.inl (decide_eq_false (UInt8.not_le.mpr hascii))
  · split at hheader
    · cases hheader
    · next hlead =>
        have hge : ¬b < 0xC0 := fun hlt => hlead (UInt8.lt_trans hlt (by decide))
        rw [isContinuation, Bool.and_eq_false_iff]
        exact Or.inr (decide_eq_false hge)

/-- The other bytes of a character are continuation bytes, and those behind them
do not matter. -/
theorem tailCode_bytes
    {n code r : ℕ} {s : CStr} (h : tailCode n code s = some r) :
    (∀ b ∈ s.take n, isContinuation b = true) ∧
      ∀ m, n ≤ m → tailCode n code (s.take m) = some r := by
  induction n generalizing code s with
  | zero =>
      refine ⟨?_, fun _ _ => h⟩
      rw [List.take_zero]
      exact fun b hb => absurd hb List.not_mem_nil
  | succ n ih =>
      cases s with
      | nil => cases h
      | cons c s =>
          rw [tailCode] at h
          split at h
          · next htail =>
              obtain ⟨hbytes, htake⟩ := ih h
              refine ⟨?_, ?_⟩
              · rw [List.take_succ_cons, List.forall_mem_cons]
                exact ⟨htail, hbytes⟩
              · intro m hm
                obtain ⟨m, rfl⟩ := Nat.exists_eq_succ_of_ne_zero (Nat.ne_zero_of_lt hm)
                rw [Nat.succ_eq_add_one, List.take_succ_cons, tailCode, if_pos htail]
                exact htake m (Nat.le_of_succ_le_succ hm)
          · cases h

/-- The first byte of a character begins it, the others do not, and those behind
them do not matter. -/
theorem utf8Char_bytes
    {s : CStr} {r : TChar × ℕ} (h : utf8Char s = some r) :
    (∀ b ∈ s[0]?, isContinuation b = false) ∧
      (∀ n, 0 < n → n < r.2 → ∃ b ∈ s[n]?, isContinuation b = true) ∧
        ∀ m, r.2 ≤ m → utf8Char (s.take m) = some r := by
  cases s with
  | nil => cases h
  | cons b s =>
      obtain ⟨header, hheader, h⟩ := Option.bind_eq_some_iff.mp h
      obtain ⟨c, hc, rfl⟩ := Option.map_eq_some_iff.mp h
      obtain ⟨htail, hvalid⟩ := Option.filter_eq_some_iff.mp hc
      obtain ⟨hlength, -⟩ := tailCode_spec htail
      obtain ⟨hbytes, htake⟩ := tailCode_bytes htail
      refine ⟨?_, ?_, ?_⟩
      · rintro _ ⟨⟩
        exact not_continuation_of_utf8Header hheader
      · intro n hpos hn
        obtain ⟨n, rfl⟩ := Nat.exists_eq_succ_of_ne_zero (Nat.ne_of_gt hpos)
        have hlt : n < header.1 := Nat.lt_of_succ_lt_succ hn
        have hget : s[n]? = some s[n] := List.getElem?_eq_getElem (Nat.lt_of_lt_of_le hlt hlength)
        refine ⟨s[n], hget, hbytes _ ?_⟩
        rw [List.mem_take_iff_getElem]
        exact ⟨n, by omega, rfl⟩
      · intro m hm
        obtain ⟨m, rfl⟩ := Nat.exists_eq_succ_of_ne_zero
          (Nat.ne_of_gt (Nat.lt_of_lt_of_le (Nat.succ_pos header.1) hm))
        rw [Nat.succ_eq_add_one, List.take_succ_cons, utf8Char, hheader, Option.bind_some,
          htake m (Nat.le_of_succ_le_succ hm), Option.filter_some_pos hvalid, Option.map_some]

/-- The beginning of a valid text is valid just if the byte behind it begins a
character. -/
theorem utf8Decode_take_iff
    {s : CStr} (h : (utf8Decode s).2 = true) (n : ℕ) :
    (utf8Decode (s.take n)).2 = true ↔ ∀ b ∈ s[n]?, isContinuation b = false := by
  induction hlength : s.length using Nat.strong_induction_on generalizing s n with
  | _ len ih =>
      cases s with
      | nil => simpa using h
      | cons b s =>
          cases hchar : utf8Char (b :: s) with
          | none =>
              rw [utf8Decode_of_none hchar] at h
              cases h
          | some r =>
              obtain ⟨hpos, hle, -⟩ := utf8Char_spec hchar
              obtain ⟨hfirst, hinner, htake⟩ := utf8Char_bytes hchar
              rw [utf8Decode_of_some hchar] at h
              by_cases hzero : n = 0
              · rw [hzero]
                exact iff_of_true rfl hfirst
              by_cases hn : n < r.2
              · -- the cut is within the first character
                obtain ⟨c, hc, hcontinues⟩ := hinner n (Nat.pos_of_ne_zero hzero) hn
                refine iff_of_false ?_ fun hall => ?_
                · obtain ⟨m, rfl⟩ := Nat.exists_eq_succ_of_ne_zero hzero
                  cases hcut : utf8Char ((b :: s).take (m + 1)) with
                  | none =>
                      rw [List.take_succ_cons] at hcut
                      rw [List.take_succ_cons, utf8Decode_of_none hcut]
                      exact Bool.false_ne_true
                  | some r' =>
                      obtain ⟨-, hle', happend⟩ := utf8Char_spec hcut
                      have hsame := happend ((b :: s).drop (m + 1))
                      rw [List.take_append_drop, hchar] at hsame
                      rw [← Option.some.inj hsame, List.length_take] at hle'
                      omega
                · rw [hall c hc] at hcontinues
                  cases hcontinues
              · -- the first character is kept, and the rest is cut
                have hshort : ((b :: s).drop r.2).length < len := by
                  rw [List.length_drop]
                  omega
                have hrest := ih _ hshort h (n - r.2) rfl
                rw [List.getElem?_drop, Nat.add_sub_of_le (Nat.le_of_not_lt hn)] at hrest
                rw [utf8Decode_of_some (htake n (Nat.le_of_not_lt hn)), ← hrest, List.drop_take]

/-- What is behind a valid beginning of a valid text is valid. -/
theorem utf8Decode_drop
    {s : CStr} {n : ℕ} (h : (utf8Decode s).2 = true) (htake : (utf8Decode (s.take n)).2 = true) :
    (utf8Decode (s.drop n)).2 = true := by
  rw [← List.take_append_drop n s, utf8Decode_append (s.drop n) htake] at h
  exact h

/-- UTF-8, for entries of January 1. -/
def utf8Locale : Locale where
  decode := utf8Decode
  dayMonth := fun _ => ascii "  01 Jan  "
  decode_ascii := fun _ h => utf8Decode_ascii h

theorem multibyte_utf8Locale : Multibyte utf8Locale where
  append := fun _ t h => utf8Decode_append t h
  take := fun s n _ => by
    have hbegin := utf8Decode_prefix (s.take n) (s.drop n)
    rwa [List.take_append_drop] at hbegin
  ne_nil := fun _ h hs => utf8Decode_ne_nil h hs
  dayMonth := fun _ => by
    have hdate : (utf8Decode (ascii "  01 Jan  ")).2 = true := by decide +kernel
    exact hdate

end View
end Newsbaoter
