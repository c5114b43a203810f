import Newsbaoter.Config.InPlace
import Mathlib.Data.Nat.Bitwise

/-!
# A colour line and what is read back

`copy_color` takes every number that is not negative as an `int`, and packs two
of them into the halves of one word.  What `get_nbcolor` reads back is what the
line says just if both numbers fit into a half.
-/

namespace Newsbaoter
namespace Config

/-! ## What a line says -/

/-- The number at the front of a text, whatever its size. -/
def decimalValue (s : CStr) : ℤ :=
  let t := s.dropWhile isSpace
  if t.head? = some 45 then -digitsValue (t.tail.takeWhile isDigit)
  else if t.head? = some 43 then digitsValue (t.tail.takeWhile isDigit)
  else digitsValue (t.takeWhile isDigit)

/-- The index of the colour that a word names. -/
def writtenColor (s : CStr) : ℤ :=
  if (ascii "color").isPrefixOf s then decimalValue (s.drop (ascii "color").length)
  else indexIn colorNameStrings s

/-- The attributes are those that some of the words name. -/
def IsAttrs (words : List CStr) (attr : UInt32) : Prop :=
  ∀ n, attr.toNat.testBit n ↔
    ∃ entry ∈ cursesAttrMap, entry.1 ∈ words ∧ entry.2.toNat.testBit n

/-- An accepted line changes the slot it names, from which its colours and
attributes are read back, and a rejected one changes none. -/
def ReadsBack (cd : List NbColor) (next : CStr) : Prop :=
  ((copyColor cd next).2 ≠ 0 → (copyColor cd next).1 = cd) ∧
    ((copyColor cd next).2 = 0 → ∃ type fg bg attrs, ∃ i : ℕ, ∃ c,
      lineWords next = type :: fg :: bg :: attrs ∧ colorTypeStrings[i]? = some type ∧
      (copyColor cd next).1[i]? = some c ∧
      ((getNbcolor c).1.toNat : ℤ) = writtenColor fg ∧
      ((getNbcolor c).2.1.toNat : ℤ) = writtenColor bg ∧
      IsAttrs attrs (getNbcolor c).2.2 ∧
      ∀ j : ℕ, j ≠ i → (copyColor cd next).1[j]? = cd[j]?)

/-- Half of a word. -/
def InHalf (n : ℤ) : Prop := 0 ≤ n ∧ n < 65536

/-- Where the parser takes the position and the two colours, their numbers fit
into half of a word. -/
def ColorsFit (next : CStr) : Prop :=
  ∀ type fg bg attrs, lineWords next = type :: fg :: bg :: attrs →
    0 ≤ getColorTypeIndex type → 0 ≤ getColorNameIndex fg → 0 ≤ getColorNameIndex bg →
    InHalf (writtenColor fg) ∧ InHalf (writtenColor bg)

/-! ## Numbers -/

theorem strtol_eq (s : CStr) : strtol s = clampLong (decimalValue s) := by
  rw [strtol, decimalValue]
  split
  · rfl
  · split
    · rfl
    · rfl

theorem clampLong_of_fits {n : ℤ} (hlow : -2 ^ 31 ≤ n) (hhigh : n < 2 ^ 31) :
    clampLong n = n := by
  rw [clampLong]
  omega

theorem indexIn_lt (strings : List CStr) (s : CStr) :
    indexIn strings s < strings.length ∨ indexIn strings s = -1 := by
  rw [indexIn]
  split
  · next i hi =>
      obtain ⟨hlt, -⟩ := List.findIdx?_eq_some_iff_getElem.mp hi
      exact Or.inl (by exact_mod_cast hlt)
  · exact Or.inr rfl

/-- A colour that fits into an `int` is taken as it is written. -/
theorem getColorNameIndex_of_fits
    {s : CStr} (hlow : -2 ^ 31 ≤ writtenColor s) (hhigh : writtenColor s < 2 ^ 31) :
    getColorNameIndex s = writtenColor s := by
  rw [writtenColor] at hlow hhigh ⊢
  rw [getColorNameIndex]
  split
  · next hcolor =>
      rw [if_pos hcolor] at hlow hhigh
      rw [strtol_eq, clampLong_of_fits hlow hhigh]
      exact toInt_of_fits hlow hhigh
  · rfl

theorem getColorNameIndex_of_inHalf {s : CStr} (h : InHalf (writtenColor s)) :
    getColorNameIndex s = writtenColor s := by
  obtain ⟨hlow, hhigh⟩ := h
  exact getColorNameIndex_of_fits (by omega) (by omega)

theorem getColorNameIndex_lt (s : CStr) : getColorNameIndex s < 2 ^ 31 := by
  rw [getColorNameIndex]
  split
  · have hplace := Int.bmod_lt (x := strtol (s.drop (ascii "color").length)) (m := 2 ^ 32) (by decide)
    exact hplace
  · rcases indexIn_lt colorNameStrings s with hlt | hnone
    · exact Int.lt_trans hlt (by decide)
    · rw [hnone]
      decide

theorem toNat_toUnsigned {n : ℤ} (hlow : 0 ≤ n) (hhigh : n < 2 ^ 31) :
    ((toUnsigned n).toNat : ℤ) = n := by
  rw [toUnsigned, UInt32.toNat_ofNat']
  omega

/-! ## The two halves -/

theorem getNbcolor_low (cfi cbi attr : UInt32) :
    (getNbcolor (setNbcolor cfi cbi attr)).1.toNat = cfi.toNat % 65536 := by
  have hmask : (65535 : UInt32).toNat = 2 ^ 16 - 1 := rfl
  have hshift : (cbi <<< 16).toNat % 2 ^ 16 = 0 := by
    rw [UInt32.toNat_shiftLeft, Nat.shiftLeft_eq]
    have hamount : (16 : UInt32).toNat % 32 = 16 := rfl
    rw [hamount]
    omega
  simp only [getNbcolor, setNbcolor]
  rw [UInt32.toNat_and, UInt32.toNat_or, hmask, Nat.and_two_pow_sub_one_eq_mod,
    Nat.or_mod_two_pow, hshift, Nat.or_zero]

theorem getNbcolor_high {cfi : UInt32} (hfit : cfi.toNat < 65536) (cbi attr : UInt32) :
    (getNbcolor (setNbcolor cfi cbi attr)).2.1.toNat = cbi.toNat % 65536 := by
  have hamount : (16 : UInt32).toNat % 32 = 16 := rfl
  have hlow : cfi.toNat >>> 16 = 0 := by
    rw [Nat.shiftRight_eq_div_pow]
    exact Nat.div_eq_of_lt hfit
  simp only [getNbcolor, setNbcolor]
  rw [UInt32.toNat_shiftRight, UInt32.toNat_or, hamount, Nat.shiftRight_or_distrib, hlow,
    Nat.zero_or, UInt32.toNat_shiftLeft, hamount, Nat.shiftLeft_eq, Nat.shiftRight_eq_div_pow]
  omega

/-! ## The attributes -/

theorem getColorAttr_testBit (v : CStr) (n : ℕ) :
    (getColorAttr v).toNat.testBit n ↔
      ∃ entry ∈ cursesAttrMap, entry.1 = v ∧ entry.2.toNat.testBit n := by
  have hnodup : (cursesAttrMap.map Prod.fst).Nodup := by decide
  rw [getColorAttr]
  cases hfind : cursesAttrMap.find? fun entry => entry.1 == v with
  | none =>
      refine iff_of_false (by simp) ?_
      rintro ⟨entry, hmem, hname, -⟩
      have hother := List.find?_eq_none.mp hfind entry hmem
      exact hother (by simpa using hname)
  | some found =>
      have hname : found.1 = v := by simpa using List.find?_some hfind
      have hmem := List.mem_of_find?_eq_some hfind
      constructor
      · intro hbit
        exact ⟨found, hmem, hname, hbit⟩
      · rintro ⟨entry, hentry, hname', hbit⟩
        have hsame : entry = found :=
          List.inj_on_of_nodup_map hnodup hentry hmem (hname'.trans hname.symm)
        rwa [hsame] at hbit

theorem foldl_attrs_testBit (words : List CStr) (cat : UInt32) (n : ℕ) :
    (words.foldl (fun cat v => cat ||| getColorAttr v) cat).toNat.testBit n ↔
      cat.toNat.testBit n ∨
        ∃ entry ∈ cursesAttrMap, entry.1 ∈ words ∧ entry.2.toNat.testBit n := by
  induction words generalizing cat with
  | nil => simp
  | cons v words ih =>
      rw [List.foldl_cons, ih, UInt32.toNat_or, Nat.testBit_or, Bool.or_eq_true,
        getColorAttr_testBit, or_assoc]
      refine or_congr_right ?_
      simp only [List.mem_cons, or_and_right, and_or_left, exists_or]

theorem isAttrs_colorAttrs (next : CStr) : IsAttrs (lineWords next) (colorAttrs next) := by
  intro n
  rw [colorAttrs, foldl_attrs_testBit]
  simp

/-! ## One line -/

/-- What `copy_color` does, by the words of the line. -/
theorem copyColor_cases (cd : List NbColor) (next : CStr) :
    (copyColor cd next = (cd, 1) ∧ ∀ type fg bg attrs, lineWords next = type :: fg :: bg :: attrs →
      getColorTypeIndex type < 0 ∨ getColorNameIndex fg < 0 ∨ getColorNameIndex bg < 0) ∨
    ∃ type fg bg rest, lineWords next = type :: fg :: bg :: lineWords rest ∧
      0 ≤ getColorTypeIndex type ∧ 0 ≤ getColorNameIndex fg ∧ 0 ≤ getColorNameIndex bg ∧
      copyColor cd next = (cd.set (getColorTypeIndex type).toNat
        (setNbcolor (toUnsigned (getColorNameIndex fg)) (toUnsigned (getColorNameIndex bg))
          (colorAttrs rest)), 0) := by
  unfold copyColor
  dsimp only
  rcases htype : getLineWord next with - | ⟨type, next₁⟩
  · refine Or.inl ⟨rfl, ?_⟩
    rw [getLineWord_eq_none_iff.mp htype]
    rintro _ _ _ _ ⟨⟩
  · rw [lineWords_cons htype]
    dsimp only
    by_cases hcti : getColorTypeIndex type < 0
    · refine Or.inl ⟨if_pos hcti, ?_⟩
      intro type' fg bg attrs hwords
      rw [← (List.cons.inj hwords).1]
      exact Or.inl hcti
    · rw [if_neg hcti]
      rcases hfg : getLineWord next₁ with - | ⟨fg, next₂⟩
      · refine Or.inl ⟨rfl, ?_⟩
        rw [getLineWord_eq_none_iff.mp hfg, lineWords_nil]
        rintro _ _ _ _ ⟨⟩
      · rw [lineWords_cons hfg]
        dsimp only
        by_cases hcfi : getColorNameIndex fg < 0
        · refine Or.inl ⟨if_pos hcfi, ?_⟩
          intro type' fg' bg attrs hwords
          rw [← (List.cons.inj (List.cons.inj hwords).2).1]
          exact Or.inr (Or.inl hcfi)
        · rw [if_neg hcfi]
          rcases hbg : getLineWord next₂ with - | ⟨bg, rest⟩
          · refine Or.inl ⟨rfl, ?_⟩
            rw [getLineWord_eq_none_iff.mp hbg, lineWords_nil]
            rintro _ _ _ _ ⟨⟩
          · rw [lineWords_cons hbg]
            dsimp only
            by_cases hcbi : getColorNameIndex bg < 0
            · refine Or.inl ⟨if_pos hcbi, ?_⟩
              rintro _ _ _ _ ⟨⟩
              exact Or.inr (Or.inr hcbi)
            · rw [if_neg hcbi]
              exact Or.inr ⟨type, fg, bg, rest, rfl, Int.not_lt.mp hcti, Int.not_lt.mp hcfi,
                Int.not_lt.mp hcbi, rfl⟩

theorem getColorTypeIndex_spec {s : CStr} (h : 0 ≤ getColorTypeIndex s) :
    (getColorTypeIndex s).toNat < 8 ∧ colorTypeStrings[(getColorTypeIndex s).toNat]? = some s := by
  rw [getColorTypeIndex, indexIn] at h ⊢
  cases hfind : colorTypeStrings.findIdx? (· == s) with
  | none =>
      rw [hfind] at h
      exact absurd h (by decide)
  | some i =>
      obtain ⟨hlt, hname, -⟩ := List.findIdx?_eq_some_iff_getElem.mp hfind
      refine ⟨hlt, ?_⟩
      dsimp only
      rw [Int.toNat_natCast, List.getElem?_eq_getElem hlt, eq_of_beq hname]

/-- Packing and unpacking two indices that the parser has taken. -/
theorem halves_iff
    {fg bg : CStr} (hfg : 0 ≤ getColorNameIndex fg) (hbg : 0 ≤ getColorNameIndex bg)
    (attr : UInt32) :
    let c := setNbcolor (toUnsigned (getColorNameIndex fg)) (toUnsigned (getColorNameIndex bg)) attr
    (((getNbcolor c).1.toNat : ℤ) = writtenColor fg ∧
        ((getNbcolor c).2.1.toNat : ℤ) = writtenColor bg) ↔
      InHalf (writtenColor fg) ∧ InHalf (writtenColor bg) := by
  intro c
  have hcfi := toNat_toUnsigned hfg (getColorNameIndex_lt fg)
  have hcbi := toNat_toUnsigned hbg (getColorNameIndex_lt bg)
  have hlow : (getNbcolor c).1.toNat = (toUnsigned (getColorNameIndex fg)).toNat % 65536 :=
    getNbcolor_low ..
  have hhigh : InHalf (writtenColor fg) →
      (getNbcolor c).2.1.toNat = (toUnsigned (getColorNameIndex bg)).toNat % 65536 := by
    intro hfit
    apply getNbcolor_high
    have hfg' := getColorNameIndex_of_inHalf hfit
    obtain ⟨-, hlt⟩ := hfit
    omega
  constructor
  · rintro ⟨hreadFg, hreadBg⟩
    have hfit : InHalf (writtenColor fg) := by
      rw [← hreadFg, hlow]
      exact ⟨by omega, by omega⟩
    refine ⟨hfit, ?_⟩
    rw [← hreadBg, hhigh hfit]
    exact ⟨by omega, by omega⟩
  · rintro ⟨hfitFg, hfitBg⟩
    have hsameFg := getColorNameIndex_of_inHalf hfitFg
    have hsameBg := getColorNameIndex_of_inHalf hfitBg
    rw [hlow, hhigh hfitFg]
    obtain ⟨-, hltFg⟩ := hfitFg
    obtain ⟨-, hltBg⟩ := hfitBg
    exact ⟨by omega, by omega⟩

/-- What an accepted line writes. -/
theorem copyColor_writes
    {cd : List NbColor} (hcd : cd.length = 8) {next type : CStr} {c : NbColor}
    (hcti : 0 ≤ getColorTypeIndex type)
    (haccepted : copyColor cd next = (cd.set (getColorTypeIndex type).toNat c, 0)) :
    ∃ i : ℕ, i < colorTypeStrings.length ∧ colorTypeStrings[i]? = some type ∧
      (copyColor cd next).1[i]? = some c ∧ ∀ j : ℕ, j ≠ i → (copyColor cd next).1[j]? = cd[j]? := by
  obtain ⟨hlt, hslot⟩ := getColorTypeIndex_spec hcti
  rw [haccepted]
  exact ⟨_, hlt, hslot, List.getElem?_set_self (hcd ▸ hlt), fun j hj =>
    List.getElem?_set_ne (Ne.symm hj)⟩

theorem ReadsBack.colorsFit
    {cd : List NbColor} (hcd : cd.length = 8) {next : CStr} (h : ReadsBack cd next) :
    ColorsFit next := by
  intro type' fg' bg' attrs' hwords' hcti' hcfi' hcbi'
  rcases copyColor_cases cd next with
    ⟨-, hbad⟩ | ⟨type, fg, bg, rest, hwords, hcti, hcfi, hcbi, haccepted⟩
  · have hsome := hbad type' fg' bg' attrs' hwords'
    omega
  · obtain ⟨i, hlt, hslot, hc, -⟩ := copyColor_writes hcd hcti haccepted
    obtain ⟨_, _, _, _, i', c, hline, htype, hget, hfg, hbg, -⟩ := h.2 (by rw [haccepted])
    rw [hwords] at hwords' hline
    cases hwords'
    cases hline
    -- each position has one name
    have hnodup : colorTypeStrings.Nodup := by decide
    obtain rfl : i = i' := (List.getElem?_inj hlt hnodup).mp (hslot.trans htype.symm)
    obtain rfl := Option.some.inj (hc.symm.trans hget)
    exact (halves_iff hcfi hcbi _).mp ⟨hfg, hbg⟩

/-- A colour line is read back as it is written just if its colours fit into the
halves of a word. -/
theorem readsBack_iff
    {cd : List NbColor} (hcd : cd.length = 8) (next : CStr) :
    ReadsBack cd next ↔ ColorsFit next := by
  refine ⟨ReadsBack.colorsFit hcd, fun hfit => ?_⟩
  rcases copyColor_cases cd next with
    ⟨hrejected, -⟩ | ⟨type, fg, bg, rest, hwords, hcti, hcfi, hcbi, haccepted⟩
  · rw [ReadsBack, hrejected]
    exact ⟨fun _ => rfl, fun hzero => absurd hzero Int.one_ne_zero⟩
  · obtain ⟨i, -, hslot, hc, hothers⟩ := copyColor_writes hcd hcti haccepted
    obtain ⟨hfg, hbg⟩ := (halves_iff hcfi hcbi _).mpr
      (hfit type fg bg (lineWords rest) hwords hcti hcfi hcbi)
    refine ⟨fun hne => absurd (by rw [haccepted]) hne, fun _ => ?_⟩
    exact ⟨type, fg, bg, lineWords rest, i, _, hwords, hslot, hc, hfg, hbg,
      isAttrs_colorAttrs rest, hothers⟩

def unsetColors : List NbColor := List.replicate 8 .unset

theorem readsBack_listfocus :
    ReadsBack unsetColors (ascii "listfocus color208 black bold underline") := by
  refine (readsBack_iff (by decide) _).mpr ?_
  rintro type fg bg attrs hwords - - -
  have hline : lineWords (ascii "listfocus color208 black bold underline") =
      [ascii "listfocus", ascii "color208", ascii "black", ascii "bold", ascii "underline"] := by
    decide
  rw [hline] at hwords
  cases hwords
  rw [InHalf, InHalf]
  decide

/-- A foreground of 65537 spills into the background and comes out as 1, and
4294967296 is taken for the colour 0. -/
theorem large_color_spills :
    (((copyColor unsetColors (ascii "info color65537 black")).1[5]?).map getNbcolor) =
        some (1, 1, 0) ∧
      ¬ReadsBack unsetColors (ascii "info color65537 black") ∧
      (((copyColor unsetColors (ascii "info color4294967296 black")).1[5]?).map getNbcolor) =
        some (0, 0, 0) ∧
      ¬ReadsBack unsetColors (ascii "info color4294967296 black") := by
  refine ⟨by decide, ?_, by decide, ?_⟩
  · intro h
    have hfit := h.colorsFit (by decide) (ascii "info") (ascii "color65537") (ascii "black") []
      (by decide) (by decide) (by decide) (by decide)
    exact absurd hfit.1.2 (by decide)
  · intro h
    have hfit := h.colorsFit (by decide) (ascii "info") (ascii "color4294967296") (ascii "black") []
      (by decide) (by decide) (by decide) (by decide)
    exact absurd hfit.1.2 (by decide)

end Config
end Newsbaoter
