import Newsbaoter.Config.Settings

/-!
# The colours of the styles

`setup_ui` calls `init_pair` for each style: first with the defaults, which also fill
the slots that the options file has left unset, then with what the slots hold.  The
windows of a style get its pair and the attributes of its slot.
-/

namespace Newsbaoter
namespace Styles

open Newsbaoter.Config (Globals IsAttrs NbColor colorTypeStrings colors_of_readOptions fixUp
  foldl_attrs_testBit getColorAttr getColorNameIndex getColorNameIndex_of_fits getColorTypeIndex_spec
  getNbcolor halves_iff lastSaid lineWords linesAbout mbtowcC ncursesBit readConfigOptionsFile
  saidColor saidSlot setNbcolor toUnsigned writtenColor)
open Newsbaoter.Support

/-- `global_config.colors`, and the calls of `init_pair` in their order. -/
structure Palette where
  colors : List NbColor
  calls : List (ℕ × ℤ × ℤ)

/-- A number passed as a `short`. -/
def toShort (v : UInt32) : ℤ :=
  Int.bmod v.toNat (2 ^ 16)

/-- The colours are parameters of type `short`. -/
def callInitPair (n : ℕ) (f b : UInt32) (p : Palette) : Palette :=
  { p with calls := p.calls ++ [(n, toShort f, toShort b)] }

/-- What `set_color_pair` leaves of a slot. -/
def orSet (f b a : UInt32) (c : NbColor) : NbColor :=
  if !c.set then setNbcolor f b a else c

def setColorPair (n : ℕ) (f b a : UInt32) (p : Palette) : Palette :=
  callInitPair n f b { p with colors := p.colors.modify n (orSet f b a) }

/-- `CP_ALERT` -/
def cpAlert : ℕ := 9

/-- White is 7, cyan 6, blue 4 and red 1. -/
def setDefaultColors (p : Palette) : Palette :=
  let p := setColorPair 1 7 0 0 p
  let p := setColorPair 3 7 0 0 p
  let p := setColorPair 2 6 0 (ncursesBit 13) p
  let p := setColorPair 4 6 0 (ncursesBit 13) p
  let p := setColorPair 5 7 4 0 p
  let p := setColorPair 6 7 0 0 p
  let p := setColorPair 7 7 0 0 p
  callInitPair cpAlert 7 1 p

/-- One round of `set_config_colors`. -/
def setConfigColor (p : Palette) (i : ℕ) : Palette :=
  match p.colors[i]? with
  | some c =>
      if c.set then callInitPair i (getNbcolor c).1 (getNbcolor c).2.1 p
      else p
  | none => p

def setConfigColors (p : Palette) : Palette :=
  (List.range 8).foldl setConfigColor p

/-- What `setup_ui` makes of the slots. -/
def setupColors (colors : List NbColor) : Palette :=
  setConfigColors (setDefaultColors ⟨colors, []⟩)

/-- The colours of the last call for pair `n`. -/
def lastCall (n : ℕ) (p : Palette) : Option (ℤ × ℤ) :=
  ((p.calls.filter fun call => call.1 == n).getLast?).map Prod.snd

/-- `restyle_window`: the attributes and the pair of a window. -/
def restyleWindow (style : ℕ) (p : Palette) : Option (UInt32 × ℕ) :=
  p.colors[style]?.map fun c => (c.attr, style)

/-- The default of a slot. -/
def defaultColor (n : ℕ) : NbColor :=
  if n = 2 ∨ n = 4 then setNbcolor 6 0 (ncursesBit 13)
  else if n = 5 then setNbcolor 7 4 0
  else setNbcolor 7 0 0

/-- The colours of a slot, as they are passed. -/
def passed (c : NbColor) : ℤ × ℤ :=
  (toShort (getNbcolor c).1, toShort (getNbcolor c).2.1)

/-! ## The calls -/

theorem lastCall_callInitPair_self (n : ℕ) (f b : UInt32) (p : Palette) :
    lastCall n (callInitPair n f b p) = some (toShort f, toShort b) := by
  rw [lastCall, callInitPair, List.filter_append, List.getLast?_append]
  simp

theorem lastCall_callInitPair_of_ne {n m : ℕ} (h : n ≠ m) (f b : UInt32) (p : Palette) :
    lastCall n (callInitPair m f b p) = lastCall n p := by
  rw [lastCall, lastCall, callInitPair, List.filter_append]
  simp [h.symm]

/-- The slot of a style, and the last call for it. -/
def HasColor (p : Palette) (n : ℕ) (c : NbColor) : Prop :=
  p.colors[n]? = some c ∧ lastCall n p = some (passed c)

theorem colors_setConfigColor (p : Palette) (i : ℕ) : (setConfigColor p i).colors = p.colors := by
  rw [setConfigColor]
  repeat' split
  all_goals rfl

theorem lastCall_setConfigColor_of_ne {n i : ℕ} (h : n ≠ i) (p : Palette) :
    lastCall n (setConfigColor p i) = lastCall n p := by
  rw [setConfigColor]
  repeat' split
  · exact lastCall_callInitPair_of_ne h _ _ p
  · rfl
  · rfl

theorem hasColor_setConfigColor_self
    {p : Palette} {n : ℕ} {c : NbColor} (hc : p.colors[n]? = some c) (hset : c.set = true) :
    HasColor (setConfigColor p n) n c := by
  refine ⟨(congrArg (·[n]?) (colors_setConfigColor p n)).trans hc, ?_⟩
  rw [setConfigColor, hc]
  dsimp only
  rw [if_pos hset]
  exact lastCall_callInitPair_self n _ _ p

/-- The rounds up to `k` have called `init_pair` for the slots below it, whatever the
calls before. -/
theorem hasColor_rounds
    {p : Palette} {n k : ℕ} {c : NbColor} (hc : p.colors[n]? = some c) (hset : c.set = true)
    (hn : n < k) : HasColor ((List.range k).foldl setConfigColor p) n c := by
  induction k with
  | zero => exact absurd hn (Nat.not_lt_zero n)
  | succ k ih =>
      have hkept : ((List.range k).foldl setConfigColor p).colors = p.colors :=
        List.foldlRecOn (motive := fun q : Palette => q.colors = p.colors) (List.range k) _ rfl
          fun q hq i _ => (colors_setConfigColor q i).trans hq
      rw [List.range_succ, List.foldl_append, List.foldl_cons, List.foldl_nil]
      by_cases heq : n = k
      · subst heq
        exact hasColor_setConfigColor_self ((congrArg (·[n]?) hkept).trans hc) hset
      · obtain ⟨hslot, hcall⟩ := ih (by omega)
        exact ⟨(congrArg (·[n]?) (colors_setConfigColor _ k)).trans hslot,
          (lastCall_setConfigColor_of_ne heq _).trans hcall⟩

theorem lastCall_cpAlert (colors : List NbColor) :
    lastCall cpAlert (setupColors colors) = some (7, 1) := by
  have hdefault : lastCall cpAlert (setDefaultColors ⟨colors, []⟩) = some (7, 1) := by
    have hwhite : toShort 7 = 7 := by decide
    have hred : toShort 1 = 1 := by decide
    simp only [setDefaultColors, lastCall_callInitPair_self, hwhite, hred]
  rw [setupColors, setConfigColors]
  generalize setDefaultColors ⟨colors, []⟩ = p at hdefault ⊢
  refine List.foldlRecOn (motive := fun q : Palette => lastCall cpAlert q = some (7, 1))
    (List.range 8) _ hdefault fun q hq i hi => ?_
  have hne : cpAlert ≠ i := fun heq => absurd (List.mem_range.mp (heq ▸ hi)) (by decide)
  exact (lastCall_setConfigColor_of_ne hne q).trans hq

/-! ## The slots -/

/-- A slot after the defaults. -/
def filled (n : ℕ) (c : NbColor) : NbColor :=
  if c.set then c else defaultColor n

theorem set_filled (n : ℕ) (c : NbColor) : (filled n c).set = true := by
  rw [filled]
  split
  · assumption
  · rw [defaultColor]
    repeat' split
    all_goals rfl

theorem colors_setDefaultColors {colors : List NbColor} {n : ℕ} (hn : 1 ≤ n ∧ n < 8) :
    (setDefaultColors ⟨colors, []⟩).colors[n]? = colors[n]?.map (filled n) := by
  have hslots : n = 1 ∨ n = 2 ∨ n = 3 ∨ n = 4 ∨ n = 5 ∨ n = 6 ∨ n = 7 := by omega
  simp only [setDefaultColors, setColorPair, callInitPair, List.getElem?_modify]
  cases colors[n]? with
  | none => rfl
  | some c =>
      obtain rfl | rfl | rfl | rfl | rfl | rfl | rfl := hslots
      all_goals
        cases hset : c.set with
        | false => simp [orSet, filled, hset, defaultColor]
        | true => simp [orSet, filled, hset]

/-- The slots after the options file, if there is one. -/
theorem colors_of_file
    {mbtowc : CStr → Option UInt32} {file : Option (List CStr)} {g : Globals}
    (hread : readConfigOptionsFile mbtowc file = some g) {n : ℕ} (hn : n < 8) :
    g.config.colors[n]? =
      some ((lastSaid (saidSlot n) (linesAbout "color" (file.getD []))).getD .unset) := by
  obtain ⟨g₀, hg₀, hread⟩ := Option.bind_eq_some_iff.mp hread
  obtain ⟨keys, -, rfl⟩ := Option.map_eq_some_iff.mp hg₀
  have hunset : (List.replicate 8 NbColor.unset)[n]? = some .unset := by
    rw [List.getElem?_replicate, if_pos hn]
  cases file with
  | none =>
      cases hread
      exact hunset
  | some bufs =>
      obtain ⟨g₁, hoptions, rfl⟩ := Option.map_eq_some_iff.mp hread
      rw [fixUp]
      dsimp only
      rw [colors_of_readOptions hoptions, hunset]
      rfl

theorem hasColor_of_file
    {mbtowc : CStr → Option UInt32} {file : Option (List CStr)} {g : Globals}
    (hread : readConfigOptionsFile mbtowc file = some g) {n : ℕ} (hn : 1 ≤ n ∧ n < 8) :
    HasColor (setupColors g.config.colors) n
      (filled n ((lastSaid (saidSlot n) (linesAbout "color" (file.getD []))).getD .unset)) := by
  refine hasColor_rounds ?_ (set_filled n _) hn.2
  rw [colors_setDefaultColors hn, colors_of_file hread hn.2]
  rfl

/-! ## The lines -/

theorem isAttrs_foldl (words : List CStr) :
    IsAttrs words (words.foldl (fun cat v => cat ||| getColorAttr v) 0) := by
  intro n
  rw [foldl_attrs_testBit]
  simp

/-- An accepted line about a slot. -/
theorem saidSlot_cases {n : ℕ} {next : CStr} {c : NbColor} (h : saidSlot n next = some c) :
    ∃ type fg bg attrs, lineWords next = type :: fg :: bg :: attrs ∧
      colorTypeStrings[n]? = some type ∧ 0 ≤ getColorNameIndex fg ∧ 0 ≤ getColorNameIndex bg ∧
      c = setNbcolor (toUnsigned (getColorNameIndex fg)) (toUnsigned (getColorNameIndex bg))
        (attrs.foldl (fun cat v => cat ||| getColorAttr v) 0) := by
  obtain ⟨⟨i, c'⟩, hsaid, hc⟩ := Option.bind_eq_some_iff.mp h
  rw [saidColor] at hsaid
  split at hsaid
  · next type fg bg attrs hwords =>
      split at hsaid
      · next haccepted =>
          obtain ⟨hcti, hcfi, hcbi⟩ := haccepted
          obtain ⟨rfl, rfl⟩ := Prod.mk.inj (Option.some.inj hsaid)
          split at hc
          · next hn =>
              refine ⟨type, fg, bg, attrs, hwords, ?_, hcfi, hcbi, (Option.some.inj hc).symm⟩
              rw [← hn]
              exact (getColorTypeIndex_spec hcti).2
          · cases hc
      · cases hsaid
  · cases hsaid

/-- A colour that a `short` holds. -/
def InShort (n : ℤ) : Prop :=
  0 ≤ n ∧ n < 2 ^ 15

theorem toShort_bounds (v : UInt32) : -2 ^ 15 ≤ toShort v ∧ toShort v < 2 ^ 15 :=
  ⟨Int.le_bmod (by decide), Int.bmod_lt (by decide)⟩

theorem toShort_of_lt {v : UInt32} (h : (v.toNat : ℤ) < 2 ^ 15) : toShort v = v.toNat :=
  Int.bmod_eq_of_le (by omega) (by omega)

/-- Two indices that the parser has taken are passed as they are written just if a
`short` holds them. -/
theorem passed_iff
    {fg bg : CStr} (hfg : 0 ≤ getColorNameIndex fg) (hbg : 0 ≤ getColorNameIndex bg)
    (attr : UInt32) :
    passed (setNbcolor (toUnsigned (getColorNameIndex fg)) (toUnsigned (getColorNameIndex bg))
        attr) = (writtenColor fg, writtenColor bg) ↔
      InShort (writtenColor fg) ∧ InShort (writtenColor bg) := by
  have hhalves := halves_iff hfg hbg attr
  dsimp only at hhalves
  rw [passed, Prod.mk.injEq]
  generalize setNbcolor (toUnsigned (getColorNameIndex fg)) (toUnsigned (getColorNameIndex bg))
    attr = c at hhalves
  have hshort : ∀ {s : CStr} {v : UInt32}, 0 ≤ getColorNameIndex s →
      toShort v = writtenColor s → InShort (writtenColor s) := by
    intro s v hs hv
    obtain ⟨hlow, hhigh⟩ := toShort_bounds v
    rw [hv] at hlow hhigh
    rw [getColorNameIndex_of_fits (by omega) (by omega)] at hs
    exact ⟨hs, hhigh⟩
  constructor
  · rintro ⟨hf, hb⟩
    exact ⟨hshort hfg hf, hshort hbg hb⟩
  · rintro ⟨⟨hfLow, hfHigh⟩, ⟨hbLow, hbHigh⟩⟩
    obtain ⟨hf, hb⟩ := hhalves.mpr ⟨⟨hfLow, by omega⟩, ⟨hbLow, by omega⟩⟩
    rw [toShort_of_lt (by omega), toShort_of_lt (by omega)]
    exact ⟨hf, hb⟩

/-- The last line about a style that is accepted. -/
def lastAbout (n : ℕ) (file : Option (List CStr)) : Option CStr :=
  ((linesAbout "color" (file.getD [])).filter fun next => (saidSlot n next).isSome).getLast?

/-- A style is set up as a line says: its windows get the attributes of the line, and
its pair the colours, if a `short` holds them. -/
def SetUpAs (p : Palette) (n : ℕ) (next : CStr) : Prop :=
  ∃ type fg bg attrs, lineWords next = type :: fg :: bg :: attrs ∧
    colorTypeStrings[n]? = some type ∧
    (∃ a, restyleWindow n p = some (a, n) ∧ IsAttrs attrs a) ∧
    (lastCall n p = some (writtenColor fg, writtenColor bg) ↔
      InShort (writtenColor fg) ∧ InShort (writtenColor bg))

/-- A style has its default. -/
def SetUpByDefault (p : Palette) (n : ℕ) : Prop :=
  restyleWindow n p = some ((defaultColor n).attr, n) ∧
    lastCall n p = some (passed (defaultColor n))

theorem HasColor.setUpAs
    {p : Palette} {n : ℕ} {c : NbColor} {next : CStr} (h : HasColor p n (filled n c))
    (hsaid : saidSlot n next = some c) : SetUpAs p n next := by
  obtain ⟨type, fg, bg, attrs, hwords, htype, hcfi, hcbi, rfl⟩ := saidSlot_cases hsaid
  obtain ⟨hslot, hcall⟩ := h
  refine ⟨type, fg, bg, attrs, hwords, htype, ⟨_, ?_, isAttrs_foldl attrs⟩, ?_⟩
  · rw [restyleWindow, hslot]
    rfl
  · rw [hcall, Option.some.injEq]
    exact passed_iff hcfi hcbi _

/-- Each style is set up as the last accepted line about it says, or by default, and
no line is about the alert. -/
theorem styles_as_configured
    {mbtowc : CStr → Option UInt32} {file : Option (List CStr)} {g : Globals}
    (hread : readConfigOptionsFile mbtowc file = some g) :
    (∀ n, 1 ≤ n → n < 8 → (lastAbout n file).elim (SetUpByDefault (setupColors g.config.colors) n)
      (SetUpAs (setupColors g.config.colors) n)) ∧
    lastCall cpAlert (setupColors g.config.colors) = some (7, 1) := by
  refine ⟨fun n hone hlt => ?_, lastCall_cpAlert _⟩
  have hcolor := hasColor_of_file hread ⟨hone, hlt⟩
  rw [lastSaid, getLast?_filterMap] at hcolor
  rw [lastAbout]
  cases hlast : ((linesAbout "color" (file.getD [])).filter fun next =>
      (saidSlot n next).isSome).getLast? with
  | none =>
      rw [hlast] at hcolor
      obtain ⟨hslot, hcall⟩ := hcolor
      refine ⟨?_, hcall⟩
      rw [restyleWindow, hslot]
      rfl
  | some next =>
      obtain ⟨-, hsome⟩ := List.mem_filter.mp (List.mem_of_getLast? hlast)
      obtain ⟨c, hc⟩ := Option.isSome_iff_exists.mp hsome
      rw [hlast, Option.bind_some, hc] at hcolor
      exact hcolor.setUpAs hc

/-- Of two lines about `info` the second counts, and the focus keeps its default. -/
theorem info_as_configured :
    ∃ g, readConfigOptionsFile mbtowcC (some [ascii "color info red blue",
        ascii "color info green black bold"]) = some g ∧
      SetUpAs (setupColors g.config.colors) 5 (ascii "info green black bold") ∧
      SetUpByDefault (setupColors g.config.colors) 2 ∧
      lastCall cpAlert (setupColors g.config.colors) = some (7, 1) := by
  have hread : (readConfigOptionsFile mbtowcC (some [ascii "color info red blue",
      ascii "color info green black bold"])).isSome = true := by
    decide +kernel
  obtain ⟨g, hg⟩ := Option.isSome_iff_exists.mp hread
  obtain ⟨hstyles, halert⟩ := styles_as_configured hg
  have hinfo := hstyles 5 (by decide) (by decide)
  have hfocus := hstyles 2 (by decide) (by decide)
  have hlast : lastAbout 5 (some [ascii "color info red blue",
      ascii "color info green black bold"]) = some (ascii "info green black bold") := by
    decide
  have hnone : lastAbout 2 (some [ascii "color info red blue",
      ascii "color info green black bold"]) = none := by
    decide
  rw [hlast] at hinfo
  rw [hnone] at hfocus
  exact ⟨g, hg, hinfo, hfocus, halert⟩

end Styles
end Newsbaoter
