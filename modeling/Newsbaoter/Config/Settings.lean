import Newsbaoter.Config.ColorLine
import Newsbaoter.Config.Ready
import Newsbaoter.Support.Writes

/-!
# What an options file sets

Each option writes one field, and what it writes does not depend on what was there.
So a setting is what the last accepted line about it says, or else the default.
-/

namespace Newsbaoter
namespace Config

open Newsbaoter.Support

/-! ## What a line says -/

/-- The word that `copy_str` takes. -/
def saidStr (next : CStr) : Option CStr :=
  (getLineWord next).map Prod.fst

/-- The number that `copy_int` takes. -/
def saidInt (next : CStr) : Option ℤ :=
  (getLineWord next).map fun (v, _) =>
    if v.head? = some 121 ∨ v.head? = some 89 then 1
    else if v.head? = some 110 ∨ v.head? = some 78 then 0
    else toInt (strtol v)

/-- The vector that `copy_strarr` takes. -/
def saidStrarr (next : CStr) : Option (List CStr) :=
  if next = [] then none else some (nulStrings (lineWords next).length (punch next.length next))

/-- The slot that `copy_color` writes, and what it writes. -/
def saidColor (next : CStr) : Option (ℕ × NbColor) :=
  match lineWords next with
  | type :: fg :: bg :: attrs =>
      if 0 ≤ getColorTypeIndex type ∧ 0 ≤ getColorNameIndex fg ∧ 0 ≤ getColorNameIndex bg then
        some ((getColorTypeIndex type).toNat,
          setNbcolor (toUnsigned (getColorNameIndex fg)) (toUnsigned (getColorNameIndex bg))
            (attrs.foldl (fun cat v => cat ||| getColorAttr v) 0))
      else none
  | _ => none

theorem copyStr_said (sd : Option CStr) (next : CStr) :
    (copyStr sd next).1 = (saidStr next).or sd := by
  rw [copyStr, saidStr]
  cases getLineWord next with
  | none => rfl
  | some word => rfl

theorem copyInt_said (id : ℤ) (next : CStr) : (copyInt id next).1 = (saidInt next).getD id := by
  rw [copyInt, saidInt]
  rcases getLineWord next with - | ⟨v, rest⟩
  · rfl
  · dsimp only [Option.map_some, Option.getD_some]
    split
    · rfl
    · split
      · rfl
      · rfl

theorem copyStrarr_said (sd : Option (List CStr)) (next : CStr) :
    (copyStrarr sd next).1 = (saidStrarr next).or sd := by
  rw [saidStrarr]
  split
  · next hnil =>
      rw [hnil, copyStrarr_nil]
      rfl
  · next hne =>
      obtain ⟨args, hargs, -⟩ := copyStrarr_of_ne_nil sd hne
      rw [copyStrarr] at hargs ⊢
      split
      · next hlen =>
          rw [if_pos hlen] at hargs
          cases hargs
      · rfl

theorem copyColor_said (cd : List NbColor) (next : CStr) :
    (copyColor cd next).1 = (saidColor next).elim cd fun w => cd.set w.1 w.2 := by
  rw [saidColor]
  rcases copyColor_cases cd next with
    ⟨hrejected, hbad⟩ | ⟨type, fg, bg, rest, hwords, hcti, hcfi, hcbi, haccepted⟩
  · rw [hrejected]
    split
    · next type fg bg attrs hwords =>
        have hnone := hbad type fg bg attrs hwords
        rw [if_neg (by omega)]
        rfl
    · rfl
  · rw [haccepted, hwords]
    dsimp only
    rw [if_pos ⟨hcti, hcfi, hcbi⟩]
    rfl

/-! ## The last line about an option -/

/-- The rests of the lines about an option. -/
def linesAbout (name : String) (bufs : List CStr) : List CStr :=
  ((optionLines bufs).filter fun line => line.1 == ascii name).map Prod.snd

def lastSaid {α : Type} (said : CStr → Option α) (nexts : List CStr) : Option α :=
  (nexts.filterMap said).getLast?

/-! ## One option -/

section Field

variable {α : Type} {mbtowc : CStr → Option UInt32} {name : String} {get : NbConfig → α}
  {update : α → CStr → α}

/-- The option leaves the field alone. -/
def Leaves (get : NbConfig → α) (process : Process) : Prop :=
  ∀ next g r, process next g = some r → get r.1.config = get g.config

theorem leaves_onField
    {β : Type} {handler : β → CStr → β × ℤ} {field : NbConfig → β} {put : β → NbConfig → NbConfig}
    (hput : ∀ v c, get (put v c) = get c) : Leaves get (onField handler field put) := by
  rintro next g r ⟨⟩
  exact hput _ _

theorem leaves_configBindKey {binds : Bool} : Leaves get (configBindKey mbtowc binds) := by
  intro next g r h
  have hconfig : r.1.config = g.config := by
    rw [configBindKey] at h
    repeat' split at h
    all_goals
      first
      | cases h
        rfl
      | obtain ⟨keys, -, rfl⟩ := Option.map_eq_some_iff.mp h
        rfl
  rw [hconfig]

/-- Lines about `name` update the field in this way, and no other line does. -/
def Writes (mbtowc : CStr → Option UInt32) (name : String) (get : NbConfig → α)
    (update : α → CStr → α) : Prop :=
  ∀ line g g', applyOption mbtowc g line = some g' →
    get g'.config = if line.1 = ascii name then update (get g.config) line.2 else get g.config

theorem nodup_optionNames : ((configOptions mbtowc).map Prod.fst).Nodup := by
  simp only [configOptions, List.map_cons, List.map_nil]
  decide

theorem findConfig_of_mem {option : CStr × Process} (h : option ∈ configOptions mbtowc) :
    findConfig mbtowc option.1 = some option.2 := by
  rw [findConfig, Option.map_eq_some_iff]
  cases hfind : (configOptions mbtowc).find? fun o => o.1 == option.1 with
  | none => exact absurd (beq_self_eq_true option.1) (List.find?_eq_none.mp hfind option h)
  | some found =>
      have hname : found.1 = option.1 := by simpa using List.find?_some hfind
      have hsame : found = option :=
        List.inj_on_of_nodup_map nodup_optionNames (List.mem_of_find?_eq_some hfind) h hname
      exact ⟨found, rfl, congrArg Prod.snd hsame⟩

/-- The option at index `k` alone is about the field. -/
theorem writes_of_options
    {handler : α → CStr → α × ℤ} {put : α → NbConfig → NbConfig} (k : ℕ)
    (hown : (configOptions mbtowc)[k]? = some (ascii name, onField handler get put))
    (hput : ∀ v c, get (put v c) = v)
    (hothers : ∀ option ∈ (configOptions mbtowc).eraseIdx k, Leaves get option.2) :
    Writes mbtowc name get fun v next => (handler v next).1 := by
  have hfindOwn := findConfig_of_mem (List.mem_of_getElem? hown)
  rintro ⟨word, next⟩ g g' happly
  rw [applyOption] at happly
  dsimp only at happly hfindOwn ⊢
  by_cases hname : word = ascii name
  · rw [hname, hfindOwn] at happly
    cases happly
    rw [if_pos hname]
    exact hput _ _
  · rw [if_neg hname]
    cases hfind : findConfig mbtowc word with
    | none =>
        rw [hfind] at happly
        cases happly
        rfl
    | some process =>
        rw [hfind] at happly
        obtain ⟨r, hr, rfl⟩ := Option.map_eq_some_iff.mp happly
        obtain ⟨option, hfound, rfl⟩ := Option.map_eq_some_iff.mp hfind
        have hword : option.1 = word := by simpa using List.find?_some hfound
        refine hothers option ?_ next g r hr
        rw [List.mem_eraseIdx_iff_getElem?]
        obtain ⟨j, hj⟩ := List.getElem?_of_mem (List.mem_of_find?_eq_some hfound)
        refine ⟨j, ?_, hj⟩
        rintro rfl
        rw [hown] at hj
        cases hj
        exact hname hword.symm

/-- The lines of a file, one after the other. -/
theorem Writes.run
    (h : Writes mbtowc name get update) {bufs : List CStr} {g g' : Globals}
    (hread : readOptions mbtowc bufs g = some g') :
    get g'.config = (linesAbout name bufs).foldl update (get g.config) := by
  rw [readOptions_eq_foldlM] at hread
  rw [linesAbout]
  generalize optionLines bufs = lines at hread
  induction lines generalizing g with
  | nil =>
      cases hread
      rfl
  | cons line lines ih =>
      rw [List.foldlM_cons] at hread
      obtain ⟨g₁, hline, hrest⟩ := Option.bind_eq_some_iff.mp hread
      rw [ih hrest, h line g g₁ hline, List.filter_cons]
      by_cases hname : line.1 = ascii name
      · rw [if_pos hname, if_pos (beq_iff_eq.mpr hname), List.map_cons, List.foldl_cons]
      · rw [if_neg hname, if_neg (fun heq => hname (beq_iff_eq.mp heq))]

end Field

/-! ## The fields -/

/-- Each field is written by its option alone. -/
theorem writes_fields (mbtowc : CStr → Option UInt32) :
    Writes mbtowc "proxy" NbConfig.proxy (fun v next => (copyStr v next).1) ∧
    Writes mbtowc "download-retries" NbConfig.dlRetries (fun v next => (copyInt v next).1) ∧
    Writes mbtowc "auto-reload" NbConfig.autoReload (fun v next => (copyInt v next).1) ∧
    Writes mbtowc "reload-time" NbConfig.reloadTime (fun v next => (copyInt v next).1) ∧
    Writes mbtowc "show-read-feeds" NbConfig.showReadFeeds (fun v next => (copyInt v next).1) ∧
    Writes mbtowc "show-read-articles" NbConfig.showReadEntries
      (fun v next => (copyInt v next).1) ∧
    Writes mbtowc "reload-threads" NbConfig.parallelReload (fun v next => (copyInt v next).1) ∧
    Writes mbtowc "confirm-exit" NbConfig.confirmExit (fun v next => (copyInt v next).1) ∧
    Writes mbtowc "notify-beep" NbConfig.notifyBeep (fun v next => (copyInt v next).1) ∧
    Writes mbtowc "color" NbConfig.colors (fun v next => (copyColor v next).1) ∧
    Writes mbtowc "cache-retention" NbConfig.entryRetention (fun v next => (copyInt v next).1) ∧
    Writes mbtowc "pager" NbConfig.pager (fun v next => (copyStrarr v next).1) ∧
    Writes mbtowc "downloader" NbConfig.downloader (fun v next => (copyStrarr v next).1) ∧
    Writes mbtowc "html-pager" NbConfig.htmlPager (fun v next => (copyInt v next).1) := by
  refine ⟨writes_of_options 0 rfl (fun _ _ => rfl) ?_, writes_of_options 1 rfl (fun _ _ => rfl) ?_,
    writes_of_options 2 rfl (fun _ _ => rfl) ?_, writes_of_options 3 rfl (fun _ _ => rfl) ?_,
    writes_of_options 4 rfl (fun _ _ => rfl) ?_, writes_of_options 5 rfl (fun _ _ => rfl) ?_,
    writes_of_options 6 rfl (fun _ _ => rfl) ?_, writes_of_options 7 rfl (fun _ _ => rfl) ?_,
    writes_of_options 8 rfl (fun _ _ => rfl) ?_, writes_of_options 9 rfl (fun _ _ => rfl) ?_,
    writes_of_options 12 rfl (fun _ _ => rfl) ?_, writes_of_options 13 rfl (fun _ _ => rfl) ?_,
    writes_of_options 14 rfl (fun _ _ => rfl) ?_, writes_of_options 15 rfl (fun _ _ => rfl) ?_⟩
  all_goals
    simp only [configOptions, List.eraseIdx_cons_zero, List.eraseIdx_cons_succ, List.forall_mem_cons,
      List.not_mem_nil, IsEmpty.forall_iff, implies_true, and_true]
    refine ⟨?_, ?_, ?_, ?_, ?_, ?_, ?_, ?_, ?_, ?_, ?_, ?_, ?_, ?_, ?_⟩
    all_goals
      first
      | exact leaves_onField fun _ _ => rfl
      | exact leaves_configBindKey

/-! ## All lines -/

/-- What a line says about slot `i`. -/
def saidSlot (i : ℕ) (next : CStr) : Option NbColor :=
  (saidColor next).bind fun w => if w.1 = i then some w.2 else none

theorem foldl_copyInt (nexts : List CStr) (v : ℤ) :
    nexts.foldl (fun v next => (copyInt v next).1) v = (lastSaid saidInt nexts).getD v := by
  simp only [copyInt_said]
  exact foldl_getD saidInt nexts v

theorem foldl_copyStr (nexts : List CStr) (v : Option CStr) :
    nexts.foldl (fun v next => (copyStr v next).1) v = (lastSaid saidStr nexts).or v := by
  simp only [copyStr_said]
  exact foldl_or saidStr nexts v

theorem foldl_copyStrarr (nexts : List CStr) (v : Option (List CStr)) :
    nexts.foldl (fun v next => (copyStrarr v next).1) v = (lastSaid saidStrarr nexts).or v := by
  simp only [copyStrarr_said]
  exact foldl_or saidStrarr nexts v

theorem foldl_copyColor (nexts : List CStr) (cd : List NbColor) (i : ℕ) :
    (nexts.foldl (fun cd next => (copyColor cd next).1) cd)[i]? =
      cd[i]?.map fun c => (lastSaid (saidSlot i) nexts).getD c := by
  have hsets : nexts.foldl (fun cd next => (copyColor cd next).1) cd =
      (nexts.filterMap saidColor).foldl (fun cd w => cd.set w.1 w.2) cd := by
    rw [List.foldl_filterMap]
    refine List.foldl_ext _ _ _ fun cd next _ => ?_
    rw [copyColor_said]
    cases saidColor next with
    | none => rfl
    | some w => rfl
  rw [hsets, getElem?_foldl_set, List.filterMap_filterMap]
  rfl

/-- A slot after the lines. -/
theorem colors_of_readOptions
    {mbtowc : CStr → Option UInt32} {bufs : List CStr} {keys : KeyTable}
    {handlers : List (CStr × Option Handler)} {g : Globals}
    (hread : readOptions mbtowc bufs ⟨defaultConfig, keys, handlers⟩ = some g) (i : ℕ) :
    g.config.colors[i]? = (List.replicate 8 NbColor.unset)[i]?.map fun c =>
      (lastSaid (saidSlot i) (linesAbout "color" bufs)).getD c := by
  obtain ⟨-, -, -, -, -, -, -, -, -, hcolors, -⟩ := writes_fields mbtowc
  rw [hcolors.run hread, foldl_copyColor]
  rfl

/-- Each setting is what the last line about it says that its option accepts, or the
default. -/
structure HasSettings (bufs : List CStr) (c : NbConfig) : Prop where
  proxy : c.proxy = lastSaid saidStr (linesAbout "proxy" bufs)
  dlRetries : c.dlRetries = (lastSaid saidInt (linesAbout "download-retries" bufs)).getD 1
  autoReload : c.autoReload = (lastSaid saidInt (linesAbout "auto-reload" bufs)).getD 1
  reloadTime : c.reloadTime = (lastSaid saidInt (linesAbout "reload-time" bufs)).getD 30
  showReadFeeds : c.showReadFeeds = (lastSaid saidInt (linesAbout "show-read-feeds" bufs)).getD 1
  showReadEntries :
    c.showReadEntries = (lastSaid saidInt (linesAbout "show-read-articles" bufs)).getD 1
  parallelReload : c.parallelReload = (lastSaid saidInt (linesAbout "reload-threads" bufs)).getD 5
  confirmExit : c.confirmExit = (lastSaid saidInt (linesAbout "confirm-exit" bufs)).getD 0
  notifyBeep : c.notifyBeep = (lastSaid saidInt (linesAbout "notify-beep" bufs)).getD 0
  entryRetention :
    c.entryRetention = (lastSaid saidInt (linesAbout "cache-retention" bufs)).getD 259200
  pager : c.pager = some
    ((lastSaid saidStrarr (linesAbout "pager" bufs)).getD [ascii "/usr/bin/less"])
  downloader : c.downloader = lastSaid saidStrarr (linesAbout "downloader" bufs)
  htmlPager : c.htmlPager = (lastSaid saidInt (linesAbout "html-pager" bufs)).getD 0
  colors : c.colors = (List.range 8).map fun i =>
    (lastSaid (saidSlot i) (linesAbout "color" bufs)).getD .unset

/-- Whatever an options file has, in whatever order: each setting is what the last
accepted line about it says, or else its default. -/
theorem options_settings
    {mbtowc : CStr → Option UInt32} {bufs : List CStr} {g : Globals}
    (hread : readConfigOptionsFile mbtowc (some bufs) = some g) :
    HasSettings bufs g.config := by
  obtain ⟨g₀, hg₀, hread⟩ := Option.bind_eq_some_iff.mp hread
  obtain ⟨g₁, hoptions, rfl⟩ := Option.map_eq_some_iff.mp hread
  obtain ⟨keys, -, rfl⟩ := Option.map_eq_some_iff.mp hg₀
  obtain ⟨hproxy, hretries, hreload, htime, hfeeds, hentries, hthreads, hconfirm, hbeep, -,
    hretention, hpager, hdownloader, hhtml⟩ := writes_fields mbtowc
  constructor
  case proxy => exact (hproxy.run hoptions).trans ((foldl_copyStr _ _).trans (Option.or_none))
  case dlRetries => exact (hretries.run hoptions).trans (foldl_copyInt _ _)
  case autoReload => exact (hreload.run hoptions).trans (foldl_copyInt _ _)
  case reloadTime => exact (htime.run hoptions).trans (foldl_copyInt _ _)
  case showReadFeeds => exact (hfeeds.run hoptions).trans (foldl_copyInt _ _)
  case showReadEntries => exact (hentries.run hoptions).trans (foldl_copyInt _ _)
  case parallelReload => exact (hthreads.run hoptions).trans (foldl_copyInt _ _)
  case confirmExit => exact (hconfirm.run hoptions).trans (foldl_copyInt _ _)
  case notifyBeep => exact (hbeep.run hoptions).trans (foldl_copyInt _ _)
  case entryRetention => exact (hretention.run hoptions).trans (foldl_copyInt _ _)
  case pager =>
      have hlast : g₁.config.pager = lastSaid saidStrarr (linesAbout "pager" bufs) :=
        (hpager.run hoptions).trans ((foldl_copyStrarr _ _).trans (Option.or_none))
      rw [fixUp, hlast]
      cases lastSaid saidStrarr (linesAbout "pager" bufs) with
      | none => rfl
      | some args => rfl
  case downloader =>
      exact (hdownloader.run hoptions).trans ((foldl_copyStrarr _ _).trans (Option.or_none))
  case htmlPager => exact (hhtml.run hoptions).trans (foldl_copyInt _ _)
  case colors =>
      refine List.ext_getElem? fun i => ?_
      rw [fixUp]
      dsimp only
      rw [colors_of_readOptions hoptions, List.getElem?_map, List.getElem?_replicate]
      by_cases hi : i < 8
      · rw [if_pos hi, List.getElem?_range hi]
        rfl
      · rw [if_neg hi, List.getElem?_eq_none (by rw [List.length_range]; exact Nat.le_of_not_lt hi)]
        rfl

/-- A line that is rejected does not count, nor does one before another. -/
theorem later_lines_settle :
    ∃ g, readConfigOptionsFile mbtowcC (some [ascii "reload-time 10", ascii "color info red",
        ascii "reload-time 5", ascii "reload-time"]) = some g ∧
      HasSettings [ascii "reload-time 10", ascii "color info red", ascii "reload-time 5",
        ascii "reload-time"] g.config ∧
      g.config.reloadTime = 5 := by
  have hread : (readConfigOptionsFile mbtowcC (some [ascii "reload-time 10",
      ascii "color info red", ascii "reload-time 5", ascii "reload-time"])).isSome = true := by
    decide +kernel
  obtain ⟨g, hg⟩ := Option.isSome_iff_exists.mp hread
  have hsettings := options_settings hg
  refine ⟨g, hg, hsettings, hsettings.reloadTime.trans ?_⟩
  decide

end Config
end Newsbaoter
