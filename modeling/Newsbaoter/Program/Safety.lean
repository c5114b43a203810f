import Newsbaoter.Config.Dispatch
import Newsbaoter.Program.Runs
import Newsbaoter.View.Unresized

/-!
# What can go wrong

The program comes to its loop if its two files fit into their tables.  While the
terminal is not resized, only a key can then lead out of an array: one without a
binding, when 32 keys have one.
-/

namespace Newsbaoter
namespace Program

open Newsbaoter.Support
open Newsbaoter.Cache (Db TimeLib)
open Newsbaoter.Config (BindingsFit boundKeys fileOps readConfigOptionsFile_isSome_iff)
open Newsbaoter.Fetch (Host)
open Newsbaoter.Hash (initialLoctabSize)
open Newsbaoter.Urls (tagNames urlLines urlparse_spec)
open Newsbaoter.View (Lines Safe Terminal)

/-! ## One turn -/

section Turns

variable {S : Settings} {host : Host} {w w' : World}

theorem safe_updateView (S : Settings) (h : Safe w.ui) :
    ∃ w', updateView S w = some w' ∧ Safe w'.ui := by
  obtain ⟨ui, hview, hsafe⟩ := h.updateView S.view
  exact ⟨_, by rw [updateView, hview]; rfl, hsafe⟩

theorem safe_handleUrls (S : Settings) (host : Host) (h : Safe w.ui) :
    Safe (handleUrls S host w).1.ui :=
  h.withDb _

theorem safe_cycleEnded (S : Settings) (uret : ℤ) (h : Safe w.ui) :
    ∃ w', cycleEnded S uret w = some w' ∧ Safe w'.ui :=
  safe_updateView S (w := { w with
    beepRequest := uret ≠ 0 ∧ S.globals.config.notifyBeep ≠ 0
    ui := (View.requestListUpdate S.view w.ui).1 }) h.requestListUpdate

theorem safe_refreshAll (S : Settings) (host : Host) (h : Safe w.ui) :
    ∃ w', refreshAll S host w = some w' ∧ Safe w'.ui := by
  have hcalled := safe_handleUrls S host h
  rw [refreshAll]
  generalize handleUrls S host w = r at hcalled ⊢
  split
  · exact safe_cycleEnded S r.2 hcalled
  · exact ⟨r.1, rfl, hcalled⟩

theorem safe_onFetch (S : Settings) (host : Host) (later : ℤ) (h : Safe w.ui) :
    ∃ w', onFetch S host later w = some w' ∧ Safe w'.ui := by
  have hcalled := safe_handleUrls S host h
  rw [onFetch]
  generalize handleUrls S host w = r at hcalled ⊢
  split
  · exact safe_cycleEnded S r.2 (w := { r.1 with lastTime := later }) hcalled
  · exact ⟨r.1, rfl, hcalled⟩

/-- A key of the window is handled, and what is then to do is possible. -/
theorem safe_viewKey (S : Settings) (k : View.Key) (yes : Bool) (h : Safe w.ui) :
    ∃ r o, View.processKey S.view k w.ui = some r ∧
      afterKey S yes ({ w with ui := r.1 }, r.2) = some o ∧ ∀ w', o = .goes w' → Safe w'.ui := by
  obtain ⟨ui, hstep, hsafe⟩ :=
    View.safe_step S.view (e := .key k) (by simp [View.Event.IsWinch]) h
  obtain ⟨⟨s, ret⟩, hr, hafter⟩ := Option.bind_eq_some_iff.mp hstep
  refine ⟨(s, ret), ?_⟩
  have hpainted : View.updateView S.view s = some ui →
      ∃ w', updateView S { w with ui := s } = some w' ∧ Safe w'.ui := by
    intro hview
    exact ⟨_, by rw [updateView, hview]; rfl, hsafe⟩
  rw [afterKey]
  cases ret with
  | ok =>
      cases hafter
      refine ⟨_, hr, rfl, ?_⟩
      rintro w' ⟨⟩
      exact hsafe
  | update =>
      obtain ⟨w₁, hw₁, hsafe₁⟩ := hpainted hafter
      refine ⟨.goes w₁, hr, by rw [hw₁]; rfl, ?_⟩
      rintro w' ⟨⟩
      exact hsafe₁
  | exit =>
      obtain ⟨w₁, hw₁, hsafe₁⟩ := hpainted hafter
      dsimp only
      split
      · refine ⟨.goes w₁, hr, by rw [hw₁]; rfl, ?_⟩
        rintro w' ⟨⟩
        exact hsafe₁
      · exact ⟨.leaves, hr, rfl, fun w' hgoes => by cases hgoes⟩

/-- A key can be handled just if it can be looked up. -/
theorem safe_onKey
    (host : Host) (ch : UInt32) (yes : Bool) (h : Safe w.ui) :
    ((onKey S host ch yes w).isSome ↔ (Config.processKey ch S.globals.keys).isSome) ∧
      ∀ w', onKey S host ch yes w = some (.goes w') → Safe w'.ui := by
  rw [onKey]
  cases hkey : Config.processKey ch S.globals.keys with
  | none => exact ⟨Iff.rfl, fun w' hgoes => by cases hgoes⟩
  | some kh =>
      rw [Option.bind_some]
      cases kh with
      | none =>
          refine ⟨Iff.rfl, ?_⟩
          rintro w' ⟨⟩
          exact h
      | some handler =>
          dsimp only
          rw [callHandler]
          cases hk : viewKey handler with
          | none =>
              obtain ⟨w₁, hw₁, hsafe⟩ := safe_refreshAll S host h
              dsimp only
              rw [hw₁]
              refine ⟨Iff.rfl, ?_⟩
              rintro w' ⟨⟩
              exact hsafe
          | some k =>
              obtain ⟨r, o, hr, ho, hsafe⟩ := safe_viewKey S k yes h
              dsimp only
              rw [hr, Option.map_some, Option.bind_some, ho]
              refine ⟨Iff.rfl, ?_⟩
              rintro w' ⟨⟩
              exact hsafe w' rfl

theorem safe_slept (h : Safe w.ui) (t : Turn) :
    Safe (slept t.left (waits S t.now t.fds t.timeo w)).ui := by
  rw [(sameButTime_slept S t.now t.fds t.timeo t.left w).ui]
  exact h

/-- Without a resize, a turn comes to its second `if` just if its key can be
looked up. -/
theorem safe_upToFetch
    (host : Host) {t : Turn} (hwinch : t.winch = none) (hwinch' : t.winch' = none)
    (h : Safe w.ui) :
    ((upToFetch S host t w).isSome ↔
        (t.found = true → (Config.processKey t.ch S.globals.keys).isSome)) ∧
      ∀ w', upToFetch S host t w = some (.goes w') → Safe w'.ui := by
  have hslept := safe_slept (S := S) h t
  obtain ⟨hfound, hkeyed⟩ := safe_onKey host t.ch t.yes hslept
  rw [upToFetch, hwinch, hwinch', Option.isSome_map]
  by_cases hkey : t.found = true
  · rw [if_pos hkey, forall_prop_of_true hkey]
    refine ⟨hfound, fun w' hgoes => ?_⟩
    obtain ⟨o, ho, hgoes⟩ := Option.map_eq_some_iff.mp hgoes
    cases o with
    | leaves => cases hgoes
    | goes w₁ =>
        cases hgoes
        exact hkeyed w₁ ho
  · rw [if_neg hkey]
    refine ⟨iff_of_true rfl fun h => absurd h hkey, ?_⟩
    rintro w' ⟨⟩
    exact hslept

/-- Behind it every turn is possible. -/
theorem safe_turn
    (S : Settings) (host : Host) {t : Turn} (hwinch : t.winch = none) (hwinch' : t.winch' = none)
    (h : Safe w.ui) :
    ((turn S host t w).isSome ↔
        (t.found = true → (Config.processKey t.ch S.globals.keys).isSome)) ∧
      ∀ w', turn S host t w = some (.goes w') → Safe w'.ui := by
  obtain ⟨hup, hsafe⟩ := safe_upToFetch (S := S) host hwinch hwinch' h
  rw [← hup, turn]
  cases hgoes : upToFetch S host t w with
  | none => exact ⟨Iff.rfl, fun w' hnone => by cases hnone⟩
  | some o =>
      cases o with
      | leaves => exact ⟨iff_of_true rfl rfl, fun w' hleaves => by cases hleaves⟩
      | goes w₁ =>
          rw [Option.bind_some]
          dsimp only
          split
          · obtain ⟨w₂, hw₂, hfetched⟩ := safe_onFetch S host t.later (hsafe w₁ hgoes)
            rw [hw₂]
            refine ⟨iff_of_true rfl rfl, ?_⟩
            rintro w' ⟨⟩
            exact hfetched
          · refine ⟨iff_of_true rfl rfl, ?_⟩
            rintro w' ⟨⟩
            exact hsafe _ hgoes

theorem turn_of_step {t : Turn} (hstep : step S host w t = some w') :
    turn S host t w = some (.goes w') := by
  obtain ⟨o, ho, hgoes⟩ := Option.bind_eq_some_iff.mp hstep
  cases o with
  | leaves => cases hgoes
  | goes w₁ =>
      cases hgoes
      exact ho

end Turns

/-! ## Runs -/

section Runs

variable {host : Host} {db : Db} {terminal : Terminal} {fresh : Lines} {now : ℤ}
  {winch : Option (Terminal × Lines)}

theorem safe_start (S : Settings) (host : Host) (urls : List CStr) (db : Db) (terminal : Terminal)
    (fresh : Lines) (now : ℤ) (winch : Option (Terminal × Lines)) :
    ∃ w₀, start S host urls db terminal fresh now winch = some w₀ ∧ Safe w₀.ui := by
  obtain ⟨rs, hrs⟩ := (loads S host urls db terminal fresh now).ui
  obtain ⟨ui, hui, hsafe⟩ := View.safe_startUi S.view db terminal fresh rs winch
  rw [View.startUi, View.setupUi_eq] at hui
  have hview : View.updateView S.view (resized winch (loaded S host urls db terminal fresh now)).ui =
      some ui := by
    rw [resized, hrs]
    exact hui
  exact ⟨_, by rw [start_eq, updateView, hview]; rfl, hsafe⟩

theorem not_resizes_cons {ts : List Turn} {t : Turn} :
    ¬Resizes (t :: ts) ↔ (t.winch = none ∧ t.winch' = none) ∧ ¬Resizes ts := by
  simp [Resizes]

theorem not_resizes_concat {ts : List Turn} {t : Turn} :
    ¬Resizes (ts ++ [t]) ↔ ¬Resizes ts ∧ t.winch = none ∧ t.winch' = none := by
  simp [Resizes, forall_and]

theorem safe_runs
    {S : Settings} {w w' : World} {ts : List Turn} (hts : ¬Resizes ts) (h : Safe w.ui)
    (hrun : runs (step S host) w ts = some w') : Safe w'.ui := by
  induction ts generalizing w with
  | nil =>
      cases hrun
      exact h
  | cons t ts ih =>
      rw [runs_cons] at hrun
      obtain ⟨w₁, hstep, hrest⟩ := Option.bind_eq_some_iff.mp hrun
      obtain ⟨⟨hwinch, hwinch'⟩, hrests⟩ := not_resizes_cons.mp hts
      exact ih hrests ((safe_turn S host hwinch hwinch' h).2 w₁ (turn_of_step hstep)) hrest

/-- The program comes to its loop just if its two files fit into their tables.  In
every run without a resize a turn is then possible, with all indices in bounds,
unless it is about a key without a binding and 32 keys have one. -/
theorem main_safe
    (mbtowc : CStr → Option UInt32) (time : TimeLib) (locale : View.Locale) (host : Host)
    (options : Option (List CStr)) (urlFile : List CStr) (db : Db) (terminal : Terminal)
    (fresh : Lines) (now : ℤ) (winch : Option (Terminal × Lines)) :
    ((main mbtowc time locale host options urlFile db terminal fresh now winch).isSome ↔
        BindingsFit (fileOps mbtowc options) ∧
          (tagNames (urlLines urlFile)).card ≤ initialLoctabSize) ∧
      ∀ S w₀, main mbtowc time locale host options urlFile db terminal fresh now winch =
          some (S, w₀) →
        ∀ ts t w, ¬Resizes (ts ++ [t]) → runs (step S host) w₀ ts = some w →
          View.InBounds w.ui ∧
            ((turn S host t w).isSome ↔
              (t.found = true → t.ch ∈ boundKeys (fileOps mbtowc options) ∨
                (boundKeys (fileOps mbtowc options)).card < initialLoctabSize)) := by
  have hstarts : ∀ S urls, ∃ w₀, start S host urls db terminal fresh now winch = some w₀ ∧
      Safe w₀.ui := fun S urls => safe_start S host urls db terminal fresh now winch
  constructor
  · rw [← readConfigOptionsFile_isSome_iff, ← (urlparse_spec urlFile).1, main]
    cases Config.readConfigOptionsFile mbtowc options with
    | none => simp
    | some globals =>
        cases Urls.urlparse urlFile with
        | none => simp
        | some tags =>
            obtain ⟨w₀, hw₀, -⟩ :=
              hstarts ⟨globals, time, locale⟩ (tags.urls.map Fetch.UrlItem.url)
            simp [hw₀]
  · intro S w₀ hmain ts t w hresizes hrun
    obtain ⟨globals, hglobals, hmain⟩ := Option.bind_eq_some_iff.mp hmain
    obtain ⟨tags, -, hmain⟩ := Option.bind_eq_some_iff.mp hmain
    obtain ⟨w₁, hstart, hmain⟩ := Option.bind_eq_some_iff.mp hmain
    cases hmain
    obtain ⟨w₂, hw₂, hsafe⟩ :=
      hstarts ⟨globals, time, locale⟩ (tags.urls.map Fetch.UrlItem.url)
    rw [hstart] at hw₂
    cases hw₂
    obtain ⟨hbefore, hnone⟩ := not_resizes_concat.mp hresizes
    have hreached := safe_runs hbefore hsafe hrun
    refine ⟨hreached.toInBounds, ?_⟩
    rw [(safe_turn ⟨globals, time, locale⟩ host hnone.1 hnone.2 hreached).1,
      Config.processKey_eq (Config.runs_fileOps hglobals)]
    refine forall_congr' fun _ => ?_
    split
    · next hfound => exact iff_of_true rfl hfound
    · next hfound => exact iff_of_false Bool.false_ne_true hfound

end Runs

end Program
end Newsbaoter
