import Newsbaoter.View.Inside
import Newsbaoter.View.Cursor

/-!
# A terminal that keeps its size

The two leftovers that lead out of bounds come from a taller terminal.  While the
terminal is not resized, the last row and the saved row are rows of the body, so
every step is possible.
-/

namespace Newsbaoter
namespace View

open Newsbaoter.Support
open Newsbaoter.Cache (Db Refresh)

/-- The terminal has rows for the last row of the listing and the saved row. -/
structure Reaches (s : Ui) : Prop where
  last : s.contentBwMax < s.terminal.bodyHeight
  saved : s.backupCursorI < s.terminal.bodyHeight

/-- The body has the height of the terminal, too. -/
structure Roomy (s : Ui) : Prop extends Reaches s where
  bodyLen : s.mw.bodyLen = s.terminal.bodyHeight

variable {config : Config} {s t : Ui}

/-! ## The handlers -/

theorem Roomy.withCursor (h : Roomy s) (cursor : ℕ) : Roomy { s with cursorI := cursor } :=
  ⟨⟨h.last, h.saved⟩, h.bodyLen⟩

theorem Roomy.restyled (h : Roomy s) : Roomy (restyled s) :=
  ⟨⟨h.last, h.saved⟩, h.bodyLen⟩

theorem Roomy.listAfter (h : Roomy s) (change : Db → Db) : Roomy (listAfter config change s).1 :=
  ⟨⟨h.last, h.saved⟩, h.bodyLen⟩

theorem Roomy.viewToFeeds (h : Roomy s) : Roomy (viewToFeeds config s) :=
  ⟨⟨h.last, h.saved⟩, h.bodyLen⟩

theorem Roomy.nextRow (h : Roomy s) : Roomy (nextRow config s).1 := by
  rw [View.nextRow]
  split
  · exact h.withCursor _
  · split
    · dsimp only
      split
      · exact ⟨⟨h.last, h.saved⟩, h.bodyLen⟩
      · exact ⟨⟨h.last, h.saved⟩, h.bodyLen⟩
    · exact h

theorem Roomy.prevRow (h : Roomy s) : Roomy (prevRow config s).1 := by
  rw [View.prevRow]
  split
  · exact h.withCursor _
  · split
    · exact ⟨⟨h.last, h.saved⟩, h.bodyLen⟩
    · exact h

/-- The row that is saved is that of the cursor. -/
theorem Handled.roomy {k : Key} (h : Handled config s k t) (hs : Roomy s) (hbounds : InBounds s) :
    Roomy t := by
  cases h with
  | same => exact hs
  | next => exact hs.restyled.nextRow.restyled
  | prev => exact hs.restyled.prevRow.restyled
  | row _ i => exact (hs.restyled.withCursor i).restyled
  | listed _ change => exact hs.listAfter change
  | focused _ change => exact (hs.listAfter change).restyled
  | emptied hexit change => exact (hs.listAfter change).viewToFeeds
  | exited => exact (hs.withCursor s.backupCursorI).viewToFeeds
  | opened id hfeeds => exact ⟨⟨hs.last, hs.bodyLen ▸ hbounds.cursorI⟩, hs.bodyLen⟩
  | missed id hfeeds => exact ⟨⟨hs.last, hs.saved⟩, hs.bodyLen⟩
  | redrawn => exact ⟨⟨hs.last, hs.saved⟩, hs.bodyLen⟩

/-! ## Painting -/

theorem drawRows_lt
    {width bound : ℕ} {i n : ℕ} {r : Cells × ℕ} (hn : i + n ≤ bound) (hr : r.2 < bound) :
    (drawRows width i n r).2 < bound := by
  induction n generalizing i r with
  | zero => exact hr
  | succ n ih =>
      rw [drawRows]
      apply ih (by omega)
      dsimp only
      split
      · omega
      · exact hr

theorem Reaches.resizeMainwindow (h : Reaches s) (ht : resizeMainwindow s = some t) : Roomy t := by
  rw [View.resizeMainwindow] at ht
  split at ht
  · obtain ⟨u, hu, ht⟩ := Option.bind_eq_some_iff.mp ht
    cases ht
    obtain ⟨-, hu⟩ := Option.ite_none_right_eq_some.mp hu
    cases hu
    exact ⟨⟨h.last, h.saved⟩, rfl⟩
  · cases ht
    exact ⟨⟨h.last, h.saved⟩, rfl⟩

/-- A resize that is pending is done first. -/
theorem Reaches.updateView
    (h : Reaches s) (hsize : s.newsize = false → s.mw.bodyLen = s.terminal.bodyHeight)
    (ht : updateView config s = some t) : Roomy t := by
  have hdrawn : ∀ u : Ui, Roomy u →
      (if u.mw.bodyLen ≤ u.bwLen then some (drawLines u) else none) = some t → Roomy t := by
    intro u hu hdraw
    split at hdraw
    · cases hdraw
      refine ⟨⟨?_, hu.saved⟩, hu.bodyLen⟩
      apply drawRows_lt
      · exact Nat.le_of_eq ((Nat.zero_add _).trans hu.bodyLen)
      · exact hu.last
    · cases hdraw
  rw [View.updateView] at ht
  split at ht
  · obtain ⟨u, hu, ht⟩ := Option.bind_eq_some_iff.mp ht
    obtain ⟨v, hv, rfl⟩ := Option.map_eq_some_iff.mp hu
    have hresized := h.resizeMainwindow hv
    exact hdrawn (requestListUpdate config { v with newsize := false }).1
      ⟨⟨hresized.last, hresized.saved⟩, hresized.bodyLen⟩ ht
  · next hnewsize => exact hdrawn s ⟨h, hsize (Bool.eq_false_iff.mpr hnewsize)⟩ ht

theorem Roomy.updateView (h : Roomy s) (ht : updateView config s = some t) : Roomy t :=
  h.toReaches.updateView (fun _ => h.bodyLen) ht

/-! ## The steps -/

theorem Roomy.inside {e : Event} (he : ¬e.IsWinch) (h : Roomy s) : Inside s e := by
  have hlast := h.last
  have hsaved := h.saved
  rw [← h.bodyLen] at hlast hsaved
  cases e with
  | winch terminal fresh => exact absurd trivial he
  | fetch rs ended => trivial
  | key k =>
      cases k with
      | exit => exact fun _ => Or.inl hsaved
      | next => exact fun hmore => Nat.lt_of_le_of_lt hmore hlast
      | low => exact hlast
      | mid => exact Nat.lt_of_le_of_lt (Nat.div_le_self _ 2) hlast
      | _ => trivial

theorem roomy_step
    {e : Event} (he : ¬e.IsWinch) (h : Roomy s) (hbounds : InBounds s)
    (hstep : step config s e = some t) : Roomy t := by
  cases e with
  | winch terminal fresh => exact absurd trivial he
  | fetch rs ended =>
      rw [step, handleUrls] at hstep
      split at hstep
      · exact (h.listAfter _).updateView hstep
      · cases hstep
        exact ⟨⟨h.last, h.saved⟩, h.bodyLen⟩
  | key k =>
      obtain ⟨r, hr, hafter⟩ := Option.bind_eq_some_iff.mp hstep
      have hprocessed := (handled_of_processKey hr).roomy h hbounds
      rw [afterKey] at hafter
      split at hafter
      · cases hafter
        exact hprocessed
      · exact hprocessed.updateView hafter
      · exact hprocessed.updateView hafter

/-- All indices are in bounds, and stay there while nothing is resized. -/
structure Safe (s : Ui) : Prop extends InBounds s, Roomy s

theorem Safe.withDb (h : Safe s) (db : Db) : Safe { s with mw.db := db } :=
  ⟨⟨h.bwLen, h.cursorI⟩, ⟨⟨h.last, h.saved⟩, h.bodyLen⟩⟩

theorem Safe.requestListUpdate (h : Safe s) : Safe (requestListUpdate config s).1 :=
  ⟨⟨h.bwLen, h.cursorI⟩, ⟨⟨h.last, h.saved⟩, h.bodyLen⟩⟩

theorem Safe.updateView (config : Config) (h : Safe s) :
    ∃ t, updateView config s = some t ∧ Safe t := by
  obtain ⟨t, ht, hbounds⟩ := updateView_of_inBounds config h.toInBounds
  exact ⟨t, ht, hbounds, h.toRoomy.updateView ht⟩

theorem safe_step (config : Config) {e : Event} (he : ¬e.IsWinch) (h : Safe s) :
    ∃ t, step config s e = some t ∧ Safe t := by
  obtain ⟨t, ht, hbounds⟩ :=
    (step_inBounds_iff config s e h.toInBounds).mpr (h.toRoomy.inside he)
  exact ⟨t, ht, hbounds, roomy_step he h.toRoomy h.toInBounds ht⟩

theorem safe_startUi
    (config : Config) (db : Db) (terminal : Terminal) (fresh : Lines) (rs : List Refresh)
    (winch : Option (Terminal × Lines)) :
    ∃ s, startUi config db terminal fresh rs winch = some s ∧ Safe s := by
  obtain ⟨s, hs, hbounds⟩ := startUi_inBounds config db terminal fresh rs winch
  have hstart := hs
  rw [startUi, setupUi_eq, Option.bind_eq_bind, Option.bind_some] at hs
  refine ⟨s, hstart, hbounds, ?_⟩
  cases winch with
  | none =>
      exact Reaches.updateView ⟨terminal.bodyHeight_pos, terminal.bodyHeight_pos⟩ (fun _ => rfl) hs
  | some w =>
      exact Reaches.updateView ⟨w.1.bodyHeight_pos, w.1.bodyHeight_pos⟩
        (fun hsame => Bool.noConfusion hsame) hs

end View
end Newsbaoter
