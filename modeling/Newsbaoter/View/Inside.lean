import Newsbaoter.Support.Run
import Newsbaoter.View.Keys

/-!
# Indices into the windows and the lines

`body_w` and `lv` have one element for each row of the body.  `cursor_i` stays
among them but for two leftovers of a taller terminal: the row saved when a feed
was opened, and the last row of a listing painted before the rows were fewer.
-/

namespace Newsbaoter
namespace View

open Newsbaoter.Support
open Newsbaoter.Cache (Db Refresh)

/-- The cursor is at a row that has a window and a line. -/
structure InBounds (s : Ui) : Prop where
  bwLen : s.bwLen = s.mw.bodyLen
  cursorI : s.cursorI < s.mw.bodyLen

instance (s : Ui) : Decidable (InBounds s) :=
  decidable_of_iff (s.bwLen = s.mw.bodyLen ∧ s.cursorI < s.mw.bodyLen)
    ⟨fun h => ⟨h.1, h.2⟩, fun h => ⟨h.bwLen, h.cursorI⟩⟩

/-! ## Painting -/

theorem restyleFocusItem_of_inBounds
    {s : Ui} (h : InBounds s) :
    restyleFocusItem s = some (restyled s) := by
  apply if_pos
  rw [h.bwLen]
  exact ⟨h.cursorI, h.cursorI⟩

theorem restyleFocusItem_eq_none
    {s : Ui} (hout : ¬s.cursorI < s.mw.bodyLen) :
    restyleFocusItem s = none :=
  if_neg fun h => hout h.2

theorem inBounds_restyled {s : Ui} (h : InBounds s) : InBounds (restyled s) :=
  ⟨h.bwLen, h.cursorI⟩

/-- A resize to fewer rows brings the cursor back in bounds. -/
theorem resizeMainwindow_inBounds_iff
    {s : Ui} (hlen : s.bwLen = s.mw.bodyLen) (hpos : 0 < s.mw.bodyLen) :
    (∃ t, resizeMainwindow s = some t ∧ InBounds t) ↔
      s.cursorI < s.mw.bodyLen ∨ s.terminal.bodyHeight < s.mw.bodyLen := by
  have hheight := s.terminal.bodyHeight_pos
  rw [resizeMainwindow]
  split
  · rw [regenWindows, hlen]
    by_cases hfewer : s.terminal.bodyHeight < s.mw.bodyLen
    · simp only [if_pos hfewer, if_pos (And.intro hheight (Or.inr hpos))]
      simp only [Option.bind_eq_bind, Option.bind_some, hfewer, or_true, iff_true]
      exact ⟨_, rfl, rfl, hheight⟩
    · simp only [hfewer, if_false, or_false]
      constructor
      · rintro ⟨t, ht, -⟩
        by_contra hout
        rw [if_neg (by omega)] at ht
        cases ht
      · intro hcursor
        rw [if_pos ⟨by omega, Or.inr hcursor⟩]
        exact ⟨_, rfl, rfl, by dsimp only; omega⟩
  · next hsame =>
      have hheights : s.mw.bodyLen = s.terminal.bodyHeight := by
        by_contra hne
        exact hsame (Or.inr hne)
      constructor
      · rintro ⟨t, ht, ht'⟩
        cases ht
        left
        rw [hheights]
        exact ht'.cursorI
      · intro hcursor
        exact ⟨_, rfl, hlen.trans hheights, by dsimp only; omega⟩

/-- Repainting itself uses no index but those of the rows. -/
theorem updateView_inBounds_iff
    (config : Config) {s : Ui} (hlen : s.bwLen = s.mw.bodyLen) (hpos : 0 < s.mw.bodyLen) :
    (∃ t, updateView config s = some t ∧ InBounds t) ↔
      s.cursorI < s.mw.bodyLen ∨
        s.newsize = true ∧ s.terminal.bodyHeight < s.mw.bodyLen := by
  rw [updateView]
  split
  · next hnew =>
      rw [and_iff_right hnew, ← resizeMainwindow_inBounds_iff hlen hpos]
      constructor
      · rintro ⟨t, ht, hbounds⟩
        cases hresize : resizeMainwindow s with
        | none => simp [hresize] at ht
        | some u =>
            refine ⟨u, rfl, ?_⟩
            simp only [hresize, Option.map_some, Option.bind_eq_bind, Option.bind_some] at ht
            split at ht
            · cases ht
              exact ⟨hbounds.bwLen, hbounds.cursorI⟩
            · cases ht
      · rintro ⟨u, hu, hbounds⟩
        refine ⟨drawLines (requestListUpdate config { u with newsize := false }).1, ?_, ?_⟩
        · simp only [hu, Option.map_some, Option.bind_eq_bind, Option.bind_some]
          exact if_pos (Nat.le_of_eq hbounds.bwLen.symm)
        · exact ⟨hbounds.bwLen, hbounds.cursorI⟩
  · next hnew =>
      simp only [hnew, Bool.false_eq_true, false_and, or_false, Option.bind_eq_bind,
        Option.bind_some]
      rw [if_pos (Nat.le_of_eq hlen.symm)]
      constructor
      · rintro ⟨t, ht, hbounds⟩
        cases ht
        exact hbounds.cursorI
      · intro hcursor
        exact ⟨_, rfl, hlen, hcursor⟩

theorem updateView_of_inBounds
    (config : Config) {s : Ui} (h : InBounds s) :
    ∃ t, updateView config s = some t ∧ InBounds t := by
  rw [updateView_inBounds_iff config h.bwLen (Nat.zero_lt_of_lt h.cursorI)]
  exact Or.inl h.cursorI

theorem afterKey_inBounds
    (config : Config) {r : Ui × KhRet} (h : InBounds r.1) :
    ∃ t, afterKey config r = some t ∧ InBounds t := by
  rw [afterKey]
  split
  · exact ⟨r.1, rfl, h⟩
  · exact updateView_of_inBounds config h
  · exact updateView_of_inBounds config h

/-! ## The handlers -/

theorem step_key_of_inBounds
    {config : Config} {s : Ui} {k : Key}
    (h : ∃ r, processKey config k s = some r ∧ InBounds r.1) :
    ∃ t, step config s (.key k) = some t ∧ InBounds t := by
  obtain ⟨r, hr, hbounds⟩ := h
  obtain ⟨t, ht, hbounds⟩ := afterKey_inBounds config hbounds
  exact ⟨t, by rw [step, hr, Option.bind_some, ht], hbounds⟩

theorem step_key_of_none
    {config : Config} {s : Ui} {k : Key} (h : processKey config k s = none) :
    ¬∃ t, step config s (.key k) = some t ∧ InBounds t := by
  rintro ⟨t, ht, -⟩
  rw [step, h, Option.bind_none] at ht
  cases ht

theorem idAtCursor_of_inBounds
    {s : Ui} (h : InBounds s) : idAtCursor s = some (s.mw.lv s.cursorI).id :=
  if_pos h.cursorI

theorem inBounds_requestListUpdate
    (config : Config) {s : Ui} (h : InBounds s) : InBounds (requestListUpdate config s).1 :=
  ⟨h.bwLen, h.cursorI⟩

theorem inBounds_listAfter
    {config : Config} {change : Db → Db} {s : Ui} (h : InBounds s) :
    InBounds (listAfter config change s).1 :=
  ⟨h.bwLen, h.cursorI⟩

theorem inBounds_orFeeds
    {config : Config} {r : Ui × Bool} (h : InBounds r.1) : InBounds (orFeeds config r) := by
  rw [orFeeds]
  split
  · exact ⟨h.bwLen, h.cursorI⟩
  · exact h

/-- A move that leaves the windows alone is possible just to a row in bounds. -/
theorem moveItem_of_inBounds
    {move : Ui → Ui × KhRet} {s : Ui} (h : InBounds s)
    (hmove : InBounds (move (restyled s)).1) :
    moveItem move s = some (restyled (move (restyled s)).1, (move (restyled s)).2) := by
  simp only [moveItem, restyleFocusItem_of_inBounds h, Option.bind_eq_bind, Option.bind_some,
    restyleFocusItem_of_inBounds hmove]

theorem moveItem_eq_none
    {move : Ui → Ui × KhRet} {s : Ui} (h : InBounds s)
    (hmove : ¬(move (restyled s)).1.cursorI < (move (restyled s)).1.mw.bodyLen) :
    moveItem move s = none := by
  simp only [moveItem, restyleFocusItem_of_inBounds h, Option.bind_eq_bind, Option.bind_some,
    restyleFocusItem_eq_none hmove, Option.bind_none]

theorem inBounds_prevRow
    (config : Config) {s : Ui} (h : InBounds s) : InBounds (prevRow config s).1 := by
  have hcursor := h.cursorI
  rw [prevRow]
  split
  · exact ⟨h.bwLen, by dsimp only; omega⟩
  · split
    · exact ⟨h.bwLen, Nat.sub_lt (Nat.zero_lt_of_lt hcursor) Nat.one_pos⟩
    · exact h

theorem selectItem_of_inBounds
    {config : Config} {s : Ui} (h : InBounds s) :
    ∃ r, selectItem config s = some r ∧ InBounds r.1 := by
  have hpos := Nat.zero_lt_of_lt h.cursorI
  have hopened : InBounds (openEntries (s.mw.lv s.cursorI).id s) := ⟨h.bwLen, h.cursorI⟩
  have hlisted := inBounds_requestListUpdate config hopened
  simp only [selectItem, idAtCursor_of_inBounds h, Option.bind_eq_bind, Option.bind_some]
  split
  · split
    · exact ⟨_, rfl, h.bwLen, h.cursorI⟩
    · rw [restyleFocusItem_of_inBounds hlisted, Option.bind_some]
      have htop : InBounds (toFirstRow (restyled
          (requestListUpdate config (openEntries (s.mw.lv s.cursorI).id s)).1)) :=
        ⟨h.bwLen, hpos⟩
      rw [restyleFocusItem_of_inBounds htop]
      exact ⟨_, rfl, inBounds_restyled htop⟩
  · exact ⟨_, rfl, inBounds_orFeeds (inBounds_listAfter h)⟩

theorem downloadItem_of_inBounds
    {config : Config} {s : Ui} (h : InBounds s) :
    ∃ r, downloadItem config s = some r ∧ InBounds r.1 := by
  rw [downloadItem]
  split
  · exact ⟨_, rfl, h⟩
  · rw [idAtCursor_of_inBounds h]
    exact ⟨_, rfl, inBounds_orFeeds (inBounds_listAfter h)⟩

theorem catchupFeed_of_inBounds
    {config : Config} {s : Ui} (h : InBounds s) :
    ∃ r, catchupFeed config s = some r ∧ InBounds r.1 := by
  rw [catchupFeed]
  split
  · simp only [idAtCursor_of_inBounds h, Option.bind_eq_bind, Option.bind_some]
    have hlisted : InBounds (catchupEntries config (s.mw.lv s.cursorI).id s).1 :=
      inBounds_listAfter h
    rw [restyleFocusItem_of_inBounds hlisted]
    exact ⟨_, rfl, inBounds_restyled hlisted⟩
  · exact ⟨_, rfl, inBounds_orFeeds (inBounds_listAfter h)⟩

theorem toggleRead_of_inBounds
    {config : Config} {s : Ui} (h : InBounds s) :
    ∃ r, toggleRead config s = some r ∧ InBounds r.1 := by
  rw [toggleRead]
  split
  · exact ⟨_, rfl, h⟩
  · simp only [idAtCursor_of_inBounds h, Option.bind_eq_bind, Option.bind_some]
    have hlisted : InBounds (toggleReadIpc config (s.mw.lv s.cursorI).id s).1 :=
      inBounds_listAfter h
    split
    · exact ⟨_, rfl, hlisted.bwLen, hlisted.cursorI⟩
    · rw [restyleFocusItem_of_inBounds hlisted]
      exact ⟨_, rfl, inBounds_restyled hlisted⟩

/-! ## One step -/

/-- What a step needs to stay in bounds.  The saved row matters where it is
restored, unless a resize to fewer rows is pending, and the last row of the
listing where the cursor goes towards it. -/
def Inside (s : Ui) : Event → Prop
  | .key .exit =>
      s.mw.ctxType = .entries →
        s.backupCursorI < s.mw.bodyLen ∨
          s.newsize = true ∧ s.terminal.bodyHeight < s.mw.bodyLen
  | .key .next => s.cursorI < s.contentBwMax → s.cursorI + 1 < s.mw.bodyLen
  | .key .low => s.contentBwMax < s.mw.bodyLen
  | .key .mid => s.contentBwMax / 2 < s.mw.bodyLen
  | _ => True

/-- A step that moves the cursor is possible, and stays in bounds, just if the
move does. -/
theorem step_moveItem_iff
    {config : Config} {k : Key} (move : Ui → Ui × KhRet) {s : Ui} (h : InBounds s)
    (hk : processKey config k = moveItem move)
    (hlen : (move (restyled s)).1.bwLen = (move (restyled s)).1.mw.bodyLen) :
    (∃ t, step config s (.key k) = some t ∧ InBounds t) ↔
      (move (restyled s)).1.cursorI < (move (restyled s)).1.mw.bodyLen := by
  constructor
  · intro hstep
    by_contra hout
    apply step_key_of_none _ hstep
    rw [hk, moveItem_eq_none h hout]
  · intro hcursor
    apply step_key_of_inBounds
    rw [hk]
    have hmove : InBounds (move (restyled s)).1 := ⟨hlen, hcursor⟩
    exact ⟨_, moveItem_of_inBounds h hmove, inBounds_restyled hmove⟩

theorem nextRow_bounds
    (config : Config) {s : Ui} (h : InBounds s) :
    (nextRow config s).1.bwLen = (nextRow config s).1.mw.bodyLen ∧
      ((nextRow config s).1.cursorI < (nextRow config s).1.mw.bodyLen ↔
        (s.cursorI < s.contentBwMax → s.cursorI + 1 < s.mw.bodyLen)) := by
  have hcursor := h.cursorI
  by_cases hmore : s.cursorI < s.contentBwMax
  · rw [nextRow, if_pos hmore]
    exact ⟨h.bwLen, by simp [hmore]⟩
  · rw [nextRow, if_neg hmore]
    have hbounds : InBounds
        (if s.contentBwMax + 1 = s.mw.bodyLen then
          let r := requestListUpdate config (nextPage s)
          if r.2 then (undoPage s.shown r.1, KhRet.ok) else (r.1, KhRet.update)
        else (s, KhRet.ok)).1 := by
      split
      · next hfull =>
          dsimp only
          split
          · exact ⟨h.bwLen, Nat.lt_of_succ_le (Nat.le_of_eq hfull)⟩
          · exact ⟨h.bwLen, Nat.zero_lt_of_lt hcursor⟩
      · exact h
    exact ⟨hbounds.bwLen, iff_of_true hbounds.cursorI fun hlt => absurd hlt hmore⟩

theorem step_exit_iff
    {config : Config} {s : Ui} (h : InBounds s) :
    (∃ t, step config s (.key .exit) = some t ∧ InBounds t) ↔ Inside s (.key .exit) := by
  have hpos := Nat.zero_lt_of_lt h.cursorI
  cases hctx : s.mw.ctxType with
  | feeds =>
      have hinside : Inside s (.key .exit) := by
        intro hentries
        rw [hctx] at hentries
        cases hentries
      apply iff_of_true _ hinside
      apply step_key_of_inBounds
      refine ⟨(s, .exit), ?_, h⟩
      rw [processKey, contextExit, hctx]
  | entries =>
      have hstep : step config s (.key .exit) =
          updateView config (viewToFeeds config { s with cursorI := s.backupCursorI }) := by
        rw [step, processKey, contextExit, hctx]
        rfl
      have hview := updateView_inBounds_iff config
        (s := viewToFeeds config { s with cursorI := s.backupCursorI }) h.bwLen hpos
      rw [hstep, hview, Inside, hctx]
      exact ⟨fun hsaved _ => hsaved, fun hsaved => hsaved rfl⟩

/-- The exact condition for a step to be possible and to stay in bounds. -/
theorem step_inBounds_iff
    (config : Config) (s : Ui) (e : Event) (h : InBounds s) :
    (∃ t, step config s e = some t ∧ InBounds t) ↔ Inside s e := by
  have hpos := Nat.zero_lt_of_lt h.cursorI
  cases e with
  | fetch rs ended =>
      apply iff_of_true _ trivial
      rw [step, handleUrls]
      split
      · exact updateView_of_inBounds config (inBounds_listAfter h)
      · exact ⟨_, rfl, h.bwLen, h.cursorI⟩
  | winch terminal fresh =>
      exact iff_of_true ⟨_, rfl, h.bwLen, h.cursorI⟩ trivial
  | key k =>
      cases k with
      | exit => exact step_exit_iff h
      | next =>
          have hnext := nextRow_bounds config (inBounds_restyled h)
          rw [step_moveItem_iff (nextRow config) h rfl hnext.1, hnext.2]
          rfl
      | prev =>
          have hprev := inBounds_prevRow config (inBounds_restyled h)
          rw [step_moveItem_iff (prevRow config) h rfl hprev.bwLen]
          exact iff_of_true hprev.cursorI trivial
      | low =>
          exact step_moveItem_iff (fun s => ({ s with cursorI := s.contentBwMax }, .ok)) h rfl
            h.bwLen
      | mid =>
          exact step_moveItem_iff (fun s => ({ s with cursorI := s.contentBwMax / 2 }, .ok)) h rfl
            h.bwLen
      | high =>
          rw [step_moveItem_iff (fun s => ({ s with cursorI := 0 }, .ok)) h rfl h.bwLen]
          exact iff_of_true hpos trivial
      | select => exact iff_of_true (step_key_of_inBounds (selectItem_of_inBounds h)) trivial
      | download => exact iff_of_true (step_key_of_inBounds (downloadItem_of_inBounds h)) trivial
      | catchupFeed => exact iff_of_true (step_key_of_inBounds (catchupFeed_of_inBounds h)) trivial
      | catchupAll =>
          exact iff_of_true
            (step_key_of_inBounds ⟨_, rfl, inBounds_orFeeds (inBounds_listAfter h)⟩) trivial
      | toggleRead => exact iff_of_true (step_key_of_inBounds (toggleRead_of_inBounds h)) trivial
      | redraw =>
          exact iff_of_true (step_key_of_inBounds ⟨_, rfl, h.bwLen, h.cursorI⟩) trivial
      | help => exact iff_of_true (step_key_of_inBounds ⟨_, rfl, h⟩) trivial

/-! ## The start and the runs -/

theorem startUi_inBounds
    (config : Config) (db : Db) (terminal : Terminal) (fresh : Lines) (rs : List Refresh)
    (winch : Option (Terminal × Lines)) :
    ∃ s, startUi config db terminal fresh rs winch = some s ∧ InBounds s := by
  rw [startUi, setupUi_eq, Option.bind_eq_bind, Option.bind_some]
  apply updateView_of_inBounds config
  cases winch with
  | none => exact ⟨rfl, terminal.bodyHeight_pos⟩
  | some w => exact ⟨rfl, terminal.bodyHeight_pos⟩

/-- From every start, the indices stay in bounds just in the runs whose steps
are all inside. -/
theorem stays_inBounds_iff
    (config : Config) (db : Db) (terminal : Terminal) (fresh : Lines) (rs : List Refresh)
    (winch : Option (Terminal × Lines)) (es : List Event) :
    ∃ s, startUi config db terminal fresh rs winch = some s ∧
      (Stays (step config) InBounds s es ↔ Meets (step config) Inside s es) := by
  obtain ⟨s, hs, hbounds⟩ := startUi_inBounds config db terminal fresh rs winch
  refine ⟨s, hs, stays_iff_meets (fun _ h => h) ?_ ?_ hbounds⟩
  · exact fun t e _ ht => (step_inBounds_iff config t e ht).mpr
  · exact fun t e _ ht => (step_inBounds_iff config t e ht).mp

/-- A locale in which each byte is a character, for entries of January 1. -/
def byteLocale : Locale where
  decode := fun s => (s.map UInt8.toNat, true)
  dayMonth := fun _ => ascii "  01 Jan  "
  decode_ascii := fun _ _ => rfl

/-- All feeds, and of the entries just the unread ones. -/
def unreadOnly : Config where
  showReadFeeds := true
  showReadEntries := false
  cache :=
    { entryRetention := 0
      time := { strptime := fun _ tp => tp, strftime := fun _ => ascii "0" } }
  locale := byteLocale

/-- One feed with two unread entries. -/
def twoUnread : Db :=
  let feed := Cache.cacheUpdateFeed
    (fun
    | .title => some (ascii "Feed")
    | .url => some (ascii "http://feed")
    | _ => none) Cache.emptyDb
  let entry := fun uid => Cache.cacheUpdateEntry feed.2 fun
    | .title => some (ascii "Entry")
    | .uid => some (ascii uid)
    | _ => none
  entry "2" (entry "1" feed.1)

def blankLines : Lines where
  body := fun _ => 0
  lv := fun _ => { unread := 0, id := 0 }

/-- A screen with two rows in its body. -/
def smallScreen : Terminal := ⟨4, 20, by decide⟩

/-- Open the feed in the second row, shrink the body to one row, and leave: the
cursor is restored behind the only window, and the next key reads it there. -/
theorem exit_after_shrink_out_of_bounds :
    ∃ s, startUi unreadOnly twoUnread smallScreen blankLines [] none = some s ∧
      ¬Stays (step unreadOnly) InBounds s
        [.key .next, .key .select, .winch ⟨3, 20, by decide⟩ blankLines, .key .help,
          .key .exit, .key .next] := by
  have hruns : ((startUi unreadOnly twoUnread smallScreen blankLines [] none).map fun s =>
      decide (Stays (step unreadOnly) InBounds s
        [.key .next, .key .select, .winch ⟨3, 20, by decide⟩ blankLines, .key .help,
          .key .exit, .key .next])) = some false := by
    decide +kernel
  obtain ⟨s, hs, hstays⟩ := Option.map_eq_some_iff.mp hruns
  exact ⟨s, hs, of_decide_eq_false hstays⟩

end View
end Newsbaoter
