import Newsbaoter.View.Cursor

/-!
# Visits to an entry list

There are two ways back to the feed list: `context_exit` restores the page and
the cursor, `view_to_feeds` the page alone.  So the cursor comes back where it
was by the exit key, or if the visit happens to leave it there.
-/

namespace Newsbaoter
namespace View

open Newsbaoter.Support
open Newsbaoter.Cache (Db Refresh)

/-! ## What a key does to the place -/

/-- Nothing has been resized. -/
structure SameSize (s t : Ui) : Prop where
  newsize : t.newsize = s.newsize
  terminal : t.terminal = s.terminal
  bodyLen : t.mw.bodyLen = s.mw.bodyLen
  width : t.mw.width = s.mw.width

/-- From `s` to `t` the list is the same, and so is what leaving it restores. -/
structure Moves (s t : Ui) : Prop extends SameSize s t where
  ctxType : t.mw.ctxType = s.mw.ctxType
  backupPageNum : t.backupPageNum = s.backupPageNum
  backupCursorI : t.backupCursorI = s.backupCursorI

/-- The feed list comes back at the saved page, with the cursor at row `c`. -/
structure Returns (s : Ui) (c : ℕ) (t : Ui) : Prop extends SameSize s t where
  ctxType : t.mw.ctxType = .feeds
  ctxId : t.mw.ctxId = 0
  page : t.mw.page = s.backupPageNum
  cursorI : t.cursorI = c

/-- An entry list is opened from the feed list, whose page and cursor are saved. -/
structure Opens (s t : Ui) : Prop extends SameSize s t where
  feeds : s.mw.ctxType = .feeds
  ctxType : t.mw.ctxType = .entries
  backupPageNum : t.backupPageNum = s.mw.page
  backupCursorI : t.backupCursorI = s.cursorI

/-- The feed list stays, for want of entries to list. -/
structure Misses (s t : Ui) : Prop extends SameSize s t where
  feeds : s.mw.ctxType = .feeds
  ctxType : t.mw.ctxType = .feeds

/-- The row where the cursor is once a key has led back to the feed list. -/
def rowBack (s : Ui) : Key → ℕ
  | .exit => s.backupCursorI
  | _ => s.cursorI

/-- All that a key can do, but for a redraw. -/
def Goes (s : Ui) (k : Key) (t : Ui) : Prop :=
  Moves s t ∨ Returns s (rowBack s k) t ∨ Opens s t ∨ Misses s t

theorem sameSize_rfl {s : Ui} : SameSize s s :=
  ⟨rfl, rfl, rfl, rfl⟩

theorem moves_rfl {s : Ui} : Moves s s :=
  ⟨sameSize_rfl, rfl, rfl, rfl⟩

theorem nextRow_moves (config : Config) (s : Ui) : Moves s (nextRow config s).1 := by
  rw [nextRow]
  split
  · exact ⟨⟨rfl, rfl, rfl, rfl⟩, rfl, rfl, rfl⟩
  · split
    · dsimp only
      split
      · exact ⟨⟨rfl, rfl, rfl, rfl⟩, rfl, rfl, rfl⟩
      · exact ⟨⟨rfl, rfl, rfl, rfl⟩, rfl, rfl, rfl⟩
    · exact moves_rfl

theorem prevRow_moves (config : Config) (s : Ui) : Moves s (prevRow config s).1 := by
  rw [prevRow]
  split
  · exact ⟨⟨rfl, rfl, rfl, rfl⟩, rfl, rfl, rfl⟩
  · split
    · exact ⟨⟨rfl, rfl, rfl, rfl⟩, rfl, rfl, rfl⟩
    · exact moves_rfl

theorem moves_listAfter (config : Config) (change : Db → Db) (s : Ui) :
    Moves s (listAfter config change s).1 :=
  ⟨⟨rfl, rfl, rfl, rfl⟩, rfl, rfl, rfl⟩

theorem rowBack_of_ne (s : Ui) {k : Key} (hk : k ≠ .exit) : rowBack s k = s.cursorI := by
  cases k with
  | exit => exact absurd rfl hk
  | _ => rfl

theorem Handled.goes
    {config : Config} {k : Key} {s t : Ui} (h : Handled config s k t) (hk : k ≠ .redraw) :
    Goes s k t := by
  cases h with
  | same => exact Or.inl moves_rfl
  | next => exact Or.inl { nextRow_moves config (restyled s) with }
  | prev => exact Or.inl { prevRow_moves config (restyled s) with }
  | row _ i => exact Or.inl ⟨⟨rfl, rfl, rfl, rfl⟩, rfl, rfl, rfl⟩
  | listed _ change => exact Or.inl (moves_listAfter config change s)
  | focused _ change => exact Or.inl { moves_listAfter config change s with }
  | emptied hexit change =>
      exact Or.inr (Or.inl ⟨⟨rfl, rfl, rfl, rfl⟩, rfl, rfl, rfl, (rowBack_of_ne s hexit).symm⟩)
  | exited => exact Or.inr (Or.inl ⟨⟨rfl, rfl, rfl, rfl⟩, rfl, rfl, rfl, rfl⟩)
  | opened id hfeeds =>
      exact Or.inr (Or.inr (Or.inl ⟨⟨rfl, rfl, rfl, rfl⟩, hfeeds, rfl, rfl, rfl⟩))
  | missed id hfeeds => exact Or.inr (Or.inr (Or.inr ⟨⟨rfl, rfl, rfl, rfl⟩, hfeeds, rfl⟩))
  | redrawn => exact absurd rfl hk

/-! ## What a step does to it -/

theorem Goes.drawLines {s t : Ui} {k : Key} (h : Goes s k t) : Goes s k (drawLines t) := by
  rcases h with h | h | h | h
  · exact Or.inl { h with }
  · exact Or.inr (Or.inl { h with })
  · exact Or.inr (Or.inr (Or.inl { h with }))
  · exact Or.inr (Or.inr (Or.inr { h with }))

/-- Without a resize to come, `update_view` only paints. -/
theorem eq_of_updateView
    {config : Config} {s t : Ui} (hnewsize : s.newsize = false)
    (h : updateView config s = some t) :
    t = drawLines s := by
  have hdraw : (if s.mw.bodyLen ≤ s.bwLen then some (drawLines s) else none) = some t := by
    rw [updateView, hnewsize] at h
    exact h
  split at hdraw
  · exact (Option.some.inj hdraw).symm
  · cases hdraw

theorem SameSize.sized {s t : Ui} (h : SameSize s t) (hs : Sized s) : Sized t where
  newsize := h.newsize.trans hs.newsize
  bodyHeight := by rw [h.terminal, h.bodyLen, hs.bodyHeight]
  cols := by rw [h.terminal, h.width, hs.cols]

theorem Goes.sameSize {s t : Ui} {k : Key} (h : Goes s k t) : SameSize s t := by
  rcases h with h | h | h | h
  · exact h.toSameSize
  · exact h.toSameSize
  · exact h.toSameSize
  · exact h.toSameSize

/-- A redraw lists the same page at the same size. -/
theorem moves_of_redraw
    {config : Config} {s t : Ui} (hs : Sized s) (h : step config s (.key .redraw) = some t) :
    Moves s t := by
  rw [step_redraw hs] at h
  have hnewsize : (requestListUpdate config (relined s)).1.newsize = false := hs.newsize
  rw [eq_of_updateView hnewsize h]
  exact ⟨⟨rfl, rfl, hs.bodyHeight, hs.cols⟩, rfl, rfl, rfl⟩

theorem step_key_goes
    {config : Config} {k : Key} {s t : Ui} (hs : Sized s) (h : step config s (.key k) = some t) :
    Goes s k t := by
  by_cases hk : k = .redraw
  · rw [hk] at h
    exact Or.inl (moves_of_redraw hs h)
  · obtain ⟨r, hr, ht⟩ := Option.bind_eq_some_iff.mp h
    have hgoes := (handled_of_processKey hr).goes hk
    have hnewsize := hgoes.sameSize.newsize.trans hs.newsize
    rw [afterKey] at ht
    split at ht
    · cases ht
      exact hgoes
    · rw [eq_of_updateView hnewsize ht]
      exact hgoes.drawLines
    · rw [eq_of_updateView hnewsize ht]
      exact hgoes.drawLines

theorem step_fetch_moves
    {config : Config} {rs : List Refresh} {ended : Bool} {s t : Ui} (hs : Sized s)
    (h : step config s (.fetch rs ended) = some t) :
    Moves s t := by
  rw [step, handleUrls] at h
  split at h
  · have hnewsize : (listAfter config (refreshed config rs) s).1.newsize = false := hs.newsize
    rw [eq_of_updateView hnewsize h]
    exact ⟨⟨rfl, rfl, rfl, rfl⟩, rfl, rfl, rfl⟩
  · cases h
    exact ⟨⟨rfl, rfl, rfl, rfl⟩, rfl, rfl, rfl⟩

theorem sized_step
    {config : Config} {e : Event} {s t : Ui} (he : ¬e.IsWinch) (hs : Sized s)
    (h : step config s e = some t) :
    Sized t := by
  cases e with
  | key k => exact (step_key_goes hs h).sameSize.sized hs
  | fetch rs ended => exact (step_fetch_moves hs h).toSameSize.sized hs
  | winch terminal fresh => exact absurd trivial he

theorem sized_runs
    {config : Config} {es : List Event} {s t : Ui} (hes : ∀ e ∈ es, ¬e.IsWinch) (hs : Sized s)
    (h : runs (step config) s es = some t) :
    Sized t := by
  induction es generalizing s with
  | nil =>
      cases h
      exact hs
  | cons e es ih =>
      rw [runs_cons] at h
      obtain ⟨u, hu, h⟩ := Option.bind_eq_some_iff.mp h
      exact ih (fun e he => hes e (List.mem_cons_of_mem _ he))
        (sized_step (hes e List.mem_cons_self) hs hu) h

/-! ## Inside an entry list -/

/-- An entry list that was opened at page `p` and row `r` of the feed list. -/
structure Visiting (p r : ℕ) (s : Ui) : Prop extends Sized s where
  ctxType : s.mw.ctxType = .entries
  backupPageNum : s.backupPageNum = p
  backupCursorI : s.backupCursorI = r

theorem visiting_of_opens
    {config : Config} {s t : Ui} (hs : Sized s) (hfeeds : s.mw.ctxType = .feeds)
    (h : step config s (.key .select) = some t) (hentries : t.mw.ctxType = .entries) :
    Visiting s.mw.page s.cursorI t := by
  have hgoes := step_key_goes hs h
  have hsized := hgoes.sameSize.sized hs
  rcases hgoes with h | h | h | h
  · have hctx := h.ctxType
    rw [hfeeds, hentries] at hctx
    cases hctx
  · have hctx := h.ctxType
    rw [hentries] at hctx
    cases hctx
  · exact ⟨hsized, hentries, h.backupPageNum, h.backupCursorI⟩
  · have hctx := h.ctxType
    rw [hentries] at hctx
    cases hctx

/-- A step from an entry list stays in it or leads back. -/
theorem Visiting.goes
    {p r : ℕ} {s t : Ui} {k : Key} (h : Visiting p r s) (hgoes : Goes s k t) :
    Visiting p r t ∨ Returns s (rowBack s k) t := by
  have hsized := hgoes.sameSize.sized h.toSized
  rcases hgoes with hmoves | hreturns | hopens | hmisses
  · exact Or.inl ⟨hsized, hmoves.ctxType.trans h.ctxType,
      hmoves.backupPageNum.trans h.backupPageNum, hmoves.backupCursorI.trans h.backupCursorI⟩
  · exact Or.inr hreturns
  · have hfeeds := hopens.feeds
    rw [h.ctxType] at hfeeds
    cases hfeeds
  · have hfeeds := hmisses.feeds
    rw [h.ctxType] at hfeeds
    cases hfeeds

/-! ## The whole visit -/

def InEntries (s : Ui) : Prop :=
  s.mw.ctxType = .entries

instance (s : Ui) : Decidable (InEntries s) :=
  inferInstanceAs (Decidable (_ = _))

/-- A list is opened in `s`, the events inside it lead to `u`, and `e` leads back
to the feed list in `t`. -/
structure Visit (config : Config) (s : Ui) (inside : List Event) (u : Ui) (e : Event) (t : Ui) :
    Prop where
  feeds : s.mw.ctxType = .feeds
  opened : ∃ v, step config s (.key .select) = some v ∧
    Stays (step config) InEntries v inside ∧ runs (step config) v inside = some u
  left : step config u e = some t
  back : t.mw.ctxType = .feeds

/-- The feed list is where it was left. -/
def ComesBack (s t : Ui) : Prop :=
  t.mw.ctxId = 0 ∧ t.mw.page = s.mw.page ∧ t.cursorI = s.cursorI

theorem Visiting.step
    {config : Config} {p r : ℕ} {s t : Ui} {e : Event} (he : ¬e.IsWinch) (h : Visiting p r s)
    (ht : step config s e = some t) (hentries : InEntries t) :
    Visiting p r t := by
  cases e with
  | winch terminal fresh => exact absurd trivial he
  | fetch rs ended =>
      have hmoves := step_fetch_moves h.toSized ht
      exact ⟨hmoves.toSameSize.sized h.toSized, hentries,
        hmoves.backupPageNum.trans h.backupPageNum, hmoves.backupCursorI.trans h.backupCursorI⟩
  | key k =>
      rcases h.goes (step_key_goes h.toSized ht) with hstays | hreturns
      · exact hstays
      · have hctx := hreturns.ctxType
        rw [hentries] at hctx
        cases hctx

theorem Visiting.runs
    {config : Config} {p r : ℕ} {s t : Ui} {es : List Event} (hes : ∀ e ∈ es, ¬e.IsWinch)
    (h : Visiting p r s) (hstays : Stays (View.step config) InEntries s es)
    (ht : Support.runs (View.step config) s es = some t) :
    Visiting p r t := by
  induction es generalizing s with
  | nil =>
      cases ht
      exact h
  | cons e es ih =>
      obtain ⟨-, u, hu, hrest⟩ := hstays
      rw [runs_cons, hu, Option.bind_some] at ht
      exact ih (fun e he => hes e (List.mem_cons_of_mem _ he))
        (h.step (hes e List.mem_cons_self) hu hrest.head) hrest ht

theorem Visiting.comesBack_iff
    {config : Config} {s u t : Ui} {e : Event} (he : ¬e.IsWinch)
    (h : Visiting s.mw.page s.cursorI u) (ht : View.step config u e = some t)
    (hback : t.mw.ctxType = .feeds) :
    ComesBack s t ↔ e = .key .exit ∨ u.cursorI = s.cursorI := by
  cases e with
  | winch terminal fresh => exact absurd trivial he
  | fetch rs ended =>
      have hctx := (step_fetch_moves h.toSized ht).ctxType
      rw [hback, h.ctxType] at hctx
      cases hctx
  | key k =>
      rcases h.goes (step_key_goes h.toSized ht) with hstays | hreturns
      · have hctx := hstays.ctxType
        rw [hback] at hctx
        cases hctx
      · have hpage := hreturns.page.trans h.backupPageNum
        rw [ComesBack, and_iff_right hreturns.ctxId, and_iff_right hpage, hreturns.cursorI]
        by_cases hexit : k = .exit
        · rw [hexit]
          exact iff_of_true h.backupCursorI (Or.inl rfl)
        · have hrow : rowBack u k = u.cursorI := by
            cases k with
            | exit => exact absurd rfl hexit
            | _ => rfl
          have hkey : Event.key k ≠ .key .exit := fun heq => hexit (Event.key.inj heq)
          rw [hrow, or_iff_right hkey]

theorem sized_startUi
    {config : Config} {db : Db} {terminal : Terminal} {fresh : Lines} {rs : List Refresh} {s : Ui}
    (h : startUi config db terminal fresh rs none = some s) :
    Sized s := by
  rw [startUi, setupUi_eq, Option.bind_eq_bind, Option.bind_some] at h
  rw [eq_of_updateView rfl h]
  exact ⟨rfl, rfl, rfl⟩

/-- In a run without resizes, the feed list comes back where it was left just if
it is left by the exit key, or with the cursor at the row of the feed. -/
theorem visit_comesBack_iff
    (config : Config) (db : Db) (terminal : Terminal) (fresh : Lines) (rs : List Refresh)
    {before inside : List Event} {e : Event} {s₀ s u t : Ui}
    (hs₀ : startUi config db terminal fresh rs none = some s₀)
    (hs : runs (step config) s₀ before = some s)
    (hes : ∀ e' ∈ before ++ inside ++ [e], ¬e'.IsWinch)
    (hvisit : Visit config s inside u e t) :
    ComesBack s t ↔ e = .key .exit ∨ u.cursorI = s.cursorI := by
  have hbefore : ∀ e' ∈ before, ¬e'.IsWinch := fun e' he' =>
    hes e' (List.mem_append_left _ (List.mem_append_left _ he'))
  have hinside : ∀ e' ∈ inside, ¬e'.IsWinch := fun e' he' =>
    hes e' (List.mem_append_left _ (List.mem_append_right _ he'))
  have he : ¬e.IsWinch := hes e (List.mem_append_right _ List.mem_cons_self)
  have hsized : Sized s := sized_runs hbefore (sized_startUi hs₀) hs
  obtain ⟨v, hv, hstays, hu⟩ := hvisit.opened
  have hopened := visiting_of_opens hsized hvisit.feeds hv hstays.head
  exact (hopened.runs hinside hstays hu).comesBack_iff he hvisit.left hvisit.back

/-- Open the aggregate of two unread entries, turn to the second and mark all as
read: the feed list still has a row where it was left, and the cursor is at the
next one. -/
theorem catchup_all_moves_cursor :
    ∃ s u t, startUi unreadOnly twoUnread smallScreen blankLines [] none = some s ∧
      Visit unreadOnly s [.key .next] u (.key .catchupAll) t ∧
      (feedsRows unreadOnly t t.mw.db).length = 2 ∧ s.cursorI = 0 ∧ t.cursorI = 1 ∧
      ¬ComesBack s t := by
  have hruns : ((startUi unreadOnly twoUnread smallScreen blankLines [] none).bind fun s =>
      (step unreadOnly s (.key .select)).bind fun v =>
        (runs (step unreadOnly) v [.key .next]).bind fun u =>
          (step unreadOnly u (.key .catchupAll)).map fun t =>
            decide (s.mw.ctxType = .feeds ∧ Stays (step unreadOnly) InEntries v [.key .next] ∧
              t.mw.ctxType = .feeds ∧ (feedsRows unreadOnly t t.mw.db).length = 2 ∧
              s.cursorI = 0 ∧ t.cursorI = 1)) = some true := by
    decide +kernel
  obtain ⟨s, hs, hruns⟩ := Option.bind_eq_some_iff.mp hruns
  obtain ⟨v, hv, hruns⟩ := Option.bind_eq_some_iff.mp hruns
  obtain ⟨u, hu, hruns⟩ := Option.bind_eq_some_iff.mp hruns
  obtain ⟨t, ht, hruns⟩ := Option.map_eq_some_iff.mp hruns
  obtain ⟨hfeeds, hstays, hback, hrows, hzero, hone⟩ := of_decide_eq_true hruns
  refine ⟨s, u, t, hs, ⟨hfeeds, ⟨v, hv, hstays, hu⟩, ht, hback⟩, hrows, hzero, hone, ?_⟩
  rintro ⟨-, -, hcursor⟩
  rw [hzero, hone] at hcursor
  cases hcursor

/-- Left by the exit key, the feed list comes back where it was. -/
theorem exit_comesBack :
    ∃ s u t, startUi unreadOnly twoUnread smallScreen blankLines [] none = some s ∧
      Visit unreadOnly s [.key .next] u (.key .exit) t ∧ ComesBack s t := by
  have hruns : ((startUi unreadOnly twoUnread smallScreen blankLines [] none).bind fun s =>
      (step unreadOnly s (.key .select)).bind fun v =>
        (runs (step unreadOnly) v [.key .next]).bind fun u =>
          (step unreadOnly u (.key .exit)).map fun t =>
            decide (s.mw.ctxType = .feeds ∧ Stays (step unreadOnly) InEntries v [.key .next] ∧
              t.mw.ctxType = .feeds)) = some true := by
    decide +kernel
  obtain ⟨s, hs, hruns⟩ := Option.bind_eq_some_iff.mp hruns
  obtain ⟨v, hv, hruns⟩ := Option.bind_eq_some_iff.mp hruns
  obtain ⟨u, hu, hruns⟩ := Option.bind_eq_some_iff.mp hruns
  obtain ⟨t, ht, hruns⟩ := Option.map_eq_some_iff.mp hruns
  obtain ⟨hfeeds, hstays, hback⟩ := of_decide_eq_true hruns
  have hvisit : Visit unreadOnly s [.key .next] u (.key .exit) t :=
    ⟨hfeeds, ⟨v, hv, hstays, hu⟩, ht, hback⟩
  have hes : ∀ e' ∈ ([] : List Event) ++ [Event.key .next] ++ [.key .exit], ¬e'.IsWinch := by
    simp [Event.IsWinch]
  exact ⟨s, u, t, hs, hvisit,
    (visit_comesBack_iff unreadOnly twoUnread smallScreen blankLines [] hs
      (runs_nil (step unreadOnly) s) hes hvisit).mpr (Or.inl rfl)⟩

end View
end Newsbaoter
