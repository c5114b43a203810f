import Newsbaoter.View.Shows

/-!
# Rows that are stale

Without resizes, the screen shows the rows of the query just in the runs whose
every step finds a row to list.  A handler that lists an empty page and does not
go back leaves the rows of the page before.
-/

namespace Newsbaoter
namespace View

open Newsbaoter.Support
open Newsbaoter.Cache (Db Refresh)

/-! ## The handlers -/

theorem moveItem_ends_iff
    {config : Config} {move : Ui → Ui × KhRet} {s : Ui} (h : Showing config s)
    (hmove : Ends config (move (restyled s)).1) :
    ∃ r, moveItem move s = some r ∧ Ends config r.1 ∧ (Fills r ↔ Fills (move (restyled s))) :=
  ⟨_, moveItem_of_inBounds h.toFitted.inBounds hmove.toFitted.inBounds, hmove.restyled, Iff.rfl⟩

/-- A cursor that moves within the page leaves everything shown. -/
theorem jump_ends
    {config : Config} {target : Ui → ℕ} {s : Ui} (h : Showing config s)
    (htarget : ∀ t, target t ≤ t.contentBwMax) :
    ∃ r, moveItem (fun t => ({ t with cursorI := target t }, .ok)) s = some r ∧
      Ends config r.1 ∧ (Fills r ↔ True) := by
  have hmoved : Showing config { restyled s with cursorI := target (restyled s) } :=
    h.restyled.withCursor (Nat.lt_of_le_of_lt (htarget (restyled s)) h.last_lt)
  have hfills : Fills (restyled { restyled s with cursorI := target (restyled s) }, .ok) :=
    hmoved.restyled.fills .ok
  exact ⟨_, moveItem_of_inBounds h.toFitted.inBounds hmoved.toFitted.inBounds,
    hmoved.ends.restyled, iff_of_true hfills trivial⟩

theorem nextRow_ends
    (config : Config) {s : Ui} (h : Showing config s) :
    Ends config (nextRow config s).1 ∧ Fills (nextRow config s) := by
  rw [nextRow]
  split
  · next hmore =>
      have hmoved := h.withCursor (Nat.lt_of_le_of_lt hmore h.last_lt)
      exact ⟨hmoved.ends, hmoved.fills .ok⟩
  · split
    · have hfitted : Fitted (nextPage s) :=
        h.toFitted.turned s.mw.ctxType s.mw.ctxId (s.mw.page + 1) s.backupPageNum h.bodyLen_pos
      dsimp only
      by_cases hrows : pageRows config (nextPage s) s.mw.db = []
      · rw [if_pos (hfitted.requestListUpdate_snd.mpr hrows)]
        rw [undoPage_of_nil hrows]
        have hmoved := h.withCursor h.last_lt
        exact ⟨hmoved.ends, hmoved.fills .ok⟩
      · rw [if_neg (fun hnone => hrows (hfitted.requestListUpdate_snd.mp hnone))]
        exact ⟨hfitted.ends_requestListUpdate config, fills_update_iff.mpr hrows⟩
    · exact ⟨h.ends, h.fills .ok⟩

/-- Before a page with rows there is no page without. -/
theorem pageRows_prevPage_ne_nil
    {config : Config} {s : Ui} (hpos : 0 < s.mw.bodyLen) (h : pageRows config s s.mw.db ≠ []) :
    pageRows config (prevPage s) s.mw.db ≠ [] := by
  have hpages : ∀ p, listing config s.mw.db s.mw.ctxType s.mw.ctxId p s.mw.bodyLen =
      page (fullListing config s.mw.db s.mw.ctxType s.mw.ctxId) s.mw.bodyLen p :=
    fun p => listing_eq_page config s.mw.db s.mw.ctxType s.mw.ctxId p hpos
  intro hnil
  apply h
  have hprev :
      listing config s.mw.db s.mw.ctxType s.mw.ctxId (s.mw.page - 1) s.mw.bodyLen = [] := hnil
  rw [pageRows]
  rw [hpages, page_eq_nil_iff hpos] at hprev ⊢
  exact Nat.le_trans hprev (Nat.mul_le_mul_right _ (Nat.sub_le _ _))

theorem prevRow_ends
    (config : Config) {s : Ui} (h : Showing config s) :
    Ends config (prevRow config s).1 ∧ Fills (prevRow config s) := by
  have hpos := h.bodyLen_pos
  rw [prevRow]
  split
  · have hmoved := h.withCursor (Nat.lt_of_le_of_lt (Nat.sub_le _ 1) h.cursorI)
    exact ⟨hmoved.ends, hmoved.fills .ok⟩
  · split
    · have hfitted : Fitted (prevPage s) :=
        h.toFitted.turned s.mw.ctxType s.mw.ctxId (s.mw.page - 1) s.backupPageNum
          (Nat.sub_lt hpos Nat.one_pos)
      have hrows : pageRows config s s.mw.db ≠ [] := by
        rw [← h.rows]
        exact h.rows_ne_nil
      exact ⟨hfitted.ends_requestListUpdate config,
        fills_update_iff.mpr (pageRows_prevPage_ne_nil hpos hrows)⟩
    · exact ⟨h.ends, h.fills .ok⟩

theorem Fitted.toFeeds {s : Ui} (h : Fitted s) : Fitted (toFeeds s) :=
  h.turned .feeds 0 s.backupPageNum s.backupPageNum h.cursorI

theorem Fitted.ends_viewToFeeds
    (config : Config) {s : Ui} (h : Fitted s) : Ends config (viewToFeeds config s) :=
  h.toFeeds.ends_requestListUpdate config

theorem Fitted.ends_listAfter
    (config : Config) (change : Db → Db) {s : Ui} (h : Fitted s) :
    Ends config (listAfter config change s).1 :=
  (h.withDb (change s.mw.db)).ends_requestListUpdate config

/-- After a change of the database, the page listed in the end has to have a
row. -/
theorem orFeeds_ends_iff
    (config : Config) (change : Db → Db) {s : Ui} (h : Fitted s) :
    Ends config (orFeeds config (listAfter config change s)) ∧
      (Fills (orFeeds config (listAfter config change s), .update) ↔
        Lists config s (change s.mw.db)) := by
  have hlisted := h.ends_listAfter config change
  rw [fills_update_iff, Lists, orFeeds]
  by_cases hrows : pageRows config s (change s.mw.db) = []
  · rw [if_pos (h.listAfter_snd.mpr hrows)]
    refine ⟨hlisted.ends_viewToFeeds config, ?_⟩
    rw [or_iff_right (not_not_intro hrows)]
    exact Iff.rfl
  · rw [if_neg (fun hnone => hrows (h.listAfter_snd.mp hnone))]
    exact ⟨hlisted, iff_of_true hrows (Or.inl hrows)⟩

/-- An opened list without entries brings back the page of the feed list it was
opened from. -/
theorem selectItem_ends_iff
    (config : Config) {s : Ui} (h : Showing config s) :
    ∃ r, selectItem config s = some r ∧ Ends config r.1 ∧
      (Fills r ↔ Finds config s (.key .select)) := by
  simp only [selectItem, idAtCursor_of_inBounds h.toFitted.inBounds, Option.bind_eq_bind,
    Option.bind_some]
  unfold Finds
  dsimp only
  cases hctx : s.mw.ctxType with
  | entries =>
      obtain ⟨hends, hiff⟩ := orFeeds_ends_iff config
        (Cache.cacheWriteEntryField (s.mw.lv s.cursorI).id) h.toFitted
      exact ⟨_, rfl, hends, hiff.trans ⟨fun hlists _ => hlists, fun hlists => hlists rfl⟩⟩
  | feeds =>
      dsimp only
      set id := (s.mw.lv s.cursorI).id
      have hopened : Fitted (openEntries id s) := h.toFitted.turned .entries id 0 s.mw.page h.cursorI
      have hlisted := hopened.ends_requestListUpdate config
      have hfinds : s.mw.ctxType = .entries →
          Lists config s (Cache.cacheWriteEntryField id s.mw.db) := by
        rw [hctx]
        rintro ⟨⟩
      rw [hctx] at hfinds
      by_cases hrows : pageRows config (openEntries id s) s.mw.db = []
      · rw [if_pos (hopened.requestListUpdate_snd.mpr hrows)]
        refine ⟨_, rfl, hlisted.ends_viewToFeeds config, iff_of_true ?_ hfinds⟩
        have hback : (viewToFeeds config (requestListUpdate config (openEntries id s)).1).shown.rows =
            s.shown.rows := by
          rw [h.rows, pageRows, hctx]
          rfl
        rw [Fills, hback]
        exact ⟨h.rows_ne_nil, fun _ => h.last⟩
      · rw [if_neg (fun hnone => hrows (hopened.requestListUpdate_snd.mp hnone)),
          restyleFocusItem_of_inBounds hlisted.toFitted.inBounds, Option.bind_some]
        have hstyled := hlisted.restyled
        set t := restyled (requestListUpdate config (openEntries id s)).1
        have htop : Ends config (toFirstRow t) :=
          { toReady := ⟨h.bwLen, h.bodyLen_pos, h.width, h.newsize⟩
            loaded := fun hrows =>
              have ht := hstyled.loaded hrows
              ht.repaint t.contentBwMax 0 t.cursorI ht.painted
            cursorI := h.bodyLen_pos
            backupCursorI := hstyled.cursorI
            bodyHeight := h.bodyHeight
            cols := h.cols
            rows := rfl }
        rw [restyleFocusItem_of_inBounds htop.toFitted.inBounds, Option.bind_some]
        exact ⟨_, rfl, htop.restyled, iff_of_true (fills_update_iff.mpr hrows) hfinds⟩

theorem downloadItem_ends_iff
    (config : Config) {s : Ui} (h : Showing config s) :
    ∃ r, downloadItem config s = some r ∧ Ends config r.1 ∧
      (Fills r ↔ Finds config s (.key .download)) := by
  rw [downloadItem]
  unfold Finds
  dsimp only
  cases hctx : s.mw.ctxType with
  | feeds =>
      refine ⟨_, rfl, h.ends, iff_of_true (h.fills .update) ?_⟩
      rintro ⟨⟩
  | entries =>
      dsimp only
      rw [idAtCursor_of_inBounds h.toFitted.inBounds]
      obtain ⟨hends, hiff⟩ := orFeeds_ends_iff config
        (Cache.cacheWriteEntryField (s.mw.lv s.cursorI).id) h.toFitted
      exact ⟨_, rfl, hends, hiff.trans ⟨fun hlists _ => hlists, fun hlists => hlists rfl⟩⟩

theorem catchupFeed_ends_iff
    (config : Config) {s : Ui} (h : Showing config s) :
    ∃ r, catchupFeed config s = some r ∧ Ends config r.1 ∧
      (Fills r ↔ Finds config s (.key .catchupFeed)) := by
  rw [catchupFeed]
  unfold Finds
  dsimp only
  cases hctx : s.mw.ctxType with
  | feeds =>
      simp only [idAtCursor_of_inBounds h.toFitted.inBounds, Option.bind_eq_bind, Option.bind_some]
      have hends : Ends config (catchupEntries config (s.mw.lv s.cursorI).id s).1 :=
        h.toFitted.ends_listAfter config (Cache.cacheReadFeed (s.mw.lv s.cursorI).id)
      rw [restyleFocusItem_of_inBounds hends.toFitted.inBounds, Option.bind_some]
      exact ⟨_, rfl, hends.restyled, fills_update_iff.trans
        ⟨fun hrows => ⟨fun _ => hrows, by rintro ⟨⟩⟩, fun h => h.1 trivial⟩⟩
  | entries =>
      obtain ⟨hends, hiff⟩ := orFeeds_ends_iff config
        (Cache.cacheReadFeed s.mw.ctxId) h.toFitted
      exact ⟨_, rfl, hends, hiff.trans (by simp)⟩

theorem toggleRead_ends_iff
    (config : Config) {s : Ui} (h : Showing config s) :
    ∃ r, toggleRead config s = some r ∧ Ends config r.1 ∧
      (Fills r ↔ Finds config s (.key .toggleRead)) := by
  rw [toggleRead]
  unfold Finds
  dsimp only
  cases hctx : s.mw.ctxType with
  | feeds =>
      refine ⟨_, rfl, h.ends, iff_of_true (h.fills .ok) ?_⟩
      rintro ⟨⟩
  | entries =>
      dsimp only
      simp only [idAtCursor_of_inBounds h.toFitted.inBounds, Option.bind_eq_bind,
        Option.bind_some, forall_const]
      set id := (s.mw.lv s.cursorI).id
      have hlisted : Ends config (toggleReadIpc config id s).1 :=
        h.toFitted.ends_listAfter config (Cache.cacheToggleReadEntry id (-1))
      have hsnd : (toggleReadIpc config id s).2 = true ↔
          pageRows config s (Cache.cacheToggleReadEntry id (-1) s.mw.db) = [] :=
        h.listAfter_snd
      by_cases hrows : pageRows config s (Cache.cacheToggleReadEntry id (-1) s.mw.db) = []
      · rw [if_pos (hsnd.mpr hrows)]
        refine ⟨_, rfl, hlisted.ends_viewToFeeds config, ?_⟩
        rw [fills_update_iff]
        exact ⟨fun hfeeds => ⟨fun _ => hfeeds, fun hne => absurd hrows hne⟩, fun h => h.1 hrows⟩
      · rw [if_neg (fun hnone => hrows (hsnd.mp hnone)),
          restyleFocusItem_of_inBounds hlisted.toFitted.inBounds, Option.bind_some]
        refine ⟨_, rfl, hlisted.restyled, ?_⟩
        have hasks := repaintsToggle_iff config id s
        by_cases hrepaints : RepaintsToggle config s
        · rw [if_pos (hasks.mp hrepaints)]
          exact iff_of_true (fills_update_iff.mpr hrows)
            ⟨fun hnil => absurd hnil hrows, fun _ => Or.inl hrepaints⟩
        · rw [if_neg (fun h => hrepaints (hasks.mpr h))]
          constructor
          · rintro ⟨-, hlast⟩
            exact ⟨fun hnil => absurd hnil hrows, fun _ => Or.inr (hlast rfl).symm⟩
          · rintro ⟨-, hlength⟩
            exact ⟨hrows, fun _ => ((hlength hrows).resolve_left hrepaints).symm⟩

theorem contextExit_ends_iff
    (config : Config) {s : Ui} (h : Showing config s) :
    ∃ r, contextExit config s = some r ∧ Ends config r.1 ∧
      (Fills r ↔ Finds config s (.key .exit)) := by
  rw [contextExit]
  unfold Finds
  dsimp only
  cases hctx : s.mw.ctxType with
  | feeds =>
      refine ⟨_, rfl, h.ends, iff_of_true (h.fills .exit) ?_⟩
      rintro ⟨⟩
  | entries =>
      have hrestored := h.toFitted.turned s.mw.ctxType s.mw.ctxId s.mw.page s.backupPageNum
        h.backupCursorI
      exact ⟨_, rfl, hrestored.ends_viewToFeeds config,
        fills_update_iff.trans ⟨fun hrows _ => hrows, fun hrows => hrows rfl⟩⟩

/-! ## One step -/

theorem Fitted.sized {s : Ui} (h : Fitted s) : Sized s :=
  ⟨h.newsize, h.bodyHeight, h.cols⟩

theorem Fitted.relined {s : Ui} (h : Fitted s) : Fitted (relined s) := by
  have hpos := h.bodyLen_pos
  have hwidth := h.width
  have hcursor := h.cursorI
  have hbackup := h.backupCursorI
  rw [← h.bodyHeight] at hpos hcursor hbackup
  rw [← h.cols] at hwidth
  exact ⟨⟨h.bwLen.trans h.bodyHeight.symm, hpos, hwidth, h.newsize⟩, hcursor, hbackup, rfl, rfl⟩

theorem Showing.redraw
    {config : Config} {s : Ui} (h : Showing config s) :
    ∃ t, step config s (.key .redraw) = some t ∧ Showing config t := by
  have hrows : (requestListUpdate config (View.relined s)).1.shown.rows = s.shown.rows := by
    rw [h.rows, pageRows, ← h.bodyHeight]
    rfl
  rw [step_redraw h.toFitted.sized]
  apply (h.toFitted.relined.ends_requestListUpdate config).showing_updateView
  rw [hrows]
  exact h.rows_ne_nil

theorem processKey_ends_iff
    (config : Config) {s : Ui} (h : Showing config s) {k : Key} (hk : k ≠ .redraw) :
    ∃ r, processKey config k s = some r ∧ Ends config r.1 ∧
      (Fills r ↔ Finds config s (.key k)) := by
  cases k with
  | next =>
      obtain ⟨hends, hfills⟩ := nextRow_ends config h.restyled
      obtain ⟨r, hr, hr', hiff⟩ := moveItem_ends_iff h hends
      exact ⟨r, hr, hr', iff_of_true (hiff.mpr hfills) trivial⟩
  | prev =>
      obtain ⟨hends, hfills⟩ := prevRow_ends config h.restyled
      obtain ⟨r, hr, hr', hiff⟩ := moveItem_ends_iff h hends
      exact ⟨r, hr, hr', iff_of_true (hiff.mpr hfills) trivial⟩
  | low => exact jump_ends h fun _ => Nat.le_refl _
  | mid => exact jump_ends h fun _ => Nat.div_le_self _ 2
  | high => exact jump_ends h fun _ => Nat.zero_le _
  | select => exact selectItem_ends_iff config h
  | download => exact downloadItem_ends_iff config h
  | catchupFeed => exact catchupFeed_ends_iff config h
  | catchupAll =>
      obtain ⟨hends, hiff⟩ := orFeeds_ends_iff config (Cache.cacheReadFeed 0) h.toFitted
      exact ⟨_, rfl, hends, hiff⟩
  | toggleRead => exact toggleRead_ends_iff config h
  | exit => exact contextExit_ends_iff config h
  | redraw => exact absurd rfl hk
  | help => exact ⟨_, rfl, h.ends, iff_of_true (h.fills .update) trivial⟩

/-- A step that meets the condition is possible, and the screen shows the rows
again. -/
theorem showing_step
    (config : Config) {s : Ui} {e : Event} (he : ¬e.IsWinch) (h : Showing config s)
    (hfinds : Finds config s e) :
    ∃ t, step config s e = some t ∧ Showing config t := by
  cases e with
  | winch terminal fresh => exact absurd trivial he
  | key k =>
      by_cases hk : k = .redraw
      · rw [hk]
        exact h.redraw
      · obtain ⟨r, hr, hends, hiff⟩ := processKey_ends_iff config h hk
        obtain ⟨t, ht, hshowing⟩ := showing_afterKey hends (hiff.mpr hfinds)
        exact ⟨t, by rw [step, hr, Option.bind_some, ht], hshowing⟩
  | fetch rs ended =>
      rw [step, handleUrls]
      split
      · next hended =>
          exact (h.toFitted.ends_listAfter config (refreshed config rs)).showing_updateView
            (hfinds.1 hended)
      · next hgoing =>
          have hsame := hfinds.2 (Bool.eq_false_iff.mpr hgoing)
          exact ⟨_, rfl, h.toDrawn.withDb _, h.rows.trans hsame.symm⟩

/-- A step after which the screen shows the rows meets the condition. -/
theorem finds_of_shows
    (config : Config) {s t : Ui} {e : Event} (he : ¬e.IsWinch) (h : Showing config s)
    (ht : step config s e = some t) (hshows : Shows config t) :
    Finds config s e := by
  cases e with
  | winch terminal fresh => exact absurd trivial he
  | key k =>
      by_cases hk : k = .redraw
      · rw [hk]
        trivial
      · obtain ⟨r, hr, hends, hiff⟩ := processKey_ends_iff config h hk
        rw [step, hr, Option.bind_some] at ht
        exact hiff.mp (fills_of_shows hends ht hshows)
  | fetch rs ended =>
      rw [step, handleUrls] at ht
      refine ⟨?_, ?_⟩
      · intro hended
        rw [if_pos hended] at ht
        exact (h.toFitted.ends_listAfter config (refreshed config rs)).rows_ne_nil_of_updateView
          ht hshows
      · intro hgoing
        rw [if_neg (Bool.eq_false_iff.mp hgoing)] at ht
        cases ht
        have hrows := (h.toDrawn.withDb (refreshed config rs s.mw.db)).shows_iff.mp hshows
        exact hrows.symm.trans h.rows

/-! ## The start and the runs -/

/-- The first screen shows the feed list as it was before the first fetch. -/
theorem drawn_startUi
    (config : Config) (db : Db) {terminal : Terminal} (hcols : 3 ≤ terminal.cols) (fresh : Lines)
    (rs : List Refresh) :
    ∃ s, startUi config db terminal fresh rs none = some s ∧ Drawn s ∧
      s.shown.rows = listing config db .feeds 0 0 terminal.bodyHeight ∧
      pageRows config s s.mw.db =
        listing config (refreshed config rs db) .feeds 0 0 terminal.bodyHeight := by
  rw [startUi, setupUi_eq, Option.bind_eq_bind, Option.bind_some]
  set s := laidOut db terminal fresh
  have hfitted : Fitted s :=
    ⟨⟨rfl, terminal.bodyHeight_pos, hcols, rfl⟩, terminal.bodyHeight_pos,
      terminal.bodyHeight_pos, rfl, rfl⟩
  have hrows : pageRows config s s.mw.db ≠ [] :=
    listing_feeds_ne_nil config db 0 terminal.bodyHeight
  have hloaded := (hfitted.toReady.loaded_requestListUpdate hrows).withDb (refreshed config rs db)
  have hlisted := (hfitted.ends_requestListUpdate config).toFitted.withDb (refreshed config rs db)
  exact ⟨_, hloaded.updateView_eq, hloaded.drawn_drawLines hlisted, rfl, rfl⟩

/-- Without resizes, the screen shows the rows of the query just in the runs
where the first fetch does not change them and every step finds some. -/
theorem stays_shows_iff
    (config : Config) (db : Db) {terminal : Terminal} (hcols : 3 ≤ terminal.cols) (fresh : Lines)
    (rs : List Refresh) (es : List Event) (hes : ∀ e ∈ es, ¬e.IsWinch) :
    ∃ s, startUi config db terminal fresh rs none = some s ∧
      (Stays (step config) (Shows config) s es ↔
        listing config (refreshed config rs db) .feeds 0 0 terminal.bodyHeight =
          listing config db .feeds 0 0 terminal.bodyHeight ∧
        Meets (step config) (Finds config) s es) := by
  obtain ⟨s, hs, hdrawn, hshown, hpage⟩ := drawn_startUi config db hcols fresh rs
  refine ⟨s, hs, ?_⟩
  by_cases hsame : listing config (refreshed config rs db) .feeds 0 0 terminal.bodyHeight =
      listing config db .feeds 0 0 terminal.bodyHeight
  · have hshowing : Showing config s := ⟨hdrawn, by rw [hshown, hpage, hsame]⟩
    rw [and_iff_right hsame]
    refine stays_iff_meets (fun _ h => h.shows) ?_ ?_ hshowing
    · intro t e he ht hfinds
      exact showing_step config (hes e he) ht hfinds
    · rintro t e he ht ⟨u, hu, hshows⟩
      exact finds_of_shows config (hes e he) ht hu hshows
  · constructor
    · intro hstays
      have hrows := hdrawn.shows_iff.mp hstays.head
      rw [hshown, hpage] at hrows
      exact absurd hrows.symm hsame
    · rintro ⟨hsame', -⟩
      exact absurd hsame' hsame

/-- Neither read feeds nor read entries are listed. -/
def hidesRead : Config :=
  { unreadOnly with showReadFeeds := false }

/-- A screen with one row in its body. -/
def oneLine : Terminal := ⟨3, 20, by decide⟩

/-- Open the feed on the second page, turn to its second entry and mark the feed
read: neither the page of the entries nor that of the feed list has a row left,
and the feed list shows the entry. -/
theorem emptied_pages_show_entry :
    ∃ s, startUi hidesRead twoUnread oneLine blankLines [] none = some s ∧
      (runs (step hidesRead) s [.key .next, .key .select, .key .next, .key .catchupFeed]).map
        (fun t => (t.mw.ctxType, (t.mw.lv 0).id, t.mw.db.feed.rows.map Cache.Feed.feedID)) =
          some (.feeds, 2, [1]) ∧
      ¬Stays (step hidesRead) (Shows hidesRead) s
        [.key .next, .key .select, .key .next, .key .catchupFeed] := by
  have hruns : ((startUi hidesRead twoUnread oneLine blankLines [] none).map fun s =>
      decide ((runs (step hidesRead) s
          [.key .next, .key .select, .key .next, .key .catchupFeed]).map
        (fun t => (t.mw.ctxType, (t.mw.lv 0).id, t.mw.db.feed.rows.map Cache.Feed.feedID)) =
          some (.feeds, 2, [1]) ∧
      ¬Stays (step hidesRead) (Shows hidesRead) s
        [.key .next, .key .select, .key .next, .key .catchupFeed])) = some true := by
    decide +kernel
  obtain ⟨s, hs, hrun⟩ := Option.map_eq_some_iff.mp hruns
  exact ⟨s, hs, of_decide_eq_true hrun⟩

/-- Where the feed list keeps its page, it comes back as it is. -/
theorem read_feed_stays_shown :
    ∃ s, startUi unreadOnly twoUnread smallScreen blankLines [] none = some s ∧
      Stays (step unreadOnly) (Shows unreadOnly) s
        [.key .next, .key .select, .key .catchupFeed, .key .redraw] := by
  have hmeets : ((startUi unreadOnly twoUnread smallScreen blankLines [] none).map fun s =>
      decide (Meets (step unreadOnly) (Finds unreadOnly) s
        [.key .next, .key .select, .key .catchupFeed, .key .redraw])) = some true := by
    decide +kernel
  have hcols : 3 ≤ smallScreen.cols := by decide
  obtain ⟨s, hs, hiff⟩ := stays_shows_iff unreadOnly twoUnread hcols blankLines []
    [.key .next, .key .select, .key .catchupFeed, .key .redraw] (by simp [Event.IsWinch])
  rw [hs] at hmeets
  exact ⟨s, hs, hiff.mpr ⟨rfl, of_decide_eq_true (Option.some.inj hmeets)⟩⟩

end View
end Newsbaoter
