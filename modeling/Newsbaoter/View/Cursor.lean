import Newsbaoter.View.Settled

/-!
# The cursor and the rows on the screen

A handler lists again without looking at the cursor, so a listing that has lost
rows can leave the cursor behind its last row.  Where each listing keeps a row
at the cursor, the screen and the listing stay in step.
-/

namespace Newsbaoter
namespace View

open Newsbaoter.Support
open Newsbaoter.Cache (Db Refresh)

/-- The current listing has rows, `content_bw_max` is the index of its last one,
and `lv` has at the cursor the row of the listing that is shown there. -/
structure InStep (s : Ui) : Prop where
  ctxType : s.shown.ctxType = s.mw.ctxType
  ctxId : s.shown.ctxId = s.mw.ctxId
  page : s.shown.page = s.mw.page
  last : s.contentBwMax + 1 = s.shown.rows.length
  cursorI : s.cursorI ≤ s.contentBwMax
  row : s.shown.rows[s.cursorI]? = some (s.mw.lv s.cursorI)

instance (s : Ui) : Decidable (InStep s) :=
  decidable_of_iff
    (s.shown.ctxType = s.mw.ctxType ∧ s.shown.ctxId = s.mw.ctxId ∧ s.shown.page = s.mw.page ∧
      s.contentBwMax + 1 = s.shown.rows.length ∧ s.cursorI ≤ s.contentBwMax ∧
      s.shown.rows[s.cursorI]? = some (s.mw.lv s.cursorI))
    ⟨fun ⟨hctx, hid, hpage, hlast, hcursor, hrow⟩ => ⟨hctx, hid, hpage, hlast, hcursor, hrow⟩,
      fun h => ⟨h.ctxType, h.ctxId, h.page, h.last, h.cursorI, h.row⟩⟩

theorem Settled.inStep {s : Ui} (h : Settled s) : InStep s where
  ctxType := h.ctxType
  ctxId := h.ctxId
  page := h.page
  last := h.last
  cursorI := h.cursorI
  row := by rw [List.getElem?_eq_getElem h.cursor_lt, h.lv _ h.cursor_lt]

/-! ## What keeps in step -/

/-- The rows of the feed list at the page where it was left. -/
def feedsRows (config : Config) (s : Ui) (db : Db) : List Listview :=
  listing config db .feeds 0 s.backupPageNum s.mw.bodyLen

/-- With the database `db`, the cursor has a row: on the current page or, if
that has become empty, on the page of the feed list that comes up instead. -/
def Rests (config : Config) (s : Ui) (db : Db) : Prop :=
  s.cursorI <
    (if pageRows config s db = [] then feedsRows config s db else pageRows config s db).length

/-- `toggle_read` does not ask for a repaint in the list of one feed that shows
read entries. -/
def RepaintsToggle (config : Config) (s : Ui) : Prop :=
  s.mw.ctxId = 0 ∨ config.showReadEntries = false

instance (config : Config) (s : Ui) : Decidable (RepaintsToggle config s) :=
  inferInstanceAs (Decidable (_ ∨ _))

/-- The test of `toggle_read`, in the state it is made in. -/
theorem repaintsToggle_iff (config : Config) (id : ℤ) (s : Ui) :
    RepaintsToggle config s ↔
      (restyled (toggleReadIpc config id s).1).mw.ctxId = 0 ∨
        (!config.showReadEntries) = true := by
  rw [Bool.not_eq_true']
  rfl

/-- The condition on the state before a step. -/
def Keeps (config : Config) (s : Ui) : Event → Prop
  | .key .prev =>
      s.cursorI = 0 → 0 < s.mw.page →
        (pageRows config (prevPage s) s.mw.db).length = s.mw.bodyLen
  | .key .select =>
      let id := (s.mw.lv s.cursorI).id
      (s.mw.ctxType = .feeds → pageRows config (openEntries id s) s.mw.db = [] →
        (feedsRows config (openEntries id s) s.mw.db).length = s.contentBwMax + 1) ∧
      (s.mw.ctxType = .entries → Rests config s (Cache.cacheWriteEntryField id s.mw.db))
  | .key .download =>
      s.mw.ctxType = .entries →
        Rests config s (Cache.cacheWriteEntryField (s.mw.lv s.cursorI).id s.mw.db)
  | .key .catchupFeed =>
      (s.mw.ctxType = .feeds → s.cursorI <
        (pageRows config s (Cache.cacheReadFeed (s.mw.lv s.cursorI).id s.mw.db)).length) ∧
      (s.mw.ctxType = .entries → Rests config s (Cache.cacheReadFeed s.mw.ctxId s.mw.db))
  | .key .catchupAll => Rests config s (Cache.cacheReadFeed 0 s.mw.db)
  | .key .toggleRead =>
      let db := Cache.cacheToggleReadEntry (s.mw.lv s.cursorI).id (-1) s.mw.db
      s.mw.ctxType = .entries →
        if pageRows config s db = [] ∨ RepaintsToggle config s then Rests config s db
        else (pageRows config s db).length = s.contentBwMax + 1
  | .key .exit =>
      s.mw.ctxType = .entries →
        s.backupCursorI < (feedsRows config s s.mw.db).length
  | .fetch rs ended =>
      ended = true → s.cursorI < (pageRows config s (refreshed config rs s.mw.db)).length
  | _ => True

instance (config : Config) (s : Ui) (db : Db) : Decidable (Rests config s db) :=
  inferInstanceAs (Decidable (_ < _))

instance (config : Config) (s : Ui) : ∀ e, Decidable (Keeps config s e)
  | .key .prev => inferInstanceAs (Decidable (_ → _ → _ = _))
  | .key .select => inferInstanceAs (Decidable ((_ → _ → _ = _) ∧ (_ → Rests _ _ _)))
  | .key .download => inferInstanceAs (Decidable (_ → Rests _ _ _))
  | .key .catchupFeed => inferInstanceAs (Decidable ((_ → _ < _) ∧ (_ → Rests _ _ _)))
  | .key .catchupAll => inferInstanceAs (Decidable (Rests _ _ _))
  | .key .toggleRead => inferInstanceAs (Decidable (_ → _))
  | .key .exit => inferInstanceAs (Decidable (_ → _ < _))
  | .fetch _ _ => inferInstanceAs (Decidable (_ → _ < _))
  | .key .next | .key .low | .key .mid | .key .high | .key .redraw | .key .help => isTrue trivial
  | .winch _ _ => isTrue trivial

/-- The events that go through `resize_mainwindow`. -/
def Event.Resizes : Event → Prop
  | .key .redraw => True
  | .winch _ _ => True
  | _ => False

/-- The signal of the terminal, the only event that comes with a new size. -/
def Event.IsWinch : Event → Prop
  | .winch _ _ => True
  | _ => False

/-! ## The handlers -/

/-- After a handler the cursor has a row, and `content_bw_max` is up to date
where no repaint is to come. -/
def Lands (r : Ui × KhRet) : Prop :=
  r.1.cursorI < r.1.shown.rows.length ∧
    (r.2 = .ok → r.1.contentBwMax + 1 = r.1.shown.rows.length)

theorem lands_update_iff {s : Ui} :
    Lands (s, .update) ↔ s.cursorI < s.shown.rows.length := by
  simp [Lands]

/-- Without a repaint, it is enough that the number of rows is the old one. -/
theorem lands_ok_iff
    {s : Ui} (hcursor : s.cursorI ≤ s.contentBwMax) :
    Lands (s, .ok) ↔ s.shown.rows.length = s.contentBwMax + 1 := by
  constructor
  · rintro ⟨-, hlength⟩
    exact (hlength rfl).symm
  · intro hlength
    exact ⟨by dsimp only; omega, fun _ => hlength.symm⟩

theorem Settled.lands {s : Ui} (h : Settled s) (ret : KhRet) : Lands (s, ret) :=
  ⟨h.cursor_lt, fun _ => h.last⟩

theorem settled_afterKey
    (config : Config) {r : Ui × KhRet} (h : Reloaded r.1) (hlands : Lands r) :
    ∃ t, afterKey config r = some t ∧ Settled t := by
  obtain ⟨hcursor, hlast⟩ := hlands
  have hloaded : Loaded r.1 :=
    h.loaded (List.length_pos_iff.mp (Nat.zero_lt_of_lt hcursor))
  rw [afterKey]
  split
  · next hok =>
      have hlast := hlast hok
      exact ⟨r.1, rfl, hloaded, hlast, by omega⟩
  · exact hloaded.settled_updateView hcursor
  · exact hloaded.settled_updateView hcursor

theorem InStep.cursor_lt {s : Ui} (h : InStep s) : s.cursorI < s.shown.rows.length := by
  have hlast := h.last
  have hcursor := h.cursorI
  omega

theorem lands_of_inStep
    {config : Config} {r : Ui × KhRet} {t : Ui} (h : Ready r.1)
    (ht : afterKey config r = some t) (hstep : InStep t) :
    Lands r := by
  rw [afterKey] at ht
  split at ht
  · cases ht
    exact ⟨hstep.cursor_lt, fun _ => hstep.last⟩
  · next hexit =>
      rw [h.updateView_eq] at ht
      cases ht
      exact ⟨hstep.cursor_lt, fun hok => by rw [hexit] at hok; cases hok⟩
  · next hupdate =>
      rw [h.updateView_eq] at ht
      cases ht
      exact ⟨hstep.cursor_lt, fun hok => by rw [hupdate] at hok; cases hok⟩

theorem moveItem_lands_iff
    {move : Ui → Ui × KhRet} {s : Ui} (h : Settled s)
    (hmove : Reloaded (move (restyled s)).1)
    (hcursor : (move (restyled s)).1.cursorI < (move (restyled s)).1.mw.bodyLen) :
    ∃ r, moveItem move s = some r ∧ Reloaded r.1 ∧ (Lands r ↔ Lands (move (restyled s))) :=
  ⟨_, moveItem_of_inBounds h.inBounds ⟨hmove.bwLen, hcursor⟩, hmove.restyled hcursor, Iff.rfl⟩

theorem moveItem_lands
    {move : Ui → Ui × KhRet} {s : Ui} (h : Settled s)
    (hmove : Reloaded (move (restyled s)).1) (hlands : Lands (move (restyled s))) :
    ∃ r, moveItem move s = some r ∧ Reloaded r.1 ∧ (Lands r ↔ True) := by
  have hloaded := hmove.loaded (List.length_pos_iff.mp (Nat.zero_lt_of_lt hlands.1))
  obtain ⟨r, hr, hreloaded, hiff⟩ :=
    moveItem_lands_iff h hmove (Nat.lt_of_lt_of_le hlands.1 hloaded.rows_le)
  exact ⟨r, hr, hreloaded, iff_of_true (hiff.mpr hlands) trivial⟩

theorem lands_withCursor
    {s : Ui} (h : Settled s) {c : ℕ} (hc : c ≤ s.contentBwMax) :
    Lands ({ s with cursorI := c }, .ok) := by
  have hlast := h.last
  exact ⟨by dsimp only; omega, fun _ => hlast⟩

theorem jump_lands
    {target : Ui → ℕ} {s : Ui} (h : Settled s) (htarget : ∀ t, target t ≤ t.contentBwMax) :
    ∃ r, moveItem (fun t => ({ t with cursorI := target t }, .ok)) s = some r ∧
      Reloaded r.1 ∧ (Lands r ↔ True) :=
  moveItem_lands h (h.restyled.withCursor _).reloaded
    (lands_withCursor h.restyled (htarget (restyled s)))

/-- Turning back from an empty page undoes all but the move to the last row. -/
theorem undoPage_of_nil
    {config : Config} {s : Ui} (hrows : pageRows config (nextPage s) s.mw.db = []) :
    undoPage s.shown (requestListUpdate config (nextPage s)).1 =
      { s with cursorI := s.contentBwMax } := by
  rw [requestListUpdate, cacheGenLines_of_nil hrows]
  rfl

/-- The next page has rows, or the page before is restored. -/
theorem nextRow_lands
    (config : Config) {s : Ui} (h : Settled s) :
    Reloaded (nextRow config s).1 ∧ Lands (nextRow config s) := by
  rw [nextRow]
  split
  · next hmore => exact ⟨(h.withCursor _).reloaded, lands_withCursor h hmore⟩
  · split
    · have hready : Ready (nextPage s) := ⟨h.bwLen, h.bodyLen_pos, h.width, h.newsize⟩
      dsimp only
      by_cases hrows : pageRows config (nextPage s) s.mw.db = []
      · rw [if_pos (hready.requestListUpdate_snd.mpr hrows)]
        rw [undoPage_of_nil hrows]
        exact ⟨(h.withCursor _).reloaded, lands_withCursor h (Nat.le_refl _)⟩
      · rw [if_neg (fun hnone => hrows (hready.requestListUpdate_snd.mp hnone))]
        exact ⟨hready.reloaded_requestListUpdate config,
          lands_update_iff.mpr (List.length_pos_iff.mpr hrows)⟩
    · exact ⟨h.reloaded, h.lands .ok⟩

theorem prevRow_lands_iff
    (config : Config) {s : Ui} (h : Settled s) :
    Reloaded (prevRow config s).1 ∧
      (prevRow config s).1.cursorI < (prevRow config s).1.mw.bodyLen ∧
      (Lands (prevRow config s) ↔ Keeps config s (.key .prev)) := by
  have hpos := h.bodyLen_pos
  have hcursor := h.inBounds.cursorI
  rw [prevRow]
  unfold Keeps
  dsimp only
  split
  · next hup =>
      refine ⟨(h.withCursor _).reloaded, Nat.lt_of_le_of_lt (Nat.sub_le _ _) hcursor, ?_⟩
      apply iff_of_true (lands_withCursor h (Nat.le_trans (Nat.sub_le _ _) h.cursorI))
      intro htop
      omega
  · next htop =>
      split
      · next hpage =>
          have hready : Ready (prevPage s) := ⟨h.bwLen, hpos, h.width, h.newsize⟩
          have hle : (pageRows config (prevPage s) s.mw.db).length ≤ s.mw.bodyLen :=
            length_listing_le config s.mw.db s.mw.ctxType s.mw.ctxId (s.mw.page - 1) hpos
          refine ⟨hready.reloaded_requestListUpdate config, Nat.sub_lt hpos Nat.one_pos, ?_⟩
          rw [lands_update_iff]
          have hrow : (requestListUpdate config (prevPage s)).1.cursorI <
              (requestListUpdate config (prevPage s)).1.shown.rows.length ↔
              s.mw.bodyLen - 1 < (pageRows config (prevPage s) s.mw.db).length := Iff.rfl
          rw [hrow]
          omega
      · next hpage =>
          refine ⟨h.reloaded, hcursor, iff_of_true (h.lands .ok) ?_⟩
          intro _ hpage'
          exact absurd hpage' hpage

/-- After a change of the database, the cursor has to have a row still. -/
theorem orFeeds_lands_iff
    (config : Config) (change : Db → Db) {s : Ui} (h : Ready s) :
    Reloaded (orFeeds config (listAfter config change s)) ∧
      (Lands (orFeeds config (listAfter config change s), .update) ↔
        Rests config s (change s.mw.db)) := by
  rw [lands_update_iff, Rests, orFeeds]
  by_cases hrows : pageRows config s (change s.mw.db) = []
  · rw [if_pos (h.listAfter_snd.mpr hrows), if_pos hrows]
    have hlisted : Ready (listAfter config change s).1 := h.reloaded_listAfter.toReady
    exact ⟨hlisted.reloaded_viewToFeeds config, Iff.rfl⟩
  · rw [if_neg (fun hnone => hrows (h.listAfter_snd.mp hnone)), if_neg hrows]
    exact ⟨h.reloaded_listAfter, Iff.rfl⟩

theorem selectItem_lands_iff
    (config : Config) {s : Ui} (h : Settled s) :
    ∃ r, selectItem config s = some r ∧ Reloaded r.1 ∧
      (Lands r ↔ Keeps config s (.key .select)) := by
  simp only [selectItem, idAtCursor_of_inBounds h.inBounds, Option.bind_eq_bind,
    Option.bind_some]
  unfold Keeps
  dsimp only
  cases hctx : s.mw.ctxType with
  | entries =>
      obtain ⟨hreloaded, hiff⟩ := orFeeds_lands_iff config
        (Cache.cacheWriteEntryField (s.mw.lv s.cursorI).id) h.toReady
      exact ⟨_, rfl, hreloaded, hiff.trans (by simp)⟩
  | feeds =>
      dsimp only
      set id := (s.mw.lv s.cursorI).id
      have hready : Ready (openEntries id s) := ⟨h.bwLen, h.bodyLen_pos, h.width, h.newsize⟩
      have hreloaded := hready.reloaded_requestListUpdate config
      by_cases hrows : pageRows config (openEntries id s) s.mw.db = []
      · rw [if_pos (hready.requestListUpdate_snd.mpr hrows)]
        have hfeeds := hreloaded.toReady.reloaded_viewToFeeds config
        have hcursor : (viewToFeeds config
            (requestListUpdate config (openEntries id s)).1).cursorI ≤ s.contentBwMax :=
          h.cursorI
        refine ⟨_, rfl, hfeeds, (lands_ok_iff hcursor).trans ?_⟩
        exact ⟨fun hlength => ⟨fun _ _ => hlength, by rintro ⟨⟩⟩, fun h => h.1 rfl hrows⟩
      · rw [if_neg (fun hnone => hrows (hready.requestListUpdate_snd.mp hnone))]
        have hcursor := h.inBounds.cursorI
        rw [restyleFocusItem_of_inBounds ⟨hreloaded.bwLen, hcursor⟩, Option.bind_some]
        set t := restyled (requestListUpdate config (openEntries id s)).1
        have ht : Loaded t := (hready.loaded_requestListUpdate hrows).restyled hcursor
        have htop : Loaded (toFirstRow t) := ht.repaint t.contentBwMax 0 t.cursorI ht.painted
        rw [restyleFocusItem_of_inBounds (htop.inBounds ht.bodyLen_pos), Option.bind_some]
        refine ⟨_, rfl, (htop.restyled ht.bodyLen_pos).reloaded, ?_⟩
        apply iff_of_true (lands_update_iff.mpr ht.rows_pos)
        exact ⟨fun _ hnil => absurd hnil hrows, by rintro ⟨⟩⟩

theorem downloadItem_lands_iff
    (config : Config) {s : Ui} (h : Settled s) :
    ∃ r, downloadItem config s = some r ∧ Reloaded r.1 ∧
      (Lands r ↔ Keeps config s (.key .download)) := by
  rw [downloadItem]
  unfold Keeps
  dsimp only
  cases hctx : s.mw.ctxType with
  | feeds =>
      refine ⟨_, rfl, h.reloaded, iff_of_true (h.lands .update) ?_⟩
      rintro ⟨⟩
  | entries =>
      dsimp only
      rw [idAtCursor_of_inBounds h.inBounds]
      obtain ⟨hreloaded, hiff⟩ := orFeeds_lands_iff config
        (Cache.cacheWriteEntryField (s.mw.lv s.cursorI).id) h.toReady
      exact ⟨_, rfl, hreloaded, hiff.trans ⟨fun hrests _ => hrests, fun hrests => hrests rfl⟩⟩

theorem catchupFeed_lands_iff
    (config : Config) {s : Ui} (h : Settled s) :
    ∃ r, catchupFeed config s = some r ∧ Reloaded r.1 ∧
      (Lands r ↔ Keeps config s (.key .catchupFeed)) := by
  rw [catchupFeed]
  unfold Keeps
  dsimp only
  cases hctx : s.mw.ctxType with
  | feeds =>
      simp only [idAtCursor_of_inBounds h.inBounds, Option.bind_eq_bind, Option.bind_some]
      set id := (s.mw.lv s.cursorI).id
      have hreloaded : Reloaded (catchupEntries config id s).1 := h.toReady.reloaded_listAfter
      have hcursor : (catchupEntries config id s).1.cursorI <
          (catchupEntries config id s).1.mw.bodyLen := h.inBounds.cursorI
      rw [restyleFocusItem_of_inBounds ⟨hreloaded.bwLen, hcursor⟩, Option.bind_some]
      exact ⟨_, rfl, hreloaded.restyled hcursor, lands_update_iff.trans
        ⟨fun hrow => ⟨fun _ => hrow, by rintro ⟨⟩⟩, fun h => h.1 trivial⟩⟩
  | entries =>
      obtain ⟨hreloaded, hiff⟩ := orFeeds_lands_iff config
        (Cache.cacheReadFeed s.mw.ctxId) h.toReady
      exact ⟨_, rfl, hreloaded, hiff.trans (by simp)⟩

theorem catchupAll_lands_iff
    (config : Config) {s : Ui} (h : Settled s) :
    ∃ r, catchupAll config s = some r ∧ Reloaded r.1 ∧
      (Lands r ↔ Keeps config s (.key .catchupAll)) := by
  obtain ⟨hreloaded, hiff⟩ := orFeeds_lands_iff config (Cache.cacheReadFeed 0) h.toReady
  exact ⟨_, rfl, hreloaded, hiff⟩

theorem toggleRead_lands_iff
    (config : Config) {s : Ui} (h : Settled s) :
    ∃ r, toggleRead config s = some r ∧ Reloaded r.1 ∧
      (Lands r ↔ Keeps config s (.key .toggleRead)) := by
  rw [toggleRead]
  unfold Keeps
  dsimp only
  cases hctx : s.mw.ctxType with
  | feeds =>
      refine ⟨_, rfl, h.reloaded, iff_of_true (h.lands .ok) ?_⟩
      rintro ⟨⟩
  | entries =>
      dsimp only
      simp only [idAtCursor_of_inBounds h.inBounds, Option.bind_eq_bind, Option.bind_some,
        forall_const]
      set id := (s.mw.lv s.cursorI).id
      have hlisted : Reloaded (toggleReadIpc config id s).1 := h.toReady.reloaded_listAfter
      have hsnd : (toggleReadIpc config id s).2 = true ↔
          pageRows config s (Cache.cacheToggleReadEntry id (-1) s.mw.db) = [] :=
        h.toReady.listAfter_snd
      by_cases hrows : pageRows config s (Cache.cacheToggleReadEntry id (-1) s.mw.db) = []
      · rw [if_pos (hsnd.mpr hrows), if_pos (Or.inl hrows), Rests, if_pos hrows]
        exact ⟨_, rfl, hlisted.toReady.reloaded_viewToFeeds config, lands_update_iff⟩
      · have hcursor : (toggleReadIpc config id s).1.cursorI <
            (toggleReadIpc config id s).1.mw.bodyLen := h.inBounds.cursorI
        rw [if_neg (fun hnone => hrows (hsnd.mp hnone)),
          restyleFocusItem_of_inBounds ⟨hlisted.bwLen, hcursor⟩, Option.bind_some]
        refine ⟨_, rfl, hlisted.restyled hcursor, ?_⟩
        have hasks := repaintsToggle_iff config id s
        by_cases hrepaints : RepaintsToggle config s
        · rw [if_pos (Or.inr hrepaints), if_pos (hasks.mp hrepaints), Rests, if_neg hrows]
          exact lands_update_iff
        · rw [if_neg (fun h => hrepaints (hasks.mpr h)), if_neg (not_or_intro hrows hrepaints)]
          exact lands_ok_iff h.cursorI

theorem contextExit_lands_iff
    (config : Config) {s : Ui} (h : Settled s) :
    ∃ r, contextExit config s = some r ∧ Reloaded r.1 ∧
      (Lands r ↔ Keeps config s (.key .exit)) := by
  rw [contextExit]
  unfold Keeps
  dsimp only
  cases hctx : s.mw.ctxType with
  | feeds =>
      refine ⟨_, rfl, h.reloaded, iff_of_true (h.lands .exit) ?_⟩
      rintro ⟨⟩
  | entries =>
      have hready : Ready { s with cursorI := s.backupCursorI } :=
        ⟨h.bwLen, h.bodyLen_pos, h.width, h.newsize⟩
      exact ⟨_, rfl, hready.reloaded_viewToFeeds config,
        lands_update_iff.trans ⟨fun hrow _ => hrow, fun hrow => hrow rfl⟩⟩

/-! ## One step -/

theorem processKey_lands_iff
    (config : Config) {s : Ui} (h : Settled s) {k : Key} (hk : ¬(Event.key k).Resizes) :
    ∃ r, processKey config k s = some r ∧ Reloaded r.1 ∧
      (Lands r ↔ Keeps config s (.key k)) := by
  cases k with
  | next =>
      obtain ⟨hreloaded, hlands⟩ := nextRow_lands config h.restyled
      exact moveItem_lands h hreloaded hlands
  | prev =>
      obtain ⟨hreloaded, hcursor, hiff⟩ := prevRow_lands_iff config h.restyled
      obtain ⟨r, hr, hr', hlands⟩ := moveItem_lands_iff h hreloaded hcursor
      exact ⟨r, hr, hr', hlands.trans hiff⟩
  | low => exact jump_lands h fun _ => Nat.le_refl _
  | mid => exact jump_lands h fun _ => Nat.div_le_self _ 2
  | high => exact jump_lands h fun _ => Nat.zero_le _
  | select => exact selectItem_lands_iff config h
  | download => exact downloadItem_lands_iff config h
  | catchupFeed => exact catchupFeed_lands_iff config h
  | catchupAll => exact catchupAll_lands_iff config h
  | toggleRead => exact toggleRead_lands_iff config h
  | exit => exact contextExit_lands_iff config h
  | redraw => exact absurd trivial hk
  | help => exact ⟨_, rfl, h.reloaded, iff_of_true (h.lands .update) trivial⟩

/-- A step that meets the condition is possible and settles again. -/
theorem settled_step
    (config : Config) {s : Ui} {e : Event} (he : ¬e.Resizes) (h : Settled s)
    (hkeeps : Keeps config s e) :
    ∃ t, step config s e = some t ∧ Settled t := by
  cases e with
  | winch terminal fresh => exact absurd trivial he
  | key k =>
      obtain ⟨r, hr, hreloaded, hiff⟩ := processKey_lands_iff config h he
      obtain ⟨t, ht, hsettled⟩ := settled_afterKey config hreloaded (hiff.mpr hkeeps)
      exact ⟨t, by rw [step, hr, Option.bind_some, ht], hsettled⟩
  | fetch rs ended =>
      rw [step, handleUrls]
      split
      · next hended =>
          have hcursor := hkeeps hended
          have hrows : pageRows config s (refreshed config rs s.mw.db) ≠ [] :=
            List.length_pos_iff.mp (Nat.zero_lt_of_lt hcursor)
          exact (h.toReady.reloaded_listAfter.loaded hrows).settled_updateView hcursor
      · exact ⟨_, rfl, h.toLoaded.withDb _, h.last, h.cursorI⟩

/-- A step that ends in step meets the condition. -/
theorem keeps_of_inStep
    (config : Config) {s t : Ui} {e : Event} (he : ¬e.Resizes) (h : Settled s)
    (ht : step config s e = some t) (hstep : InStep t) :
    Keeps config s e := by
  cases e with
  | winch terminal fresh => exact absurd trivial he
  | key k =>
      obtain ⟨r, hr, hreloaded, hiff⟩ := processKey_lands_iff config h he
      rw [step, hr, Option.bind_some] at ht
      exact hiff.mp (lands_of_inStep hreloaded.toReady ht hstep)
  | fetch rs ended =>
      intro hended
      rw [step, handleUrls, if_pos hended,
        h.toReady.reloaded_listAfter.toReady.updateView_eq] at ht
      cases ht
      exact hstep.cursor_lt

/-! ## The start and the runs -/

/-- The first screen shows the feed list from the aggregate row on. -/
theorem settled_startUi
    (config : Config) (db : Db) {terminal : Terminal} (hcols : 3 ≤ terminal.cols) (fresh : Lines)
    (rs : List Refresh) :
    ∃ s, startUi config db terminal fresh rs none = some s ∧ Settled s := by
  rw [startUi, setupUi_eq, Option.bind_eq_bind, Option.bind_some]
  set s := laidOut db terminal fresh
  have hready : Ready s := ⟨rfl, terminal.bodyHeight_pos, hcols, rfl⟩
  have hrows : pageRows config s s.mw.db ≠ [] :=
    listing_feeds_ne_nil config db 0 terminal.bodyHeight
  have hloaded := hready.loaded_requestListUpdate hrows
  exact (hloaded.withDb _).settled_updateView hloaded.rows_pos

/-- Without resizes, the screen stays in step just in the runs whose every step
keeps a row at the cursor. -/
theorem stays_inStep_iff
    (config : Config) (db : Db) {terminal : Terminal} (hcols : 3 ≤ terminal.cols) (fresh : Lines)
    (rs : List Refresh) (es : List Event) (hes : ∀ e ∈ es, ¬e.Resizes) :
    ∃ s, startUi config db terminal fresh rs none = some s ∧
      (Stays (step config) InStep s es ↔ Meets (step config) (Keeps config) s es) := by
  obtain ⟨s, hs, hsettled⟩ := settled_startUi config db hcols fresh rs
  refine ⟨s, hs, stays_iff_meets (fun _ h => h.inStep) ?_ ?_ hsettled⟩
  · intro t e he ht hkeeps
    exact settled_step config (hes e he) ht hkeeps
  · rintro t e he ht ⟨u, hu, hstep⟩
    exact keeps_of_inStep config (hes e he) ht hu hstep

/-- Open the aggregate of two unread entries and toggle the second: its row
vanishes, and the cursor stays behind the row that is left. -/
theorem toggle_last_row_leaves_cursor :
    ∃ s, startUi unreadOnly twoUnread smallScreen blankLines [] none = some s ∧
      (runs (step unreadOnly) s [.key .select, .key .next, .key .toggleRead]).map
        (fun t => (t.shown.rows.length, t.contentBwMax, t.cursorI)) = some (1, 0, 1) ∧
      ¬Stays (step unreadOnly) InStep s [.key .select, .key .next, .key .toggleRead] := by
  have hruns : ((startUi unreadOnly twoUnread smallScreen blankLines [] none).map fun s =>
      decide ((runs (step unreadOnly) s [.key .select, .key .next, .key .toggleRead]).map
        (fun t => (t.shown.rows.length, t.contentBwMax, t.cursorI)) = some (1, 0, 1) ∧
      ¬Stays (step unreadOnly) InStep s [.key .select, .key .next, .key .toggleRead])) =
        some true := by
    decide +kernel
  obtain ⟨s, hs, hrun⟩ := Option.map_eq_some_iff.mp hruns
  exact ⟨s, hs, of_decide_eq_true hrun⟩

/-- Toggling the first of the two and leaving keeps the screen in step. -/
theorem toggle_first_row_stays_inStep :
    ∃ s, startUi unreadOnly twoUnread smallScreen blankLines [] none = some s ∧
      Stays (step unreadOnly) InStep s [.key .select, .key .toggleRead, .key .exit] := by
  have hmeets : ((startUi unreadOnly twoUnread smallScreen blankLines [] none).map fun s =>
      decide (Meets (step unreadOnly) (Keeps unreadOnly) s
        [.key .select, .key .toggleRead, .key .exit])) = some true := by
    decide +kernel
  have hcols : 3 ≤ smallScreen.cols := by decide
  obtain ⟨s, hs, hiff⟩ := stays_inStep_iff unreadOnly twoUnread hcols blankLines []
    [.key .select, .key .toggleRead, .key .exit] (by simp [Event.Resizes])
  rw [hs] at hmeets
  exact ⟨s, hs, hiff.mpr (of_decide_eq_true (Option.some.inj hmeets))⟩

end View
end Newsbaoter
