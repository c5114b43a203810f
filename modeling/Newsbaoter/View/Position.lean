import Newsbaoter.View.Stale

/-!
# The position in a list

Row `k` of a list is row `k % body_len` of page `k / body_len`.  On a list that
does not change, `next_item` and `prev_item` step through these positions, also
where a page ends: there the handler turns the page, and turns it back when the
page it finds is empty.
-/

namespace Newsbaoter
namespace View

open Newsbaoter.Support
open Newsbaoter.Cache (Db)

/-! ## Positions -/

/-- The rows of the current list over all its pages. -/
def fullRows (config : Config) (s : Ui) : List Listview :=
  fullListing config s.mw.db s.mw.ctxType s.mw.ctxId

/-- The page and the cursor are those of row `k` of the current list. -/
structure Aimed (config : Config) (k : ℕ) (s : Ui) : Prop where
  bwLen : s.bwLen = s.mw.bodyLen
  bodyLen_pos : 0 < s.mw.bodyLen
  newsize : s.newsize = false
  row : k < (fullRows config s).length
  page : s.mw.page = k / s.mw.bodyLen
  cursorI : s.cursorI = k % s.mw.bodyLen

/-- Moreover the screen shows that page. -/
structure At (config : Config) (k : ℕ) (s : Ui) : Prop extends Aimed config k s where
  shows : Shows config s

/-- The list and the window are the same. -/
structure SameList (s t : Ui) : Prop where
  bodyLen : t.mw.bodyLen = s.mw.bodyLen
  width : t.mw.width = s.mw.width
  ctxType : t.mw.ctxType = s.mw.ctxType
  ctxId : t.mw.ctxId = s.mw.ctxId
  db : t.mw.db = s.mw.db

/-- A row shows a digit of its number, or there is just one. -/
def Legible (s : Ui) : Prop :=
  3 ≤ s.mw.width ∨ s.mw.bodyLen = 1

theorem SameList.trans {s t u : Ui} (h : SameList s t) (h' : SameList t u) : SameList s u where
  bodyLen := h'.bodyLen.trans h.bodyLen
  width := h'.width.trans h.width
  ctxType := h'.ctxType.trans h.ctxType
  ctxId := h'.ctxId.trans h.ctxId
  db := h'.db.trans h.db

theorem SameList.fullRows
    {s t : Ui} (h : SameList s t) (config : Config) :
    View.fullRows config t = View.fullRows config s := by
  rw [View.fullRows, h.db, h.ctxType, h.ctxId, View.fullRows]

theorem SameList.legible {s t : Ui} (h : SameList s t) (hlegible : Legible s) : Legible t := by
  rw [Legible, h.width, h.bodyLen]
  exact hlegible

theorem aimed_of_eq
    {config : Config} {k : ℕ} {s : Ui} (h : InBounds s) (hnewsize : s.newsize = false)
    (hk : k = s.mw.page * s.mw.bodyLen + s.cursorI) (hrow : k < (fullRows config s).length) :
    Aimed config k s := by
  have hpos := Nat.zero_lt_of_lt h.cursorI
  have hsum : s.cursorI + s.mw.bodyLen * s.mw.page = k := by
    rw [hk, Nat.add_comm, Nat.mul_comm]
  obtain ⟨hdiv, hmod⟩ := (Nat.div_mod_unique hpos).mpr ⟨hsum, h.cursorI⟩
  exact ⟨h.bwLen, hpos, hnewsize, hrow, hdiv.symm, hmod.symm⟩

theorem Aimed.inBounds {config : Config} {k : ℕ} {s : Ui} (h : Aimed config k s) : InBounds s := by
  refine ⟨h.bwLen, ?_⟩
  rw [h.cursorI]
  exact Nat.mod_lt k h.bodyLen_pos

theorem Aimed.eq
    {config : Config} {k : ℕ} {s : Ui} (h : Aimed config k s) :
    k = s.mw.page * s.mw.bodyLen + s.cursorI := by
  rw [h.page, h.cursorI, Nat.mul_comm]
  exact (Nat.div_add_mod k s.mw.bodyLen).symm

/-- A page has the rows of the window, up to the end of the list. -/
theorem length_pageRows
    (config : Config) {s : Ui} (hpos : 0 < s.mw.bodyLen) :
    (pageRows config s s.mw.db).length =
      min s.mw.bodyLen ((fullRows config s).length - s.mw.page * s.mw.bodyLen) := by
  rw [pageRows, listing_eq_page _ _ _ _ _ hpos, length_page, fullRows]

theorem Aimed.pageRows_ne_nil
    {config : Config} {k : ℕ} {s : Ui} (h : Aimed config k s) :
    pageRows config s s.mw.db ≠ [] := by
  have hpos := h.bodyLen_pos
  have hrow := h.row
  have heq := h.eq
  apply List.length_pos_iff.mp
  rw [length_pageRows config hpos]
  omega

theorem At.last
    {config : Config} {k : ℕ} {s : Ui} (h : At config k s) :
    s.contentBwMax + 1 =
      min s.mw.bodyLen ((fullRows config s).length - s.mw.page * s.mw.bodyLen) := by
  rw [h.shows.length, length_pageRows config h.bodyLen_pos]

/-- The row at the cursor is row `k` of the list. -/
theorem At.lv_cursorI
    {config : Config} {k : ℕ} {s : Ui} (h : At config k s) :
    (fullRows config s)[k]? = some (s.mw.lv s.cursorI) := by
  have hcursor := h.inBounds.cursorI
  have hrow := h.row
  have hlast := h.last
  have heq := h.eq
  have hlt : s.cursorI < s.contentBwMax + 1 := by omega
  have hshown : (pageRows config s s.mw.db)[s.cursorI]? = some (s.mw.lv s.cursorI) := by
    rw [← h.shows.rows, List.getElem?_map, List.getElem?_range hlt, Option.map_some]
  rw [pageRows, listing_eq_page _ _ _ _ _ h.bodyLen_pos, getElem?_page hcursor] at hshown
  rw [heq]
  exact hshown

/-- Where the screen shows its rows and the cursor has one, there is a position. -/
theorem Showing.at
    {config : Config} {s : Ui} (h : Showing config s) (hcursor : s.cursorI ≤ s.contentBwMax) :
    At config (s.mw.page * s.mw.bodyLen + s.cursorI) s := by
  have hlast := h.shows.length
  rw [length_pageRows config h.bodyLen_pos] at hlast
  exact ⟨aimed_of_eq h.toFitted.inBounds h.newsize rfl (by omega), h.shows⟩

/-! ## Moves -/

theorem At.restyled
    {config : Config} {k : ℕ} {s : Ui} (h : At config k s) : At config k (restyled s) where
  bwLen := h.bwLen
  bodyLen_pos := h.bodyLen_pos
  newsize := h.newsize
  row := h.row
  page := h.page
  cursorI := h.cursorI
  shows := ⟨h.shows.rows, h.shows.ids⟩

/-- The cursor moves within the page. -/
theorem At.withCursor
    {config : Config} {k j : ℕ} {s : Ui} (h : At config k s) {c : ℕ} (hc : c < s.mw.bodyLen)
    (hj : j = s.mw.page * s.mw.bodyLen + c) (hrow : j < (fullRows config s).length) :
    At config j { s with cursorI := c } where
  toAimed := aimed_of_eq ⟨h.bwLen, hc⟩ h.newsize hj hrow
  shows := ⟨h.shows.rows, h.shows.ids⟩

/-- The lines are those of the current page, painted where that can be seen. -/
structure Lined (config : Config) (s : Ui) : Prop where
  lv : ∀ i (hi : i < (pageRows config s s.mw.db).length),
    s.mw.lv i = (pageRows config s s.mw.db)[i]
  painted : 3 ≤ s.mw.width →
    Painted s.mw.body s.mw.width s.mw.bodyLen (pageRows config s s.mw.db).length

theorem Aimed.lined_requestListUpdate
    {config : Config} {k : ℕ} {s : Ui} (h : Aimed config k s) :
    Lined config (requestListUpdate config s).1 where
  lv := (showsPage_cacheGenLines config s.mw h.bodyLen_pos h.pageRows_ne_nil).lv
  painted := by
    intro hwidth
    have hcols : 3 ≤ s.mw.width := hwidth
    exact (cacheGenLines_of_ne_nil hcols h.pageRows_ne_nil).2.1

theorem Lined.restyled
    {config : Config} {s : Ui} (h : Lined config s) (hcursor : s.cursorI < s.mw.bodyLen) :
    Lined config (restyled s) where
  lv := h.lv
  painted := fun hwidth =>
    (painted_printCrop (h.painted hwidth) (Nat.lt_of_lt_of_le (by decide) hwidth) hcursor).2

/-- A repaint makes `content_bw_max` the last row; the only row of a window need
not show anything for that. -/
theorem Lined.contentBwMax_drawLines
    {config : Config} {s : Ui} (h : Lined config s) (hpos : 0 < s.mw.bodyLen)
    (hrows : pageRows config s s.mw.db ≠ []) (hlegible : Legible s)
    (hone : s.mw.bodyLen = 1 → s.contentBwMax = 0) :
    (drawLines s).contentBwMax + 1 = (pageRows config s s.mw.db).length := by
  have hle : (pageRows config s s.mw.db).length ≤ s.mw.bodyLen :=
    length_listing_le config s.mw.db s.mw.ctxType s.mw.ctxId s.mw.page hpos
  have hlength : 0 < (pageRows config s s.mw.db).length := List.length_pos_iff.mpr hrows
  rcases hlegible with hwidth | hsingle
  · obtain ⟨-, hlast⟩ := painted_drawRows s.contentBwMax (h.painted hwidth)
      (Nat.lt_of_lt_of_le (by decide) hwidth) (Nat.zero_add s.mw.bodyLen) hle
    rw [if_pos hlength] at hlast
    rw [drawLines, hlast]
    exact Nat.sub_add_cancel hlength
  · simp only [drawLines, hsingle, drawRows, hone hsingle, ite_self]
    omega

/-- A repaint shows the lines. -/
theorem Aimed.at_drawLines
    {config : Config} {k : ℕ} {s : Ui} (h : Aimed config k s) (hlined : Lined config s)
    (hlegible : Legible s) (hone : s.mw.bodyLen = 1 → s.contentBwMax = 0) :
    At config k (drawLines s) := by
  have hlast := hlined.contentBwMax_drawLines h.bodyLen_pos h.pageRows_ne_nil hlegible hone
  refine
    { bwLen := h.bwLen
      bodyLen_pos := h.bodyLen_pos
      newsize := h.newsize
      row := h.row
      page := h.page
      cursorI := h.cursorI
      shows := shows_of_rows h.bodyLen_pos ?_ }
  rw [hlast]
  apply List.ext_getElem
  · rw [List.length_map, List.length_range]
    rfl
  · intro i hi hi'
    rw [List.getElem_map, List.getElem_range]
    exact hlined.lv i hi'

theorem moveItem_of_eq
    {move : Ui → Ui × KhRet} {s u : Ui} {ret : KhRet} (h : InBounds s)
    (hmove : move (restyled s) = (u, ret)) (hu : InBounds u) :
    moveItem move s = some (restyled u, ret) := by
  have hbounds : InBounds (move (restyled s)).1 := by
    rw [hmove]
    exact hu
  rw [moveItem_of_inBounds h hbounds, hmove]

theorem updateView_of_bwLen
    {config : Config} {s : Ui} (hbw : s.bwLen = s.mw.bodyLen) (hnewsize : s.newsize = false) :
    updateView config s = some (drawLines s) := by
  rw [updateView, hnewsize, Option.bind_eq_bind]
  exact if_pos (Nat.le_of_eq hbw.symm)

/-- A move within the page, as a step. -/
theorem At.step_of_ok
    {config : Config} {k j : ℕ} {key : Key} {move : Ui → Ui × KhRet} {s u : Ui}
    (h : At config k s) (hkey : processKey config key = moveItem move)
    (hmove : move (View.restyled s) = (u, .ok)) (hu : At config j u) (hsame : SameList s u) :
    ∃ t, step config s (.key key) = some t ∧ SameList s t ∧ At config j t := by
  refine ⟨View.restyled u, ?_, hsame.trans ⟨rfl, rfl, rfl, rfl, rfl⟩, hu.restyled⟩
  rw [step, hkey, moveItem_of_eq h.inBounds hmove hu.inBounds]
  rfl

/-- A move to a page that has rows, as a step. -/
theorem At.step_of_update
    {config : Config} {k j : ℕ} {key : Key} {move : Ui → Ui × KhRet} {s u : Ui}
    (h : At config k s) (hkey : processKey config key = moveItem move)
    (hmove : move (View.restyled s) = ((requestListUpdate config u).1, .update))
    (hu : Aimed config j u) (hsame : SameList s u) (hlegible : Legible s)
    (hmax : u.contentBwMax = s.contentBwMax) :
    ∃ t, step config s (.key key) = some t ∧ SameList s t ∧ At config j t := by
  have hlast := h.last
  have hone : u.mw.bodyLen = 1 → u.contentBwMax = 0 := by
    rw [hsame.bodyLen, hmax]
    omega
  have hbounds : InBounds (requestListUpdate config u).1 :=
    inBounds_requestListUpdate config hu.inBounds
  have hlined := hu.lined_requestListUpdate.restyled hbounds.cursorI
  set v := View.restyled (requestListUpdate config u).1
  have hv : Aimed config j v := ⟨hu.bwLen, hu.bodyLen_pos, hu.newsize, hu.row, hu.page, hu.cursorI⟩
  have hpainted : updateView config v = some (drawLines v) :=
    updateView_of_bwLen hu.bwLen hu.newsize
  refine ⟨drawLines v, ?_, hsame.trans ⟨rfl, rfl, rfl, rfl, rfl⟩,
    hv.at_drawLines hlined (hsame.legible hlegible) hone⟩
  rw [step, hkey, moveItem_of_eq h.inBounds hmove hbounds]
  exact hpainted

/-! ## The steps -/

/-- The position after row `k` of `n`; there is none behind the last. -/
def nextPosition (n k : ℕ) : ℕ :=
  if k + 1 < n then k + 1 else k

theorem step_next
    {config : Config} {k : ℕ} {s : Ui} (h : At config k s) (hlegible : Legible s) :
    ∃ t, step config s (.key .next) = some t ∧ SameList s t ∧
      At config (nextPosition (fullRows config s).length k) t := by
  have hpos := h.bodyLen_pos
  have hcursor := h.inBounds.cursorI
  have hrow := h.row
  have hlast := h.last
  have heq := h.eq
  by_cases hmore : s.cursorI < s.contentBwMax
  · rw [nextPosition, if_pos (by omega)]
    have hmove : nextRow config (restyled s) =
        ({ restyled s with cursorI := s.cursorI + 1 }, .ok) := if_pos hmore
    have hmoved : At config (k + 1) { restyled s with cursorI := s.cursorI + 1 } :=
      h.restyled.withCursor (by omega : s.cursorI + 1 < s.mw.bodyLen)
        (by omega : k + 1 = s.mw.page * s.mw.bodyLen + (s.cursorI + 1))
        (by omega : k + 1 < (fullRows config s).length)
    exact h.step_of_ok rfl hmove hmoved ⟨rfl, rfl, rfl, rfl, rfl⟩
  · by_cases hfull : s.contentBwMax + 1 = s.mw.bodyLen
    · have hturned : (s.mw.page + 1) * s.mw.bodyLen = k + 1 := by
        rw [Nat.succ_mul]
        omega
      have hmove : nextRow config (restyled s) =
          if (requestListUpdate config (nextPage (restyled s))).2 then
            (undoPage (restyled s).shown (requestListUpdate config (nextPage (restyled s))).1, .ok)
          else ((requestListUpdate config (nextPage (restyled s))).1, .update) := by
        rw [nextRow]
        exact (if_neg hmore).trans (if_pos hfull)
      by_cases hend : k + 1 < (fullRows config s).length
      · have haimed : Aimed config (k + 1) (nextPage (restyled s)) :=
          aimed_of_eq ⟨h.bwLen, hpos⟩ h.newsize hturned.symm hend
        have hfound : ¬(requestListUpdate config (nextPage (restyled s))).2 = true := by
          rw [requestListUpdate, cacheGenLines_snd_iff]
          exact haimed.pageRows_ne_nil
        rw [if_neg hfound] at hmove
        rw [nextPosition, if_pos hend]
        exact h.step_of_update rfl hmove haimed ⟨rfl, rfl, rfl, rfl, rfl⟩ hlegible rfl
      · have hpast : (fullRows config s).length ≤ (s.mw.page + 1) * s.mw.bodyLen := by
          omega
        have hnil : pageRows config (nextPage (restyled s)) s.mw.db = [] :=
          (listing_eq_page _ _ _ _ _ hpos).trans ((page_eq_nil_iff hpos).mpr hpast)
        have hnone : (requestListUpdate config (nextPage (restyled s))).2 = true := by
          rw [requestListUpdate, cacheGenLines_snd_iff]
          exact hnil
        rw [if_pos hnone, undoPage_of_nil hnil] at hmove
        have hback : At config k { restyled s with cursorI := s.contentBwMax } :=
          h.restyled.withCursor (by omega : s.contentBwMax < s.mw.bodyLen)
            (by omega : k = s.mw.page * s.mw.bodyLen + s.contentBwMax) hrow
        rw [nextPosition, if_neg hend]
        exact h.step_of_ok rfl hmove hback ⟨rfl, rfl, rfl, rfl, rfl⟩
    · have hmove : nextRow config (restyled s) = (restyled s, .ok) := by
        rw [nextRow]
        exact (if_neg hmore).trans (if_neg hfull)
      rw [nextPosition, if_neg (by omega)]
      exact h.step_of_ok rfl hmove h.restyled ⟨rfl, rfl, rfl, rfl, rfl⟩

theorem step_prev
    {config : Config} {k : ℕ} {s : Ui} (h : At config k s) (hlegible : Legible s) :
    ∃ t, step config s (.key .prev) = some t ∧ SameList s t ∧ At config (k - 1) t := by
  have hpos := h.bodyLen_pos
  have hcursor := h.inBounds.cursorI
  have hrow := h.row
  have heq := h.eq
  by_cases hup : 0 < s.cursorI
  · have hmove : prevRow config (restyled s) =
        ({ restyled s with cursorI := s.cursorI - 1 }, .ok) := if_pos hup
    have hmoved : At config (k - 1) { restyled s with cursorI := s.cursorI - 1 } :=
      h.restyled.withCursor (by omega : s.cursorI - 1 < s.mw.bodyLen)
        (by omega : k - 1 = s.mw.page * s.mw.bodyLen + (s.cursorI - 1))
        (by omega : k - 1 < (fullRows config s).length)
    exact h.step_of_ok rfl hmove hmoved ⟨rfl, rfl, rfl, rfl, rfl⟩
  · by_cases hpage : 0 < s.mw.page
    · have hmove : prevRow config (restyled s) =
          ((requestListUpdate config (prevPage (restyled s))).1, .update) := by
        rw [prevRow]
        exact (if_neg hup).trans (if_pos hpage)
      -- the page before is full, so that its last row is the one before
      have hturned : k - 1 = (s.mw.page - 1) * s.mw.bodyLen + (s.mw.bodyLen - 1) := by
        obtain ⟨p, hp⟩ := Nat.exists_eq_succ_of_ne_zero (Nat.ne_of_gt hpage)
        rw [hp, Nat.succ_mul] at heq
        rw [hp, Nat.succ_sub_one]
        omega
      have haimed : Aimed config (k - 1) (prevPage (restyled s)) :=
        aimed_of_eq ⟨h.bwLen, Nat.sub_lt hpos Nat.one_pos⟩ h.newsize hturned
          (by omega : k - 1 < (fullRows config s).length)
      exact h.step_of_update rfl hmove haimed ⟨rfl, rfl, rfl, rfl, rfl⟩ hlegible rfl
    · have hzero : k = 0 := by
        rw [Nat.eq_zero_of_not_pos hpage, Nat.zero_mul] at heq
        omega
      have hmove : prevRow config (restyled s) = (restyled s, .ok) := by
        rw [prevRow]
        exact (if_neg hup).trans (if_neg hpage)
      rw [hzero] at h ⊢
      exact h.step_of_ok rfl hmove h.restyled ⟨rfl, rfl, rfl, rfl, rfl⟩

/-! ## The walk -/

/-- `lv[cursor_i]` -/
def rowAtCursor (s : Ui) : Listview :=
  s.mw.lv s.cursorI

/-- Repeated `next` from the top visits one row after the other. -/
theorem runs_next
    {config : Config} {s : Ui} (h : At config 0 s) (hlegible : Legible s) {n : ℕ}
    (hn : n < (fullRows config s).length) :
    ∃ t, runs (step config) s (List.replicate n (.key .next)) = some t ∧ SameList s t ∧
      At config n t := by
  induction n with
  | zero => exact ⟨s, rfl, ⟨rfl, rfl, rfl, rfl, rfl⟩, h⟩
  | succ n ih =>
      obtain ⟨t, ht, hsame, hat⟩ := ih (Nat.lt_of_succ_lt hn)
      obtain ⟨u, hu, hsame', hat'⟩ := step_next hat (hsame.legible hlegible)
      rw [hsame.fullRows, nextPosition, if_pos hn] at hat'
      refine ⟨u, ?_, hsame.trans hsame', hat'⟩
      rw [List.replicate_succ', runs_append, ht, Option.bind_some, runs_cons, hu]
      rfl

theorem rows_of_runs_next
    {config : Config} {s : Ui} (h : At config 0 s) (hlegible : Legible s) :
    (List.range (fullRows config s).length).map
        (fun n => (runs (step config) s (List.replicate n (.key .next))).map rowAtCursor) =
      (fullRows config s).map some := by
  apply List.ext_getElem
  · rw [List.length_map, List.length_range, List.length_map]
  · intro n hn hn'
    rw [List.length_map] at hn'
    obtain ⟨t, ht, hsame, hat⟩ := runs_next h hlegible hn'
    have hrow := hat.lv_cursorI
    rw [hsame.fullRows, List.getElem?_eq_getElem hn'] at hrow
    rw [List.getElem_map, List.getElem_range, ht, List.getElem_map, hrow]
    rfl

/-- On an unchanged list, `next` goes to the row behind, if there is one, and
`prev` to the row before.  So they undo each other away from the ends, and
repeated `next` from the top visits each row once, in order. -/
theorem next_prev_walk
    {config : Config} {k : ℕ} {s : Ui} (h : At config k s) (hlegible : Legible s) :
    let n := (fullRows config s).length
    (∃ t, step config s (.key .next) = some t ∧ SameList s t ∧
        At config (if k + 1 < n then k + 1 else k) t) ∧
      (∃ t, step config s (.key .prev) = some t ∧ SameList s t ∧
        At config (if 0 < k then k - 1 else 0) t) ∧
      (k + 1 < n → ∃ t, runs (step config) s [.key .next, .key .prev] = some t ∧
        SameList s t ∧ At config k t) ∧
      (0 < k → ∃ t, runs (step config) s [.key .prev, .key .next] = some t ∧
        SameList s t ∧ At config k t) ∧
      (k = 0 →
        (List.range n).map
            (fun n => (runs (step config) s (List.replicate n (.key .next))).map rowAtCursor) =
          (fullRows config s).map some) := by
  intro n
  obtain ⟨t, ht, hsame, hat⟩ := step_next h hlegible
  obtain ⟨u, hu, hsame', hat'⟩ := step_prev h hlegible
  refine ⟨⟨t, ht, hsame, hat⟩, ⟨u, hu, hsame', ?_⟩, ?_, ?_, ?_⟩
  · split
    · exact hat'
    · next hzero =>
        rw [Nat.eq_zero_of_not_pos hzero] at hat'
        exact hat'
  · intro hmore
    rw [nextPosition, if_pos hmore] at hat
    obtain ⟨v, hv, hback, hat⟩ := step_prev hat (hsame.legible hlegible)
    refine ⟨v, ?_, hsame.trans hback, hat⟩
    rw [runs_cons, ht, Option.bind_some, runs_cons, hv]
    rfl
  · intro hpos
    obtain ⟨v, hv, hback, hat⟩ := step_next hat' (hsame'.legible hlegible)
    have hrow := h.row
    rw [hsame'.fullRows, nextPosition, if_pos (by omega), Nat.sub_add_cancel hpos] at hat
    refine ⟨v, ?_, hsame'.trans hback, hat⟩
    rw [runs_cons, hu, Option.bind_some, runs_cons, hv]
    rfl
  · intro hzero
    rw [hzero] at h
    exact rows_of_runs_next h hlegible

/-! ## The first screen -/

theorem aimed_laidOut (config : Config) (db : Db) (terminal : Terminal) (fresh : Lines) :
    Aimed config 0 (laidOut db terminal fresh) where
  bwLen := rfl
  bodyLen_pos := terminal.bodyHeight_pos
  newsize := rfl
  row := Nat.succ_pos _
  page := (Nat.zero_div _).symm
  cursorI := (Nat.zero_mod _).symm

/-- The program starts at the top of the feed list. -/
theorem at_startUi
    (config : Config) (db : Db) {terminal : Terminal}
    (hlegible : 3 ≤ terminal.cols ∨ terminal.bodyHeight = 1) (fresh : Lines) :
    ∃ s, startUi config db terminal fresh [] none = some s ∧ At config 0 s ∧ Legible s := by
  rw [startUi, setupUi_eq, Option.bind_eq_bind, Option.bind_some]
  have haimed := aimed_laidOut config db terminal fresh
  have hlined := haimed.lined_requestListUpdate
  set s := (requestListUpdate config (laidOut db terminal fresh)).1
  have hs : Aimed config 0 s :=
    ⟨haimed.bwLen, haimed.bodyLen_pos, haimed.newsize, haimed.row, haimed.page, haimed.cursorI⟩
  exact ⟨drawLines s, updateView_of_bwLen hs.bwLen hs.newsize,
    hs.at_drawLines hlined hlegible fun _ => rfl, hlegible⟩

/-- From the first screen on, the aggregate row and the feed are visited. -/
theorem walk_from_start :
    ∃ s, startUi unreadOnly twoUnread smallScreen blankLines [] none = some s ∧
      (List.range (fullRows unreadOnly s).length).map
          (fun n => (runs (step unreadOnly) s (List.replicate n (.key .next))).map rowAtCursor) =
        (fullRows unreadOnly s).map some := by
  have hcols : 3 ≤ smallScreen.cols ∨ smallScreen.bodyHeight = 1 := by decide
  obtain ⟨s, hs, hat, hlegible⟩ := at_startUi unreadOnly twoUnread hcols blankLines
  exact ⟨s, hs, (next_prev_walk hat hlegible).2.2.2.2 rfl⟩

/-- On two columns a row shows just the blanks before its number, so that the
second row counts as empty and cannot be reached. -/
theorem two_columns_hide_second_row :
    ∃ s, startUi unreadOnly twoUnread ⟨4, 2, by decide⟩ blankLines [] none = some s ∧
      (s.mw.page, s.cursorI) = (0, 0) ∧
      (List.range s.mw.bodyLen).map s.mw.lv = fullRows unreadOnly s ∧
      (fullRows unreadOnly s).length = 2 ∧
      (step unreadOnly s (.key .next)).map (fun t => (t.mw.page, t.cursorI)) = some (0, 0) := by
  have hruns : ((startUi unreadOnly twoUnread ⟨4, 2, by decide⟩ blankLines [] none).map fun s =>
      decide ((s.mw.page, s.cursorI) = (0, 0) ∧
        (List.range s.mw.bodyLen).map s.mw.lv = fullRows unreadOnly s ∧
        (fullRows unreadOnly s).length = 2 ∧
        (step unreadOnly s (.key .next)).map (fun t => (t.mw.page, t.cursorI)) =
          some (0, 0))) = some true := by
    decide +kernel
  obtain ⟨s, hs, hrun⟩ := Option.map_eq_some_iff.mp hruns
  exact ⟨s, hs, of_decide_eq_true hrun⟩

end View
end Newsbaoter
