import Newsbaoter.Cache.Renaming
import Newsbaoter.Fetch.Attempts

/-!
# What a message of a batch does

Each message changes the counter of its own list item and the contents at its
own URL, and how many entries it adds depends on nothing else; so the messages
of a batch may be exchanged.
-/

namespace Newsbaoter
namespace Fetch

open Cache (Db Store Edition Integrity contents edition getNumUnread)

/-! ## What a message does -/

/-- A message: its list item, what it makes of `n_httperr`, its URL, and the
document that it brings, if there is one. -/
structure Task (κ : Type*) where
  ula : ℕ
  counts : ℤ → ℤ
  url : CStr
  brings : Option (Edition κ)

/-- What matters of a state: the list, the unread count, `newentry`, and the
contents of the cache. -/
@[ext]
structure Outline (κ : Type*) where
  urls : List UrlItem
  unread : ℕ
  news : Prop
  store : Store κ

variable {κ : Type*} [DecidableEq κ]

def UrlItem.count (counts : ℤ → ℤ) (u : UrlItem) : UrlItem :=
  { u with nHttperr := counts u.nHttperr }

/-- How many entries the message adds. -/
def Task.inserted (task : Task κ) (A : Store κ) : ℕ :=
  match task.brings with
  | none => 0
  | some ed => A.inserted task.url ed

def Outline.take (retention : ℤ) (o : Outline κ) (task : Task κ) : Outline κ where
  urls := o.urls.modify task.ula (UrlItem.count task.counts)
  unread := o.unread + task.inserted o.store
  news := o.news ∨ toInt o.unread < toInt (o.unread + task.inserted o.store)
  store :=
    match task.brings with
    | none => o.store
    | some ed => o.store.refresh retention task.url ed

theorem modify_comm
    {α : Type*} {i j : ℕ} (hij : i ≠ j) (f g : α → α) (l : List α) :
    (l.modify i f).modify j g = (l.modify j g).modify i f := by
  apply List.ext_getElem?
  intro n
  simp only [List.getElem?_modify]
  by_cases hi : i = n
  · have hj : j ≠ n := fun h => hij (hi.trans h.symm)
    simp [hi, hj]
  · simp [hi]

theorem entries_refresh_of_ne
    {A : Store κ} {url url' : CStr} (hne : url' ≠ url) (retention : ℤ) (ed : Edition κ) :
    (A.refresh retention url ed).entries url' = A.entries url' := by
  have hkey : some url' ≠ some url := fun h => hne (Option.some.inj h)
  rw [Store.entries, Store.refresh, Function.update_of_ne hkey, Store.entries]

theorem refresh_comm
    {A : Store κ} {url url' : CStr} (hne : url ≠ url') (retention : ℤ)
    (ed ed' : Edition κ) :
    (A.refresh retention url ed).refresh retention url' ed' =
      (A.refresh retention url' ed').refresh retention url ed := by
  have hkey : some url ≠ some url' := fun h => hne (Option.some.inj h)
  have hfirst := entries_refresh_of_ne (A := A) hne.symm retention ed
  have hsecond := entries_refresh_of_ne (A := A) hne retention ed'
  rw [Store.refresh, hfirst, Store.refresh, Store.refresh, hsecond, Store.refresh,
    Function.update_comm hkey]

/-- Messages about different items with different URLs may be exchanged. -/
theorem Outline.take_comm
    (retention : ℤ) (o : Outline κ) {task task' : Task κ} (hula : task.ula ≠ task'.ula)
    (hurl : task.url ≠ task'.url) :
    (o.take retention task).take retention task' =
      (o.take retention task').take retention task := by
  have hinserted : ∀ a b : Task κ, a.url ≠ b.url →
      b.inserted (o.take retention a).store = b.inserted o.store := by
    intro a b hne
    rw [Task.inserted, Task.inserted, Outline.take]
    cases a.brings with
    | none => rfl
    | some edA =>
        cases b.brings with
        | none => rfl
        | some edB =>
            dsimp only
            rw [Store.inserted, entries_refresh_of_ne hne.symm, Store.inserted]
  have hunread : ((o.take retention task).take retention task').unread =
      ((o.take retention task').take retention task).unread := by
    show o.unread + _ + _ = o.unread + _ + _
    rw [hinserted task task' hurl, hinserted task' task hurl.symm, Nat.add_right_comm]
  have hstore : ((o.take retention task).take retention task').store =
      ((o.take retention task').take retention task).store := by
    rw [Outline.take, Outline.take, Outline.take, Outline.take]
    cases task.brings <;> cases task'.brings <;> try rfl
    exact refresh_comm hurl retention _ _
  have hnewsEq : ((o.take retention task).take retention task').news =
      ((o.take retention task').take retention task).news := by
    apply propext
    show (o.news ∨ _) ∨ toInt (_ + _ : ℕ) < _ ↔ (o.news ∨ _) ∨ toInt (_ + _ : ℕ) < _
    rw [hinserted task task' hurl, hinserted task' task hurl.symm, or_assoc, or_assoc]
    exact or_congr_right (rises_comm o.unread _ _)
  have hurls : ((o.take retention task).take retention task').urls =
      ((o.take retention task').take retention task).urls :=
    modify_comm hula _ _ o.urls
  exact Outline.ext hurls hunread hnewsEq hstore

/-! ## The messages of a state -/

/-- How the transfer of a slot ends. -/
def finished (host : Host) (s : State) (slot : Slot) : Transfer :=
  host.outcome slot.ula (attempts slot.ula s.log - 1)

/-- The document that a transfer brings to the cache. -/
def brought (config : Config) (decode : CStr → κ) (url : CStr) : Transfer → Option (Edition κ)
  | .accepted doc env =>
      doc.map fun children => edition config.cache decode ⟨url, doc, env⟩ children
  | _ => none

def taskOf (config : Config) (decode : CStr → κ) (slot : Slot) (t : Transfer) : Task κ where
  ula := slot.ula
  counts := afterTransfer config.dlRetries t
  url := slot.xh
  brings := brought config decode slot.xh t

/-- The message about the easy handle `idx`. -/
def Outline.message (config : Config) (decode : CStr → κ) (host : Host) (s : State)
    (o : Outline κ) (idx : ℕ) : Outline κ :=
  match s.data.slots[idx]? with
  | none => o
  | some slot =>
      o.take config.cache.entryRetention (taskOf config decode slot (finished host s slot))

noncomputable def outline (decode : CStr → κ) (s : State) : Outline κ where
  urls := s.urls
  unread := getNumUnread s.db
  news := s.data.newentry = true
  store := contents decode s.db

section Messages

variable {config : Config} {decode : CStr → κ} (hdecode : Function.Injective decode)
  {host : Host}

theorem integrity_storeTransfer
    {url : CStr} {t : Transfer} {db : Db} (h : Integrity db) :
    Integrity (storeTransfer config url t db).1 := by
  cases t with
  | accepted doc env => exact Cache.integrity_refresh h _
  | _ => exact h

theorem integrity_finishMessage
    {s : State} (h : Integrity s.db) (idx : ℕ) :
    Integrity (finishMessage config host s idx).db := by
  rw [finishMessage]
  split
  · exact h
  · exact integrity_storeTransfer h

variable (config) in
include hdecode in
/-- What a transfer stores, seen from its document. -/
theorem storeTransfer_eq
    (slot : Slot) (t : Transfer) {db : Db} (h : Integrity db) :
    contents decode (storeTransfer config slot.xh t db).1 =
        (match brought config decode slot.xh t with
          | none => contents decode db
          | some ed => (contents decode db).refresh config.cache.entryRetention slot.xh ed) ∧
      getNumUnread (storeTransfer config slot.xh t db).1 =
        getNumUnread db + (taskOf config decode slot t).inserted (contents decode db) ∧
      ((storeTransfer config slot.xh t db).2 = true ↔
        toInt (getNumUnread db) <
          toInt (getNumUnread db +
            (taskOf config decode slot t).inserted (contents decode db))) := by
  cases t with
  | accepted doc env =>
      cases doc with
      | none => simp [storeTransfer, Cache.xmlprocUpdateCache, brought, taskOf, Task.inserted]
      | some children =>
          have hcount := Cache.getNumUnread_contents config.cache hdecode h
            (r := ⟨slot.xh, some children, env⟩) (by rfl)
          refine ⟨Cache.contents_refresh hdecode h (by rfl), hcount, ?_⟩
          rw [storeTransfer, Cache.xmlprocUpdateCache_snd config.cache (by rfl), hcount,
            Int.natCast_add]
          rfl
  | _ => simp [storeTransfer, brought, taskOf, Task.inserted]

theorem integrity_finishMessages
    {s : State} (h : Integrity s.db) (idxs : List ℕ) :
    Integrity (idxs.foldl (finishMessage config host) s).db := by
  induction idxs generalizing s with
  | nil => exact h
  | cons idx idxs ih => exact ih (integrity_finishMessage h idx)

include hdecode in
theorem outline_finishMessage
    {s : State} (h : Integrity s.db) (idx : ℕ) :
    outline decode (finishMessage config host s idx) =
      (outline decode s).message config decode host s idx := by
  rw [finishMessage, Outline.message]
  cases hslot : s.data.slots[idx]? with
  | none => rfl
  | some slot =>
      obtain ⟨hstore, hunread, hnews⟩ :=
        storeTransfer_eq config hdecode slot (finished host s slot) h
      refine Outline.ext (by rfl) hunread ?_ hstore
      apply propext
      show (s.data.newentry || _) = true ↔ s.data.newentry = true ∨ _
      rw [Bool.or_eq_true]
      exact or_congr_right hnews

/-- A message changes neither the slots nor the number of attempts. -/
theorem message_finishMessage
    (s : State) (o : Outline κ) (idx idx' : ℕ) :
    o.message config decode host (finishMessage config host s idx) idx' =
      o.message config decode host s idx' := by
  rw [finishMessage]
  split
  · rfl
  · have hattempts : ∀ i j t, attempts i (s.log ++ [.message j t]) = attempts i s.log := by
      intro i j t
      simp [attempts, Event.loads]
    simp only [Outline.message, finished, hattempts]

include hdecode in
theorem outline_finishMessages
    {s : State} (h : Integrity s.db) (idxs : List ℕ) :
    outline decode (idxs.foldl (finishMessage config host) s) =
      idxs.foldl (Outline.message config decode host s) (outline decode s) := by
  induction idxs generalizing s with
  | nil => rfl
  | cons idx idxs ih =>
      have hsame : Outline.message config decode host (finishMessage config host s idx) =
          Outline.message config decode host s := by
        funext o idx'
        exact message_finishMessage s o idx idx'
      rw [List.foldl_cons, ih (integrity_finishMessage h idx), hsame,
        outline_finishMessage hdecode h, List.foldl_cons]

end Messages

/-! ## Any order -/

/-- Transfers for different URLs, each for its own list item. -/
structure Batch (s : State) : Prop where
  urls : (s.data.slots.map Slot.xh).Nodup
  listed : ∀ slot ∈ s.data.slots, ∃ u, s.urls[slot.ula]? = some u ∧ u.url = slot.xh

theorem loadWalk_xh_sublist
    (R : ℤ) (inner : Bool) (room pos : ℕ) (us : List UrlItem) :
    ((loadWalk R inner room pos us).2.map Slot.xh).Sublist (us.map UrlItem.url) := by
  fun_induction loadWalk with
  | case1 => exact List.Sublist.refl _
  | case2 => exact List.nil_sublist _
  | case3 inner room pos u us hpass r ih => exact ih.cons u.url
  | case4 inner room pos u us hpass r ih => exact ih.cons_cons u.url

/-- What `load_new_handles` loads from a list without repetitions. -/
theorem batch_loadedState
    (config : Config) {s : State} (hurls : (s.urls.map UrlItem.url).Nodup) :
    Batch (loadedState config s) where
  urls := hurls.sublist (loadWalk_xh_sublist _ _ _ _ _)
  listed slot hslot := by
    obtain ⟨j, u, hu, hpos, hxh, -⟩ := loadWalk_mem hslot
    rw [Nat.zero_add] at hpos
    have hitem := loadWalk_getElem? config.dlRetries false s.data.npara.toNat 0 s.urls j
    rw [hu, Option.map_some, ← hpos] at hitem
    refine ⟨_, hitem, ?_⟩
    rw [hxh]
    split <;> rfl

theorem xh_ne_of_ne
    {slots : List Slot} (hurls : (slots.map Slot.xh).Nodup) {i j : ℕ} (hij : i ≠ j)
    {a b : Slot} (ha : slots[i]? = some a) (hb : slots[j]? = some b) :
    a.xh ≠ b.xh := by
  intro heq
  have hai : (slots.map Slot.xh)[i]? = some a.xh := by simp [ha]
  have hbj : (slots.map Slot.xh)[j]? = some a.xh := by simp [hb, heq]
  exact hij ((List.getElem?_inj (List.getElem?_eq_some_iff.mp hai).1 hurls).mp
    (hai.trans hbj.symm))

theorem Batch.ula_ne_of_ne
    {s : State} (h : Batch s) {i j : ℕ} (hij : i ≠ j) {a b : Slot}
    (ha : s.data.slots[i]? = some a) (hb : s.data.slots[j]? = some b) :
    a.ula ≠ b.ula := by
  intro hula
  obtain ⟨u, hu, hurl⟩ := h.listed a (List.mem_of_getElem? ha)
  obtain ⟨v, hv, hvurl⟩ := h.listed b (List.mem_of_getElem? hb)
  rw [hula, hv] at hu
  exact xh_ne_of_ne h.urls hij ha hb (by rw [← hurl, ← hvurl, Option.some.inj hu])

theorem message_comm
    {s : State} (h : Batch s) (config : Config) (decode : CStr → κ) (host : Host)
    (o : Outline κ) (i j : ℕ) :
    (o.message config decode host s i).message config decode host s j =
      (o.message config decode host s j).message config decode host s i := by
  by_cases hij : i = j
  · rw [hij]
  · cases ha : s.data.slots[i]? with
    | none => simp [Outline.message, ha]
    | some a =>
        cases hb : s.data.slots[j]? with
        | none => simp [Outline.message, hb]
        | some b =>
            simp only [Outline.message, ha, hb]
            exact Outline.take_comm config.cache.entryRetention o (h.ula_ne_of_ne hij ha hb)
              (xh_ne_of_ne h.urls hij ha hb)

theorem foldl_message_perm
    {s : State} (h : Batch s) (config : Config) (decode : CStr → κ) (host : Host)
    {order order' : List ℕ} (hperm : order.Perm order') (o : Outline κ) :
    order.foldl (Outline.message config decode host s) o =
      order'.foldl (Outline.message config decode host s) o :=
  hperm.foldl_eq' (fun i _ j _ o => message_comm h config decode host o i j) o

end Fetch
end Newsbaoter
