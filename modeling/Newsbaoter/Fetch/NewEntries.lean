import Newsbaoter.Cache.Numbered
import Newsbaoter.Fetch.Cycle
import Newsbaoter.Fetch.Outline

/-!
# What a cycle reports

`handle_urls` returns at the end of a cycle what its batches have gathered in
`newentry`, and each message adds what one refresh reports by its unread counts.
As long as these fit an `int`, they say together whether some refresh of the
cycle inserted a row for an id that its feed did not have.
-/

namespace Newsbaoter
namespace Fetch

open Newsbaoter.Support
open Cache (Db HasEntry Integrity Op Refresh getNumUnread getNumUnread_refreshUpTo
  identified_records integrity_cacheInitCleanup integrity_updateFeed refreshUpTo updateFeed
  xmlprocUpdateCache)

/-! ## One refresh -/

/-- The refresh puts a row into the table whose feed and unique id no row had. -/
def Inserts (config : Cache.Config) (r : Refresh) (db : Db) : Prop :=
  ∃ x ∈ (xmlprocUpdateCache config r db).1.entry.rows, ¬HasEntry db x.feedID x.uniqueId

/-- A rise of the unread count tells of an inserted row and of nothing else. -/
theorem getNumUnread_lt_iff
    {config : Cache.Config} {db : Db} (h : Integrity db) (r : Refresh) :
    getNumUnread db < getNumUnread (xmlprocUpdateCache config r db).1 ↔
      Inserts config r db := by
  cases hdoc : r.doc with
  | none =>
      rw [Inserts, Cache.xmlprocUpdateCache_of_no_root config hdoc]
      constructor
      · intro hlt
        exact absurd hlt (Nat.lt_irrefl _)
      · rintro ⟨x, hx, hnew⟩
        exact absurd ⟨x, hx, rfl, rfl⟩ hnew
  | some children =>
      have hids := identified_records config.time r.env children
      have hinit := (integrity_cacheInitCleanup (integrity_updateFeed r.url children h)
        (updateFeed r.url children db).2).entries
      have hhas : ∀ uid, HasEntry (Cache.cacheInitCleanup (updateFeed r.url children db).2
          (updateFeed r.url children db).1) (updateFeed r.url children db).2 uid ↔
          HasEntry db (updateFeed r.url children db).2 uid :=
        fun _ => Cache.hasEntry_cacheInitCleanup
      rw [Cache.getNumUnread_refresh config hdoc,
        Nat.lt_add_right_iff_pos, Nat.pos_iff_ne_zero, Ne,
        Cache.inserted_eq_zero_iff _ hids hinit]
      constructor
      · intro hsome
        push Not at hsome
        obtain ⟨d, hd, hnew⟩ := hsome
        obtain ⟨x, hx, hfeed, huid⟩ := Cache.hasEntry_refresh_of_mentioned h hdoc ⟨d, hd, rfl⟩
        refine ⟨x, hx, ?_⟩
        rw [hfeed, huid, ← hhas]
        exact hnew
      · rintro ⟨x, hx, hnew⟩ hall
        rcases Cache.origin_of_mem_refresh h hdoc hx with
          ⟨e, he, -, hfeed, huid⟩ | ⟨hfeed, ⟨d, hd, huid⟩, -⟩
        · exact hnew ⟨e, he, hfeed, huid⟩
        · apply hnew
          rw [hfeed, ← huid, ← hhas]
          exact hall d hd

/-- So the refresh reports it, if the number it leaves fits an `int`. -/
theorem xmlprocUpdateCache_reports_iff
    {config : Cache.Config} {db : Db} (h : Integrity db) {r : Refresh}
    (hfits : getNumUnread (xmlprocUpdateCache config r db).1 < 2 ^ 31) :
    (xmlprocUpdateCache config r db).2 = true ↔ Inserts config r db := by
  rw [← getNumUnread_lt_iff h]
  cases hdoc : r.doc with
  | none => simp [Cache.xmlprocUpdateCache_of_no_root config hdoc]
  | some children =>
      have hle : getNumUnread db ≤ getNumUnread (xmlprocUpdateCache config r db).1 := by
        rw [Cache.getNumUnread_refresh config hdoc]
        exact Nat.le_add_right _ _
      rw [Cache.xmlprocUpdateCache_snd config hdoc, toInt_of_fits (by omega) (by omega),
        toInt_of_fits (by omega) (by omega), Int.ofNat_lt]

/-! ## The refreshes of a cycle -/

/-- A refresh and the database it finds. -/
structure Update where
  before : Db
  refresh : Refresh

/-- What the message about slot `idx` brings about. -/
def messageUpdates (host : Host) (s : State) (idx : ℕ) : List Update :=
  match s.data.slots[idx]? with
  | none => []
  | some slot =>
      match host.outcome slot.ula (attempts slot.ula s.log - 1) with
      | .accepted doc env => [⟨s.db, ⟨slot.xh, doc, env⟩⟩]
      | _ => []

def messagesUpdates (config : Config) (host : Host) : State → List ℕ → List Update
  | _, [] => []
  | s, idx :: idxs =>
      messageUpdates host s idx ++ messagesUpdates config host (finishMessage config host s idx) idxs

/-- What `handle_urls` does behind its first `if`. -/
def proceedUpdates (config : Config) (host : Host) (k : ℕ) (s : State) : List Update :=
  let r := processHandles host k s
  if r.2 then messagesUpdates config host r.1 (host.order k r.1.data.slots.length) else []

def callUpdates (config : Config) (host : Host) (k : ℕ) (s : State) : List Update :=
  let s := { s with db := host.meanwhile k s.db }
  proceedUpdates config host k
    (if s.data.cm then s else loadNewHandles config (httpFetchInit config s))

/-- The refreshes of the first `k` calls, in order. -/
def cycleUpdates (config : Config) (host : Host) (s : State) : ℕ → List Update
  | 0 => []
  | k + 1 => cycleUpdates config host s k ++ callUpdates config host k (calls config host s k)

/-- Some of the refreshes inserts a row. -/
def Brings (config : Config) (us : List Update) : Prop :=
  ∃ u ∈ us, Inserts config.cache u.refresh u.before

/-- Some of the refreshes reports new entries. -/
def Tells (config : Config) (us : List Update) : Prop :=
  ∃ u ∈ us, (xmlprocUpdateCache config.cache u.refresh u.before).2 = true

theorem tells_append (config : Config) (us vs : List Update) :
    Tells config (us ++ vs) ↔ Tells config us ∨ Tells config vs := by
  simp only [Tells, List.mem_append, or_and_right, exists_or]

/-! ## What `newentry` remembers -/

/-- The refreshes `us` are behind `s`, and `newentry` is what they reported. -/
structure Reports (config : Config) (us : List Update) (s : State) : Prop where
  integrity : Integrity s.db
  before : ∀ u ∈ us, Integrity u.before
  newentry : s.data.newentry = true ↔ Tells config us

theorem Reports.of_eq
    {config : Config} {us : List Update} {s t : State} (h : Reports config us s)
    (hdb : t.db = s.db) (hnewentry : t.data.newentry = s.data.newentry) :
    Reports config us t :=
  ⟨by rw [hdb]; exact h.integrity, h.before, by rw [hnewentry]; exact h.newentry⟩

theorem storeTransfer_snd_iff
    (config : Config) (db : Db) (url : CStr) (t : Transfer) :
    (storeTransfer config url t db).2 = true ↔
      Tells config (match t with
        | .accepted doc env => [⟨db, ⟨url, doc, env⟩⟩]
        | _ => []) := by
  cases t with
  | accepted doc env => simp only [storeTransfer, Tells, List.mem_singleton, exists_eq_left]
  | _ => simp [storeTransfer, Tells]

theorem before_of_mem_messageUpdates
    {host : Host} {s : State} {idx : ℕ} {u : Update} (hu : u ∈ messageUpdates host s idx) :
    u.before = s.db := by
  rw [messageUpdates] at hu
  split at hu
  · cases hu
  · split at hu
    · rw [List.mem_singleton.mp hu]
    · cases hu

/-- A message that brings no document leaves the flag alone. -/
theorem Reports.message
    {config : Config} {host : Host} {us : List Update} {s : State} (h : Reports config us s)
    (idx : ℕ) :
    Reports config (us ++ messageUpdates host s idx) (finishMessage config host s idx) := by
  refine ⟨integrity_finishMessage h.integrity idx, ?_, ?_⟩
  · intro u hu
    rcases List.mem_append.mp hu with hu | hu
    · exact h.before u hu
    · rw [before_of_mem_messageUpdates hu]
      exact h.integrity
  · rw [tells_append, finishMessage, messageUpdates]
    cases hslot : s.data.slots[idx]? with
    | none => simp only [h.newentry, Tells, List.not_mem_nil, false_and, exists_false, or_false]
    | some slot =>
        dsimp only
        rw [Bool.or_eq_true, h.newentry, storeTransfer_snd_iff]

theorem Reports.messages
    {config : Config} {host : Host} {us : List Update} {s : State} (h : Reports config us s)
    (idxs : List ℕ) :
    Reports config (us ++ messagesUpdates config host s idxs)
      (idxs.foldl (finishMessage config host) s) := by
  induction idxs generalizing us s with
  | nil =>
      rw [messagesUpdates, List.append_nil]
      exact h
  | cons idx idxs ih =>
      rw [messagesUpdates, ← List.append_assoc]
      exact ih (h.message idx)

theorem Reports.load
    {config : Config} {us : List Update} {s : State} (h : Reports config us s) :
    Reports config us (loadNewHandles config s) := by
  rw [loadNewHandles_eq]
  split
  · exact h.of_eq rfl rfl
  · exact h.of_eq rfl rfl

theorem Reports.proceed
    {config : Config} {us : List Update} {s : State} (h : Reports config us s) (host : Host)
    (k : ℕ) :
    Reports config (us ++ proceedUpdates config host k s) (proceed config host k s).1 := by
  have hprocess : Reports config us (processHandles host k s).1 := h.of_eq rfl rfl
  rw [Fetch.proceed, proceedUpdates]
  dsimp only
  split
  · exact ((hprocess.messages _).of_eq rfl rfl : Reports config _ (finishBatch config host k _)).load
  · rw [List.append_nil]
    exact hprocess

/-! ## The calls -/

/-- Between the calls the program works on the cache with its own statements. -/
def WorksOnCache (config : Config) (host : Host) : Prop :=
  ∀ k db, ∃ ops : List Op, host.meanwhile k db = ops.foldl (Op.apply config.cache) db

theorem WorksOnCache.integrity
    {config : Config} {host : Host} (h : WorksOnCache config host) (k : ℕ) {db : Db}
    (hdb : Integrity db) :
    Integrity (host.meanwhile k db) := by
  obtain ⟨ops, hops⟩ := h k db
  rw [hops]
  clear hops
  induction ops generalizing db with
  | nil => exact hdb
  | cons op ops ih => exact ih (Cache.integrity_apply hdb op)

/-- The first call of a cycle forgets what an earlier one has reported. -/
theorem reports_call_start
    {config : Config} {host : Host} {s : State} (hworks : WorksOnCache config host) (k : ℕ)
    (hcm : s.data.cm = false) (hdb : Integrity s.db) :
    Reports config (callUpdates config host k s) (call config host k s).1 := by
  have hinit : Reports config []
      (httpFetchInit config { s with db := host.meanwhile k s.db }) :=
    ⟨hworks.integrity k hdb, by simp, by simp [httpFetchInit, Tells]⟩
  have hproceed := hinit.load.proceed host k
  rw [call, handleUrls_eq, callUpdates]
  simpa only [hcm, Bool.false_eq_true, if_false, List.nil_append] using hproceed

theorem Reports.call
    {config : Config} {host : Host} {us : List Update} {s : State}
    (h : Reports config us s) (hworks : WorksOnCache config host) (k : ℕ)
    (hcm : s.data.cm = true) :
    Reports config (us ++ callUpdates config host k s) (call config host k s).1 := by
  have hdb : Reports config us { s with db := host.meanwhile k s.db } :=
    ⟨hworks.integrity k h.integrity, h.before, h.newentry⟩
  have hproceed := hdb.proceed host k
  rw [Fetch.call, handleUrls_eq, callUpdates]
  simpa only [hcm, if_true] using hproceed

theorem proceed_cm_of_neg
    {config : Config} {host : Host} {k : ℕ} {s : State} (h : (proceed config host k s).2 < 0) :
    (proceed config host k s).1.data.cm = true := by
  rw [proceed_snd] at h
  by_contra hcm
  rw [if_neg hcm] at h
  split at h
  · exact absurd h (by decide)
  · exact absurd h (by decide)

/-- A call that returns `-1` leaves a batch in flight. -/
theorem call_cm_of_neg
    {config : Config} {host : Host} {k : ℕ} {s : State} (h : (call config host k s).2 < 0) :
    (call config host k s).1.data.cm = true := by
  rw [call, handleUrls_eq] at h ⊢
  exact proceed_cm_of_neg h

theorem reports_calls
    {config : Config} {host : Host} {s : State} (hworks : WorksOnCache config host)
    (hcm : s.data.cm = false) (hdb : Integrity s.db) {k : ℕ}
    (hbefore : ∀ j < k, returned config host s j < 0) :
    Reports config (cycleUpdates config host s (k + 1)) (calls config host s (k + 1)) := by
  induction k with
  | zero => exact reports_call_start hworks 0 hcm hdb
  | succ k ih =>
      have hreports := ih fun j hj => hbefore j (Nat.lt_succ_of_lt hj)
      exact hreports.call hworks (k + 1) (call_cm_of_neg (hbefore k (Nat.lt_succ_self k)))

theorem returned_eq (config : Config) (host : Host) (s : State) (k : ℕ) :
    returned config host s k =
      if (calls config host s (k + 1)).data.cm then -1
      else if (calls config host s (k + 1)).data.newentry then 1 else 0 := by
  rw [returned, calls, call, handleUrls_eq, proceed_snd]

/-- What a cycle returns, in any case. -/
theorem returned_of_endsAt
    {config : Config} {host : Host} {s : State} {k : ℕ} (hk : EndsAt config host s k) :
    returned config host s k = if (calls config host s (k + 1)).data.newentry then 1 else 0 := by
  have hnonneg := hk.2
  rw [returned_eq] at hnonneg ⊢
  split
  · next hcm =>
      rw [if_pos hcm] at hnonneg
      exact absurd hnonneg (by decide)
  · rfl

/-- Until a refresh leaves more unread entries than an `int` can count, a cycle
that starts from a reachable cache returns `1` just if some refresh of it
inserted a row for an id its feed did not have, and `0` otherwise. -/
theorem returned_eq_one_iff_brings
    (config : Config) (host : Host) (ops : List Op) (s : State)
    (hdb : s.db = Cache.run config.cache ops) (hworks : WorksOnCache config host)
    (hcm : s.data.cm = false) {k : ℕ} (hk : EndsAt config host s k)
    (hfits : ∀ u ∈ cycleUpdates config host s (k + 1),
      getNumUnread (xmlprocUpdateCache config.cache u.refresh u.before).1 < 2 ^ 31) :
    (returned config host s k = 1 ↔ Brings config (cycleUpdates config host s (k + 1))) ∧
      (returned config host s k = 0 ↔ ¬Brings config (cycleUpdates config host s (k + 1))) := by
  have h : Integrity s.db := hdb ▸ Cache.integrity_run config.cache ops
  have hreports := reports_calls hworks hcm h hk.1
  have htells : Tells config (cycleUpdates config host s (k + 1)) ↔
      Brings config (cycleUpdates config host s (k + 1)) := by
    refine exists_congr fun u => and_congr_right fun hu => ?_
    exact xmlprocUpdateCache_reports_iff (hreports.before u hu) (hfits u hu)
  rw [← htells, ← hreports.newentry, returned_of_endsAt hk]
  cases (calls config host s (k + 1)).data.newentry with
  | false => simp
  | true => simp

/-! ## A feed with one entry, and one with too many -/

/-- The first transfer brings a document with one entry. -/
def oneEntryHost : Host :=
  promptHost
    [.accepted (some [.elem (ascii "entry") [.elem (ascii "entryUniqueId") [.text (ascii "a")]]])
      ⟨0, fun _ => ⟨0, 0, 0, 0, 0, 0, 0, 0, 0, 0⟩, fun _ => []⟩]

/-- The first cycle finds it new. -/
theorem new_entry_is_reported :
    Brings ⟨5, 1, plainCache⟩
      (cycleUpdates ⟨5, 1, plainCache⟩ oneEntryHost
        (httpInit [ascii "http://example/a"] Cache.emptyDb) 1) :=
  (returned_eq_one_iff_brings ⟨5, 1, plainCache⟩ oneEntryHost []
    (httpInit [ascii "http://example/a"] Cache.emptyDb) rfl (fun _ _ => ⟨[], rfl⟩) rfl
    ⟨fun _ hj => absurd hj (Nat.not_lt_zero _), by decide +kernel⟩
    (by decide +kernel)).1.mp (by decide +kernel)

/-- The first transfer brings the document of `r`. -/
def documentHost (r : Refresh) : Host :=
  promptHost [.accepted r.doc r.env]

theorem cycleUpdates_documentHost (r : Refresh) :
    cycleUpdates ⟨5, 1, plainCache⟩ (documentHost r) (httpInit [r.url] Cache.emptyDb) 1 =
      [⟨Cache.emptyDb, r⟩] :=
  rfl

theorem endsAt_documentHost (r : Refresh) :
    EndsAt ⟨5, 1, plainCache⟩ (documentHost r) (httpInit [r.url] Cache.emptyDb) 0 := by
  have hcm : (calls ⟨5, 1, plainCache⟩ (documentHost r)
      (httpInit [r.url] Cache.emptyDb) 1).data.cm = false := rfl
  refine ⟨fun _ hj => absurd hj (Nat.not_lt_zero _), ?_⟩
  rw [returned_eq, hcm, if_neg Bool.false_ne_true]
  split
  · exact Int.one_nonneg
  · exact Int.le_refl 0

/-- The number of `2 ^ 31` new entries is a negative `int`. -/
theorem too_many_entries_not_reported :
    EndsAt ⟨5, 1, plainCache⟩ (documentHost (refreshUpTo (2 ^ 31)))
        (httpInit [ascii "http://example/feed"] Cache.emptyDb) 0 ∧
      returned ⟨5, 1, plainCache⟩ (documentHost (refreshUpTo (2 ^ 31)))
        (httpInit [ascii "http://example/feed"] Cache.emptyDb) 0 = 0 ∧
      Brings ⟨5, 1, plainCache⟩ (cycleUpdates ⟨5, 1, plainCache⟩
        (documentHost (refreshUpTo (2 ^ 31)))
        (httpInit [ascii "http://example/feed"] Cache.emptyDb) 1) := by
  have hends := endsAt_documentHost (refreshUpTo (2 ^ 31))
  have hupdates := cycleUpdates_documentHost (refreshUpTo (2 ^ 31))
  have hzero : getNumUnread Cache.emptyDb = 0 := rfl
  have hcount : getNumUnread (xmlprocUpdateCache plainCache (refreshUpTo (2 ^ 31))
      Cache.emptyDb).1 = 2 ^ 31 :=
    getNumUnread_refreshUpTo plainCache (by decide)
  have hsilent : (xmlprocUpdateCache plainCache (refreshUpTo (2 ^ 31)) Cache.emptyDb).2 ≠
      true := by
    rw [Ne, Cache.xmlprocUpdateCache_snd plainCache (by rfl), hcount, hzero]
    decide
  have hreports := reports_calls (fun _ _ => ⟨[], rfl⟩) (by rfl) Cache.integrity_emptyDb hends.1
  have hnewentry : (calls ⟨5, 1, plainCache⟩ (documentHost (refreshUpTo (2 ^ 31)))
      (httpInit [(refreshUpTo (2 ^ 31)).url] Cache.emptyDb) 1).data.newentry ≠ true := by
    rw [Ne, hreports.newentry, hupdates]
    rintro ⟨u, hu, htold⟩
    rw [List.mem_singleton.mp hu] at htold
    exact hsilent htold
  refine ⟨hends, ?_, ?_⟩
  · exact (returned_of_endsAt hends).trans (if_neg hnewentry)
  · refine ⟨⟨Cache.emptyDb, refreshUpTo (2 ^ 31)⟩, ?_, ?_⟩
    · exact hupdates ▸ List.mem_singleton_self _
    · rw [← getNumUnread_lt_iff Cache.integrity_emptyDb, hzero]
      exact Nat.lt_of_lt_of_eq (Nat.two_pow_pos 31) hcount.symm

end Fetch
end Newsbaoter
