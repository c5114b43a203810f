import Newsbaoter.Fetch.Outline

/-!
# The order of the messages of a batch

`finish_batch` takes the messages as curl delivers them.  With the random ids
told by the entries they were made for, a run in one order and a run in another
end with the same outline, and then with the same database but for fresh ids.
-/

namespace Newsbaoter
namespace Fetch

open Cache (Db Integrity contents)

/-! ## Random ids -/

/-- Outcomes that differ in the random ids only. -/
inductive SameOutcome : Transfer → Transfer → Prop
  | timedOut : SameOutcome .timedOut .timedOut
  | failed : SameOutcome .failed .failed
  | rejected : SameOutcome .rejected .rejected
  | accepted {doc : Option (List Cache.XmlNode)} {env env' : Cache.RefreshEnv}
      (hnow : env'.now = env.now) (htp : env'.tp = env.tp) :
      SameOutcome (.accepted doc env) (.accepted doc env')

/-- The random id for the `p.2`-th entry of the document in the slot `p.1`. -/
def generated (host : Host) (s : State) (p : ℕ × ℕ) : Option CStr :=
  s.data.slots[p.1]?.bind fun slot =>
    match finished host s slot with
    | .accepted _ env => some (env.uid p.2)
    | _ => none

/-- The unique ids and titles in the cache and in the documents of the batch. -/
def Written (host : Host) (s : State) (t : CStr) : Prop :=
  (∃ e ∈ s.db.entry.rows, e.uniqueId = some t ∨ e.title = some t) ∨
    ∃ slot ∈ s.data.slots, ∃ children env,
      finished host s slot = .accepted (some children) env ∧
        ∃ node ∈ Cache.entryNodes children,
          Cache.nodeId node = some t ∨ Cache.nodeTitle node = some t

/-- `randomblob(32)` yields another id each time, and none that is in use. -/
structure FreshIds (host : Host) (s : State) : Prop where
  injective : ∀ p q t, generated host s p = some t → generated host s q = some t → p = q
  new : ∀ p t, generated host s p = some t → ¬Written host s t

open Classical in
/-- A text as what it stands for: a random id by its place in the batch. -/
noncomputable def nameOf (host : Host) (s : State) (t : CStr) : CStr ⊕ (ℕ × ℕ) :=
  if h : ∃ p, generated host s p = some t then .inr h.choose else .inl t

theorem nameOf_generated
    {host : Host} {s : State} (h : FreshIds host s) {p : ℕ × ℕ} {t : CStr}
    (hp : generated host s p = some t) :
    nameOf host s t = .inr p := by
  have hex : ∃ p, generated host s p = some t := ⟨p, hp⟩
  rw [nameOf, dif_pos hex, h.injective _ p t hex.choose_spec hp]

theorem nameOf_of_not_generated
    {host : Host} {s : State} {t : CStr} (h : ∀ p, generated host s p ≠ some t) :
    nameOf host s t = .inl t :=
  dif_neg fun ⟨p, hp⟩ => h p hp

theorem nameOf_injective (host : Host) (s : State) : Function.Injective (nameOf host s) := by
  intro t t' heq
  by_cases h : ∃ p, generated host s p = some t
  · rw [nameOf, dif_pos h] at heq
    by_cases h' : ∃ p, generated host s p = some t'
    · rw [nameOf, dif_pos h'] at heq
      have hspec := h'.choose_spec
      rw [← Sum.inr.inj heq, h.choose_spec] at hspec
      exact Option.some.inj hspec
    · rw [nameOf, dif_neg h'] at heq
      cases heq
  · rw [nameOf, dif_neg h] at heq
    by_cases h' : ∃ p, generated host s p = some t'
    · rw [nameOf, dif_pos h'] at heq
      cases heq
    · rw [nameOf, dif_neg h'] at heq
      exact Sum.inl.inj heq

theorem nameOf_written
    {host : Host} {s : State} (h : FreshIds host s) {t : CStr} (ht : Written host s t) :
    nameOf host s t = .inl t :=
  nameOf_of_not_generated fun p hp => h.new p t hp ht

/-! ## Two runs -/

section TwoRuns

variable {host host' : Host} {s : State}
  (hsame : ∀ slot ∈ s.data.slots, SameOutcome (finished host s slot) (finished host' s slot))

include hsame

theorem written_of_same {t : CStr} (h : Written host s t) : Written host' s t := by
  rcases h with hold | ⟨slot, hslot, children, env, hfinished, hnode⟩
  · exact Or.inl hold
  · have hout := hsame slot hslot
    rw [hfinished] at hout
    generalize hout' : finished host' s slot = t' at hout
    cases hout with
    | accepted hnow htp => exact Or.inr ⟨slot, hslot, children, _, hout', hnode⟩

/-- Both runs read the same task in a message. -/
theorem taskOf_of_same
    (config : Config) (hfresh : FreshIds host s) (hfresh' : FreshIds host' s) {i : ℕ}
    {slot : Slot} (hslot : s.data.slots[i]? = some slot) :
    taskOf config (nameOf host s) slot (finished host s slot) =
      taskOf config (nameOf host' s) slot (finished host' s slot) := by
  have hmem := List.mem_of_getElem? hslot
  have hout := hsame slot hmem
  generalize ht : finished host s slot = t at hout
  generalize ht' : finished host' s slot = t' at hout
  cases hout with
  | timedOut => rfl
  | failed => rfl
  | rejected => rfl
  | @accepted doc env env' hnow htp =>
      cases doc with
      | none => rfl
      | some children =>
          have huid : ∀ n, nameOf host s (env.uid n) = nameOf host' s (env'.uid n) := by
            intro n
            have hgen : generated host s (i, n) = some (env.uid n) := by
              rw [generated, hslot, Option.bind_some, ht]
            have hgen' : generated host' s (i, n) = some (env'.uid n) := by
              rw [generated, hslot, Option.bind_some, ht']
            rw [nameOf_generated hfresh hgen, nameOf_generated hfresh' hgen']
          have hnames : Cache.NamesAgree (nameOf host s) (nameOf host' s) children := by
            intro node hnode text htext
            have hwritten : Written host s text :=
              Or.inr ⟨slot, hmem, children, env, ht, node, hnode, htext⟩
            rw [nameOf_written hfresh hwritten,
              nameOf_written hfresh' (written_of_same hsame hwritten)]
          have hedition := Cache.edition_congr config.cache
            ⟨slot.xh, some children, env⟩ ⟨slot.xh, some children, env'⟩
            (by rfl) hnow htp huid hnames
          simp only [taskOf, brought, Option.map_some, hedition]
          rfl

theorem message_of_same
    (config : Config) (hfresh : FreshIds host s) (hfresh' : FreshIds host' s) :
    Outline.message config (nameOf host s) host s =
      Outline.message config (nameOf host' s) host' s := by
  funext o i
  rw [Outline.message, Outline.message]
  cases hslot : s.data.slots[i]? with
  | none => rfl
  | some slot =>
      dsimp only
      rw [taskOf_of_same hsame config hfresh hfresh' hslot]

omit hsame in
/-- The texts of the cache stand for themselves in both runs. -/
theorem contents_of_same (hfresh : FreshIds host s) (hfresh' : FreshIds host' s)
    (h : Integrity s.db) :
    contents (nameOf host s) s.db = contents (nameOf host' s) s.db := by
  apply Cache.contents_congr (nameOf_injective host s) (nameOf_injective host' s) h
  intro e he t ht
  rw [nameOf_written hfresh (Or.inl ⟨e, he, ht⟩), nameOf_written hfresh' (Or.inl ⟨e, he, ht⟩)]

/-- Whatever the orders, the two runs end with the same list, the same
`newentry` and the same contents. -/
theorem outline_of_same
    (config : Config) (hfresh : FreshIds host s) (hfresh' : FreshIds host' s)
    (h : Integrity s.db) (hbatch : Batch s) {order order' : List ℕ}
    (hperm : order.Perm order') :
    outline (nameOf host s) (order.foldl (finishMessage config host) s) =
      outline (nameOf host' s) (order'.foldl (finishMessage config host') s) := by
  have hstart : outline (nameOf host s) s = outline (nameOf host' s) s :=
    Outline.ext (by rfl) (by rfl) (by rfl) (contents_of_same hfresh hfresh' h)
  rw [outline_finishMessages (nameOf_injective host s) h,
    outline_finishMessages (nameOf_injective host' s) h,
    message_of_same hsame config hfresh hfresh', hstart]
  exact foldl_message_perm hbatch config _ host' hperm _

end TwoRuns

/-! ## The ids that stay -/

/-- From `db` to `D` the feeds keep their ids, and so do the entries that are
still there; the feeds whose URL is not among `done` keep their entries. -/
structure Kept (db D : Db) (done : Set CStr) : Prop where
  feed : ∀ f ∈ db.feed.rows, ∃ f' ∈ D.feed.rows, f'.url = f.url ∧ f'.feedID = f.feedID
  entry : Cache.KeepsIds db D
  rest : ∀ f ∈ db.feed.rows, (∀ url ∈ done, f.url ≠ some url) →
    ∀ e, e.feedID = f.feedID → (e ∈ D.entry.rows ↔ e ∈ db.entry.rows)

theorem kept_refl {db : Db} (h : Integrity db) : Kept db db ∅ where
  feed f hf := ⟨f, hf, rfl, rfl⟩
  entry e he x hx hfeed huid := by rw [h.entries x hx e he hfeed huid]
  rest _ _ _ _ _ := Iff.rfl

theorem Kept.mono {db D : Db} {done done' : Set CStr} (h : Kept db D done)
    (hsub : done ⊆ done') : Kept db D done' where
  feed := h.feed
  entry := h.entry
  rest f hf hout := h.rest f hf fun url hurl => hout url (hsub hurl)

/-- A refresh of another URL. -/
theorem Kept.refresh
    {db D : Db} {done : Set CStr} (hdb : Integrity db) (h : Kept db D done)
    (hD : Integrity D) (config : Cache.Config) {r : Cache.Refresh} (hnew : r.url ∉ done) :
    Kept db (Cache.xmlprocUpdateCache config r D).1 (insert r.url done) := by
  have hkeeps := Cache.refreshKeeps config hD r
  refine ⟨?_, ?_, ?_⟩
  · intro f hf
    obtain ⟨g, hg, hurl, hid⟩ := h.feed f hf
    by_cases hr : g.url = some r.url
    · obtain ⟨g', hg', hurl', hid'⟩ := hkeeps.feedID g hg hr
      exact ⟨g', hg', by rw [hurl', ← hr, hurl], hid'.trans hid⟩
    · exact ⟨g, (hkeeps.otherFeeds g hr).mpr hg, hurl, hid⟩
  · intro e he x hx hfeed huid
    obtain ⟨f, hf, howner⟩ := hdb.owned e he
    obtain ⟨g, hg, hurl, hid⟩ := h.feed f hf
    by_cases hr : g.url = some r.url
    · -- no refresh so far was about this feed
      have hout : ∀ url ∈ done, f.url ≠ some url := by
        intro url hmem heq
        rw [hurl, heq] at hr
        exact hnew (Option.some.inj hr ▸ hmem)
      have heD : e ∈ D.entry.rows := (h.rest f hf hout e howner.symm).mpr he
      exact Cache.keepsIds_refresh config hD r e heD x hx hfeed huid
    · have hxD : x ∈ D.entry.rows :=
        (hkeeps.otherEntries g hg hr x (by rw [hfeed, hid, howner])).mp hx
      exact h.entry e he x hxD hfeed huid
  · intro f hf hout e hfeed
    obtain ⟨g, hg, hurl, hid⟩ := h.feed f hf
    have hr : g.url ≠ some r.url := hurl ▸ hout r.url (Set.mem_insert _ _)
    rw [hkeeps.otherEntries g hg hr e (hfeed.trans hid.symm)]
    exact h.rest f hf (fun url hurl' => hout url (Set.mem_insert_of_mem _ hurl')) e hfeed

theorem Kept.storeTransfer
    {db D : Db} {done : Set CStr} (hdb : Integrity db) (h : Kept db D done)
    (hD : Integrity D) (config : Config) {url : CStr} (hnew : url ∉ done) (t : Transfer) :
    Kept db (storeTransfer config url t D).1 (insert url done) := by
  cases t with
  | accepted doc env => exact h.refresh hdb hD config.cache hnew
  | _ => exact h.mono (Set.subset_insert url done)

theorem kept_finishMessages
    {db : Db} (hdb : Integrity db) (config : Config) (host : Host) {idxs : List ℕ}
    (hnodup : idxs.Nodup) {s : State} (hD : Integrity s.db)
    (hurls : (s.data.slots.map Slot.xh).Nodup) {done : Set CStr} (h : Kept db s.db done)
    (hnew : ∀ i ∈ idxs, ∀ slot, s.data.slots[i]? = some slot → slot.xh ∉ done) :
    ∃ done', Kept db (idxs.foldl (finishMessage config host) s).db done' := by
  induction idxs generalizing s done with
  | nil => exact ⟨done, h⟩
  | cons i idxs ih =>
      obtain ⟨hi, hidxs⟩ := List.nodup_cons.mp hnodup
      have hslots := finishMessage_slots config host s i
      rw [List.foldl_cons]
      cases hslot : s.data.slots[i]? with
      | none =>
          have hsame : finishMessage config host s i = s := by rw [finishMessage, hslot]
          rw [hsame]
          exact ih hidxs hD hurls h fun j hj => hnew j (List.mem_cons_of_mem i hj)
      | some slot =>
          have hkept : Kept db (finishMessage config host s i).db (insert slot.xh done) := by
            rw [finishMessage, hslot]
            exact h.storeTransfer hdb hD config (hnew i List.mem_cons_self slot hslot) _
          refine ih hidxs (integrity_finishMessage hD i) (by rwa [hslots]) hkept ?_
          intro j hj slot' hslot'
          rw [hslots] at hslot'
          rintro (heq | hmem)
          · have hij : i ≠ j := fun hsame => hi (hsame ▸ hj)
            exact xh_ne_of_ne hurls hij hslot hslot' heq.symm
          · exact hnew j (List.mem_cons_of_mem i hj) slot' hslot' hmem

/-! ## The whole batch -/

/-- What the second run makes of a text of the first one. -/
noncomputable def renamed (host host' : Host) (s : State) (t : CStr) : CStr :=
  match nameOf host s t with
  | .inl t => t
  | .inr p => (generated host' s p).getD t

theorem nameOf_eq_inl {host : Host} {s : State} {t u : CStr}
    (h : nameOf host s t = .inl u) : u = t := by
  by_cases hex : ∃ p, generated host s p = some t
  · rw [nameOf, dif_pos hex] at h
    cases h
  · rw [nameOf, dif_neg hex] at h
    exact (Sum.inl.inj h).symm

theorem nameOf_eq_inr {host : Host} {s : State} {t : CStr} {p : ℕ × ℕ}
    (h : nameOf host s t = .inr p) : generated host s p = some t := by
  by_cases hex : ∃ p, generated host s p = some t
  · rw [nameOf, dif_pos hex] at h
    rw [← Sum.inr.inj h]
    exact hex.choose_spec
  · rw [nameOf, dif_neg hex] at h
    cases h

theorem eq_renamed
    {host host' : Host} {s : State} {t t' : CStr} (h : nameOf host' s t' = nameOf host s t) :
    t' = renamed host host' s t := by
  rw [renamed]
  cases hname : nameOf host s t with
  | inl u => exact (nameOf_eq_inl (h.trans hname)).symm
  | inr p =>
      dsimp only
      rw [nameOf_eq_inr (h.trans hname), Option.getD_some]

theorem generated_of_renamed_ne
    (host host' : Host) (s : State) (t : CStr) (h : renamed host host' s t ≠ t) :
    ∃ p, generated host s p = some t := by
  rw [renamed] at h
  cases hname : nameOf host s t with
  | inl u =>
      rw [hname] at h
      exact absurd (nameOf_eq_inl hname) h
  | inr p => exact ⟨p, nameOf_eq_inr hname⟩

/-- `D'` is `D` with other ids, but for the rows that were there before the
batch, and other random unique ids. -/
def SameButForFreshIds (host : Host) (s : State) (D D' : Db) : Prop :=
  ∃ (φ ψ : ℤ → ℤ) (σ : CStr → CStr), Cache.Renames φ ψ σ D D' ∧
    (∀ f ∈ s.db.feed.rows, φ f.feedID = f.feedID) ∧
    (∀ e ∈ s.db.entry.rows, ∀ x ∈ D.entry.rows, x.feedID = e.feedID →
      x.uniqueId = e.uniqueId → x.entryID = e.entryID ∧ ψ x.entryID = x.entryID) ∧
    ∀ t, σ t ≠ t → ∃ p, generated host s p = some t

theorem sameButForFreshIds_of_contents_eq
    {host host' : Host} {s : State} (hfresh : FreshIds host s) (hdb : Integrity s.db)
    {D D' : Db} (h : Integrity D) (h' : Integrity D')
    (hcontents : contents (nameOf host s) D = contents (nameOf host' s) D')
    {done done' : Set CStr} (hkept : Kept s.db D done) (hkept' : Kept s.db D' done') :
    SameButForFreshIds host s D D' := by
  have hσ : ∀ t t', nameOf host' s t' = nameOf host s t → t' = renamed host host' s t :=
    fun _ _ => eq_renamed
  have hrenames := Cache.renames_of_contents_eq h h' hcontents (nameOf_injective host s)
    (nameOf_injective host' s) hσ
  have hfeeds : ∀ f ∈ s.db.feed.rows, Cache.feedTwin D D' f.feedID = f.feedID := by
    intro f hf
    obtain ⟨g, hg, hurl, hid⟩ := hkept.feed f hf
    obtain ⟨g', hg', hurl', hid'⟩ := hkept'.feed f hf
    rw [← hid, Cache.feedTwin_eq h' hg hg' (hurl'.trans hurl.symm), hid', hid]
  refine ⟨_, _, _, hrenames, hfeeds, ?_, generated_of_renamed_ne host host' s⟩
  intro e he x hx hfeed huid
  have hid := hkept.entry e he x hx hfeed huid
  refine ⟨hid, ?_⟩
  -- the row in the second database that `x` is renamed to
  have hx' := hrenames.entries.mem_iff.mpr (List.mem_map_of_mem hx)
  obtain ⟨f, hf, howner⟩ := hdb.owned e he
  have hsame : x.uniqueId.map (renamed host host' s) = e.uniqueId := by
    rw [huid]
    cases hs : e.uniqueId with
    | none => rfl
    | some t =>
        by_contra hne
        obtain ⟨p, hp⟩ := generated_of_renamed_ne host host' s t
          fun heq => hne (congrArg some heq)
        exact hfresh.new p t hp (Or.inl ⟨e, he, Or.inl hs⟩)
  have hid' := hkept'.entry e he _ hx' ?_ hsame
  · exact hid'.trans hid.symm
  · show Cache.feedTwin D D' x.feedID = e.feedID
    rw [hfeed, ← howner, hfeeds f hf]

/-- Over every reachable cache: a batch of transfers for different URLs ends
with the same list, the same `newentry` and the same cache in whatever order
its messages come, but for the ids of the new rows. -/
theorem finishBatch_order_free
    (config : Config) (ops : List Cache.Op) (s : State)
    (hdb : s.db = Cache.run config.cache ops) (hbatch : Batch s) (host host' : Host)
    (k k' : ℕ)
    (hsame : ∀ slot ∈ s.data.slots, SameOutcome (finished host s slot) (finished host' s slot))
    (hfresh : FreshIds host s) (hfresh' : FreshIds host' s) :
    (finishBatch config host' k' s).urls = (finishBatch config host k s).urls ∧
      (finishBatch config host' k' s).data.newentry =
        (finishBatch config host k s).data.newentry ∧
      SameButForFreshIds host s (finishBatch config host k s).db
        (finishBatch config host' k' s).db := by
  have h : Integrity s.db := hdb ▸ Cache.integrity_run config.cache ops
  have hperm := host.order_perm k s.data.slots.length
  have hperm' := host'.order_perm k' s.data.slots.length
  have houtline := outline_of_same hsame config hfresh hfresh' h hbatch (hperm.trans hperm'.symm)
  have hnodup := List.nodup_range (n := s.data.slots.length)
  obtain ⟨done, hkept⟩ := kept_finishMessages h config host (hperm.nodup_iff.mpr hnodup) h
    hbatch.urls (kept_refl h) (by simp)
  obtain ⟨done', hkept'⟩ := kept_finishMessages h config host' (hperm'.nodup_iff.mpr hnodup) h
    hbatch.urls (kept_refl h) (by simp)
  refine ⟨(congrArg Outline.urls houtline).symm, ?_, ?_⟩
  · exact (Bool.eq_iff_iff.mpr (iff_of_eq (congrArg Outline.news houtline))).symm
  · exact sameButForFreshIds_of_contents_eq hfresh h (integrity_finishMessages h _)
      (integrity_finishMessages h _) (congrArg Outline.store houtline) hkept hkept'

/-! ## Two new feeds, in both orders -/

def bothAtOnce : Config where
  parallelReload := 5
  dlRetries := 2
  cache := plainCache

def bothLoaded : State :=
  loadedState bothAtOnce (httpFetchInit bothAtOnce
    (httpInit [ascii "http://example/a", ascii "http://example/b"] Cache.emptyDb))

/-- Either feed has one entry without an id.  The random ids are `x`, `xx`,
`xxx` and so on, from the length `first`. -/
def idlessHost (first : ℕ) (order : ℕ → List ℕ) (hperm : ∀ n, (order n).Perm (List.range n)) :
    Host where
  running _ := 0
  order _ n := order n
  outcome i _ :=
    .accepted (some [.elem (ascii "entry") []])
      ⟨0, fun _ => ⟨0, 0, 0, 0, 0, 0, 0, 0, 0, 0⟩, fun n => List.replicate (first + 2 * n + i) 120⟩
  meanwhile _ db := db
  order_perm _ n := hperm n

theorem freshIds_idlessHost
    (first : ℕ) (order : ℕ → List ℕ) (hperm : ∀ n, (order n).Perm (List.range n)) :
    FreshIds (idlessHost first order hperm) bothLoaded := by
  have hgen : ∀ p t, generated (idlessHost first order hperm) bothLoaded p = some t →
      p.1 < 2 ∧ t = List.replicate (first + 2 * p.2 + p.1) 120 := by
    rintro ⟨i, n⟩ t hp
    match i with
    | 0 => exact ⟨Nat.zero_lt_two, (Option.some.inj hp).symm⟩
    | 1 => exact ⟨Nat.one_lt_two, (Option.some.inj hp).symm⟩
    | i + 2 => cases hp
  constructor
  · intro p q t hp hq
    obtain ⟨hp2, rfl⟩ := hgen p t hp
    obtain ⟨hq2, heq⟩ := hgen q _ hq
    have hlength := congrArg List.length heq
    simp only [List.length_replicate] at hlength
    exact Prod.ext (by omega) (by omega)
  · rintro p t - (⟨e, he, -⟩ | ⟨slot, -, children, env, hdoc, node, hnode, hname⟩)
    · cases he
    · cases hdoc
      rw [show node = [] from List.mem_singleton.mp hnode] at hname
      rcases hname with hname | hname <;> cases hname

theorem sameOutcome_idlessHost
    (first first' : ℕ) (order order' : ℕ → List ℕ)
    (hperm : ∀ n, (order n).Perm (List.range n)) (hperm' : ∀ n, (order' n).Perm (List.range n))
    (s : State) (slot : Slot) :
    SameOutcome (finished (idlessHost first order hperm) s slot)
      (finished (idlessHost first' order' hperm') s slot) :=
  .accepted (by rfl) (by rfl)

theorem two_new_feeds_in_either_order :
    SameButForFreshIds (idlessHost 1 List.range fun _ => List.Perm.refl _) bothLoaded
      (finishBatch bothAtOnce (idlessHost 1 List.range fun _ => List.Perm.refl _) 0 bothLoaded).db
      (finishBatch bothAtOnce
        (idlessHost 9 (fun n => (List.range n).reverse) fun _ => List.reverse_perm _) 0
        bothLoaded).db :=
  (finishBatch_order_free bothAtOnce [] bothLoaded (by rfl)
    (batch_loadedState bothAtOnce (by decide)) _ _ 0 0
    (fun slot _ => sameOutcome_idlessHost 1 9 _ _ _ _ bothLoaded slot)
    (freshIds_idlessHost 1 _ _) (freshIds_idlessHost 9 _ _)).2.2

end Fetch
end Newsbaoter
