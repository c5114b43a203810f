import Newsbaoter.Cache.Contents
import Newsbaoter.Cache.Repeat

/-!
# Databases with the same contents

Two databases with the same contents have the same rows, up to their ids and to
the names that the two injections tell apart.
-/

open Newsbaoter.Support

namespace Newsbaoter
namespace Cache

variable {κ : Type*}

def Feed.rename (φ : ℤ → ℤ) (f : Feed) : Feed :=
  { f with feedID := φ f.feedID }

/-- A renaming of the ids of a row and of its unique id, which may also be its
title. -/
def Entry.rename (φ ψ : ℤ → ℤ) (σ : CStr → CStr) (e : Entry) : Entry :=
  { e with
    entryID := ψ e.entryID
    feedID := φ e.feedID
    uniqueId := e.uniqueId.map σ
    title := e.title.map σ }

structure Renames (φ ψ : ℤ → ℤ) (σ : CStr → CStr) (D D' : Db) : Prop where
  feeds : D'.feed.rows.Perm (D.feed.rows.map (Feed.rename φ))
  entries : D'.entry.rows.Perm (D.entry.rows.map (Entry.rename φ ψ σ))

section Same

variable {decode decode' : CStr → κ} {D D' : Db}
  (hdecode : Function.Injective decode) (hdecode' : Function.Injective decode')
  (h : Integrity D) (h' : Integrity D') (hcontents : contents decode D = contents decode' D')
include hdecode hdecode' h h' hcontents

omit hdecode hdecode' in
/-- Each feed has its like in the other database. -/
theorem exists_feed_like {f : Feed} (hf : f ∈ D.feed.rows) :
    ∃ f' ∈ D'.feed.rows, f'.url = f.url ∧ f'.body = f.body ∧
      entries decode' D' f'.feedID = entries decode D f.feedID := by
  have hhere : contents decode D f.url = some (f.body, entries decode D f.feedID) := by
    rw [contents, (feedAt_eq_some_iff h.feeds).mpr ⟨hf, rfl⟩, Option.map_some]
  rw [hcontents] at hhere
  obtain ⟨f', hfind, hboth⟩ := Option.map_eq_some_iff.mp hhere
  obtain ⟨hbody, hentries⟩ := Prod.mk.inj hboth
  obtain ⟨hf', hurl⟩ := (feedAt_eq_some_iff h'.feeds).mp hfind
  exact ⟨f', hf', hurl, hbody, hentries⟩

omit hcontents in
/-- Each entry has its like in the feed that is like its own. -/
theorem exists_entry_like
    {f f' : Feed} (hentries : entries decode' D' f'.feedID = entries decode D f.feedID)
    {e : Entry} (he : e ∈ D.entry.rows) (hfeed : e.feedID = f.feedID) :
    ∃ e' ∈ D'.entry.rows, e'.feedID = f'.feedID ∧
      e'.uniqueId.map decode' = e.uniqueId.map decode ∧
      e'.body decode' = e.body decode := by
  have hhere : entries decode D f.feedID (e.uniqueId.map decode) = some (e.body decode) := by
    rw [entries, (entryAt_eq_some_iff hdecode h.entries).mpr ⟨he, hfeed, rfl⟩, Option.map_some]
  rw [← hentries] at hhere
  obtain ⟨e', hfind, hbody⟩ := Option.map_eq_some_iff.mp hhere
  obtain ⟨he', hfeed', hkey⟩ := (entryAt_eq_some_iff hdecode' h'.entries).mp hfind
  exact ⟨e', he', hfeed', hkey, hbody⟩

end Same

/-- The id of the like of the feed with the id `x`. -/
def feedTwin (D D' : Db) (x : ℤ) : ℤ :=
  match D.feed.rows.find? fun f => f.feedID == x with
  | none => x
  | some f => ((feedAt D' f.url).map Feed.feedID).getD x

/-- The id of the like of the entry with the id `x`. -/
noncomputable def entryTwin (decode decode' : CStr → κ) (D D' : Db) (x : ℤ) : ℤ :=
  match D.entry.rows.find? fun e => e.entryID == x with
  | none => x
  | some e =>
      ((entryAt decode' D' (feedTwin D D' e.feedID) (e.uniqueId.map decode)).map
        Entry.entryID).getD x

theorem find?_key
    {ρ : Type*} {key : ρ → ℤ} (t : KeyedTable ρ key) {r : ρ} (hr : r ∈ t.rows) :
    t.rows.find? (fun x => key x == key r) = some r := by
  cases hfind : t.rows.find? fun x => key x == key r with
  | none =>
      rw [List.find?_eq_none] at hfind
      exact absurd (beq_self_eq_true (key r)) (hfind r hr)
  | some x =>
      have hkey : key x = key r := by simpa using List.find?_some hfind
      rw [t.eq_of_key_eq (List.mem_of_find?_eq_some hfind) hr hkey]

theorem feedTwin_eq
    {D D' : Db} (h' : Integrity D') {f f' : Feed} (hf : f ∈ D.feed.rows)
    (hf' : f' ∈ D'.feed.rows) (hurl : f'.url = f.url) :
    feedTwin D D' f.feedID = f'.feedID := by
  rw [feedTwin, find?_key D.feed hf]
  dsimp only
  rw [(feedAt_eq_some_iff h'.feeds).mpr ⟨hf', hurl⟩]
  rfl

theorem entryTwin_eq
    {decode decode' : CStr → κ} (hdecode' : Function.Injective decode') {D D' : Db}
    (h' : Integrity D') {e e' : Entry} (he : e ∈ D.entry.rows) (he' : e' ∈ D'.entry.rows)
    (hfeed : e'.feedID = feedTwin D D' e.feedID)
    (hkey : e'.uniqueId.map decode' = e.uniqueId.map decode) :
    entryTwin decode decode' D D' e.entryID = e'.entryID := by
  rw [entryTwin, find?_key D.entry he]
  dsimp only
  rw [(entryAt_eq_some_iff hdecode' h'.entries).mpr ⟨he', hfeed, hkey⟩]
  rfl

theorem Feed.eq_rename_of_body
    {f f' : Feed} {φ : ℤ → ℤ} (hbody : f'.body = f.body) (hid : φ f.feedID = f'.feedID) :
    f.rename φ = f' := by
  obtain ⟨id, title, url, desc, name, email, iurl, itext⟩ := f
  obtain ⟨id', title', url', desc', name', email', iurl', itext'⟩ := f'
  simp only [Feed.body, Feed.mk.injEq] at hbody
  simp only [Feed.rename, Feed.mk.injEq]
  obtain ⟨-, rfl, rfl, rfl, rfl, rfl, rfl, rfl⟩ := hbody
  exact ⟨hid, rfl, rfl, rfl, rfl, rfl, rfl, rfl⟩

theorem Entry.eq_rename_of_body
    {decode decode' : CStr → κ} {σ : CStr → CStr}
    (hσ : ∀ s s', decode' s' = decode s → s' = σ s) {e e' : Entry} {φ ψ : ℤ → ℤ}
    (hkey : e'.uniqueId.map decode' = e.uniqueId.map decode)
    (hbody : e'.body decode' = e.body decode) (hfeed : φ e.feedID = e'.feedID)
    (hid : ψ e.entryID = e'.entryID) :
    e.rename φ ψ σ = e' := by
  have hnames : ∀ t t' : Option CStr, t'.map decode' = t.map decode → t.map σ = t' := by
    intro t t' heq
    cases t with
    | none =>
        cases t' with
        | none => rfl
        | some s' => cases heq
    | some s =>
        cases t' with
        | none => cases heq
        | some s' =>
            rw [Option.map_some, hσ s s' (Option.some.inj heq)]
  obtain ⟨entryID, feedID, viewed, pubDate, modDate, uid, title, url, name, email, desc,
    content, current⟩ := e
  obtain ⟨entryID', feedID', viewed', pubDate', modDate', uid', title', url', name', email',
    desc', content', current'⟩ := e'
  simp only [Entry.body, Body.mk.injEq] at hbody
  simp only [Entry.rename, Entry.mk.injEq]
  obtain ⟨rfl, rfl, rfl, htitle, rfl, rfl, rfl, rfl, rfl, rfl⟩ := hbody
  exact ⟨hid, hfeed, rfl, rfl, rfl, hnames _ _ hkey, hnames _ _ htitle, rfl, rfl, rfl, rfl,
    rfl, rfl⟩

/-- Lists without repetitions that correspond one to one. -/
theorem perm_map_of_twins
    {α : Type*} {l l' : List α} {g : α → α} (hl : l.Nodup) (hl' : l'.Nodup)
    (hto : ∀ a ∈ l, g a ∈ l') (hinj : ∀ a ∈ l, ∀ b ∈ l, g a = g b → a = b)
    (hfrom : ∀ a' ∈ l', ∃ a ∈ l, g a = a') :
    l'.Perm (l.map g) := by
  refine (List.perm_ext_iff_of_nodup hl' (hl.map_on hinj)).mpr ?_
  intro x
  rw [List.mem_map]
  constructor
  · exact hfrom x
  · rintro ⟨a, ha, rfl⟩
    exact hto a ha

section Twins

variable {decode decode' : CStr → κ} {D D' : Db}
  (h : Integrity D) (h' : Integrity D') (hcontents : contents decode D = contents decode' D')
include h h' hcontents

theorem perm_feeds : D'.feed.rows.Perm (D.feed.rows.map (Feed.rename (feedTwin D D'))) := by
  have hfeed : ∀ f ∈ D.feed.rows, ∀ f' ∈ D'.feed.rows, f'.url = f.url →
      f'.body = f.body → f.rename (feedTwin D D') = f' :=
    fun f hf f' hf' hurl hbody => Feed.eq_rename_of_body hbody (feedTwin_eq h' hf hf' hurl)
  apply perm_map_of_twins D.feed.nodup_rows D'.feed.nodup_rows
  · intro f hf
    obtain ⟨f', hf', hurl, hbody, -⟩ := exists_feed_like h h' hcontents hf
    rwa [hfeed f hf f' hf' hurl hbody]
  · intro f hf g hg heq
    have hurl : (f.rename (feedTwin D D')).url = (g.rename (feedTwin D D')).url :=
      congrArg Feed.url heq
    exact h.feeds f hf g hg hurl
  · intro f' hf'
    obtain ⟨f, hf, hurl, hbody, -⟩ := exists_feed_like h' h hcontents.symm hf'
    exact ⟨f, hf, hfeed f hf f' hf' hurl.symm hbody.symm⟩

/-- Entries of different feeds have twins in different feeds. -/
theorem feedID_eq_of_twins
    {e x : Entry} (he : e ∈ D.entry.rows) (hx : x ∈ D.entry.rows)
    (heq : feedTwin D D' e.feedID = feedTwin D D' x.feedID) : e.feedID = x.feedID := by
  obtain ⟨f, hf, hid⟩ := h.owned e he
  obtain ⟨g, hg, hgid⟩ := h.owned x hx
  obtain ⟨f', hf', hurl, -, -⟩ := exists_feed_like h h' hcontents hf
  obtain ⟨g', hg', hgurl, -, -⟩ := exists_feed_like h h' hcontents hg
  rw [← hid, ← hgid, feedTwin_eq h' hf hf' hurl, feedTwin_eq h' hg hg' hgurl] at heq
  have htwins := KeyedTable.eq_of_key_eq _ hf' hg' heq
  have hsame : f = g := h.feeds f hf g hg (by rw [← hurl, htwins, hgurl])
  rw [← hid, ← hgid, hsame]

variable (hdecode : Function.Injective decode) (hdecode' : Function.Injective decode')
  {σ : CStr → CStr} (hσ : ∀ s s', decode' s' = decode s → s' = σ s)
include hdecode hdecode' hσ

theorem exists_entry_twin {e : Entry} (he : e ∈ D.entry.rows) :
    ∃ e' ∈ D'.entry.rows,
      e.rename (feedTwin D D') (entryTwin decode decode' D D') σ = e' ∧
        e'.feedID = feedTwin D D' e.feedID ∧
        e'.uniqueId.map decode' = e.uniqueId.map decode := by
  obtain ⟨f, hf, hid⟩ := h.owned e he
  obtain ⟨f', hf', hurl, -, hentries⟩ := exists_feed_like h h' hcontents hf
  obtain ⟨e', he', hfeed', hkey, hbody⟩ :=
    exists_entry_like hdecode hdecode' h h' hentries he hid.symm
  have hfeedid : e'.feedID = feedTwin D D' e.feedID := by
    rw [hfeed', ← hid, feedTwin_eq h' hf hf' hurl]
  exact ⟨e', he', Entry.eq_rename_of_body hσ hkey hbody hfeedid.symm
    (entryTwin_eq hdecode' h' he he' hfeedid hkey), hfeedid, hkey⟩

theorem perm_entries :
    D'.entry.rows.Perm
      (D.entry.rows.map (Entry.rename (feedTwin D D') (entryTwin decode decode' D D') σ)) := by
  apply perm_map_of_twins D.entry.nodup_rows D'.entry.nodup_rows
  · intro e he
    obtain ⟨e', he', hrename, -, -⟩ := exists_entry_twin h h' hcontents hdecode hdecode' hσ he
    rwa [hrename]
  · intro e he x hx heq
    obtain ⟨e', -, hrename, hefeed, hekey⟩ :=
      exists_entry_twin h h' hcontents hdecode hdecode' hσ he
    obtain ⟨x', -, hxrename, hxfeed, hxkey⟩ :=
      exists_entry_twin h h' hcontents hdecode hdecode' hσ hx
    obtain rfl : e' = x' := hrename.symm.trans (heq.trans hxrename)
    have huid := Option.map_injective hdecode (hekey.symm.trans hxkey)
    exact h.entries e he x hx
      (feedID_eq_of_twins h h' hcontents he hx (hefeed.symm.trans hxfeed)) huid
  · intro x hx
    obtain ⟨g', hg', hid⟩ := h'.owned x hx
    obtain ⟨g, hg, hurl, -, hentries⟩ := exists_feed_like h' h hcontents.symm hg'
    obtain ⟨e, he, hefeed, hekey, -⟩ :=
      exists_entry_like hdecode' hdecode h' h hentries hx hid.symm
    obtain ⟨e', he', hrename, hfeedid, hkey⟩ :=
      exists_entry_twin h h' hcontents hdecode hdecode' hσ he
    have hsame : e' = x := by
      apply h'.entries e' he' x hx
      · rw [hfeedid, hefeed, feedTwin_eq h' hg hg' hurl.symm, hid]
      · exact Option.map_injective hdecode' (hkey.trans hekey)
    exact ⟨e, he, hrename.trans hsame⟩

/-- With the same contents, one database is the other with its ids renamed. -/
theorem renames_of_contents_eq :
    Renames (feedTwin D D') (entryTwin decode decode' D D') σ D D' :=
  ⟨perm_feeds h h' hcontents, perm_entries h h' hcontents hdecode hdecode' hσ⟩

end Twins

/-! ## Refreshes that differ in their random ids -/

theorem map_congr_of_names
    {decode decode' : CStr → κ} {t : Option CStr}
    (h : ∀ s, t = some s → decode s = decode' s) :
    t.map decode = t.map decode' :=
  Option.map_congr fun s hs => h s hs

/-- Injections that agree on the names in the cache see the same contents. -/
theorem contents_congr
    {decode decode' : CStr → κ} (hdecode : Function.Injective decode)
    (hdecode' : Function.Injective decode') {db : Db} (h : Integrity db)
    (hnames : ∀ e ∈ db.entry.rows, ∀ s, e.uniqueId = some s ∨ e.title = some s →
      decode s = decode' s) :
    contents decode db = contents decode' db := by
  have hentry : ∀ feedid key, entryAt decode db feedid key = entryAt decode' db feedid key := by
    intro feedid key
    ext e
    rw [entryAt_eq_some_iff hdecode h.entries, entryAt_eq_some_iff hdecode' h.entries]
    refine and_congr_right fun he => and_congr_right fun _ => ?_
    rw [map_congr_of_names fun s hs => hnames e he s (Or.inl hs)]
  have hentries : ∀ feedid, entries decode db feedid = entries decode' db feedid := by
    intro feedid
    funext key
    rw [entries, entries, ← hentry]
    apply Option.map_congr
    intro e hfind
    have he := ((entryAt_eq_some_iff hdecode h.entries).mp hfind).1
    have htitle : e.title.map decode = e.title.map decode' :=
      map_congr_of_names fun s hs => hnames e he s (Or.inr hs)
    rw [Entry.body, Entry.body, htitle]
  funext url
  rw [contents, contents]
  apply Option.map_congr
  intro f _
  rw [hentries]

/-- The title of an entry, unless it is its unique id. -/
def nodeTitle (node : List XmlNode) : Option CStr :=
  let ei := fun f => getContentIfAvail node (entryFields f)
  (ei .title).or (((ei .desc).or (ei .content)).map (List.take 49))

theorem entryData_title (time : TimeLib) (tp : Tm) (uid : CStr) (node : List XmlNode) :
    entryData time tp uid node .title =
      some ((nodeTitle node).getD ((nodeId node).getD uid)) := by
  have htitle : entryData time tp uid node .title =
      some ((getContentIfAvail node (entryFields .title)).getD
        (fallbackTitle (getContentIfAvail node (entryFields .desc))
          (getContentIfAvail node (entryFields .content)) ((nodeId node).getD uid))) := rfl
  rw [htitle, nodeTitle]
  dsimp only
  cases getContentIfAvail node (entryFields .title) with
  | some t => rfl
  | none =>
      cases getContentIfAvail node (entryFields .desc) <;>
        cases getContentIfAvail node (entryFields .content) <;> rfl

/-- The entry elements themselves name nothing that the two injections tell
apart. -/
def NamesAgree (decode decode' : CStr → κ) (children : List XmlNode) : Prop :=
  ∀ node ∈ entryNodes children, ∀ s, nodeId node = some s ∨ nodeTitle node = some s →
    decode s = decode' s

theorem record_congr
    {decode decode' : CStr → κ} (time : TimeLib) (tp : Tm) {uid uid' : CStr}
    {node : List XmlNode} (huid : decode uid = decode' uid')
    (hnode : ∀ s, nodeId node = some s ∨ nodeTitle node = some s → decode s = decode' s) :
    record decode (entryData time tp uid node) = record decode' (entryData time tp uid' node) := by
  have hid : decode ((nodeId node).getD uid) = decode' ((nodeId node).getD uid') := by
    cases hs : nodeId node with
    | none => exact huid
    | some s => exact hnode s (Or.inl hs)
  have htitle : decode ((nodeTitle node).getD ((nodeId node).getD uid)) =
      decode' ((nodeTitle node).getD ((nodeId node).getD uid')) := by
    cases hs : nodeTitle node with
    | none => exact hid
    | some s => exact hnode s (Or.inr hs)
  rw [record, record, entryData_uid, entryData_uid, entryData_title, entryData_title,
    Option.map_some, Option.map_some, Option.map_some, Option.map_some, hid, htitle]
  rfl

theorem edition_congr
    {decode decode' : CStr → κ} (config : Config) (r r' : Refresh) {children : List XmlNode}
    (hurl : r'.url = r.url) (hnow : r'.env.now = r.env.now) (htp : r'.env.tp = r.env.tp)
    (huid : ∀ i, decode (r.env.uid i) = decode' (r'.env.uid i))
    (hnames : NamesAgree decode decode' children) :
    edition config decode r children = edition config decode' r' children := by
  have hrecords : (records config.time r.env children).map (record decode) =
      (records config.time r'.env children).map (record decode') := by
    rw [records, records, List.map_map, List.map_map]
    apply List.map_congr_left
    rintro ⟨node, i⟩ hmem
    have hnode : node ∈ entryNodes children :=
      List.mem_of_getElem? (List.mem_zipIdx_iff_getElem?.mp hmem)
    simp only [Function.comp_apply, htp]
    exact record_congr config.time _ (huid i) (hnames node hnode)
  rw [edition, edition, hrecords, hurl, hnow]

end Cache
end Newsbaoter
