import Newsbaoter.Cache.Repeat
import Newsbaoter.Xsl.Atom
import Newsbaoter.Xsl.Rdf
import Newsbaoter.Xsl.Rss

/-!
# Refreshing from a source document

What a document publishes, by its format alone: the fields of a feed and its
articles.  Transforming the document and walking over the result stores just
that, and a document that its stylesheet does not know changes nothing.
-/

namespace Newsbaoter
namespace Xsl

open Newsbaoter.Cache (Config Db EntryField FeedField RefreshEnv TimeLib Tm XmlNode cacheCleanupOld
  cacheInitCleanup cacheUpdateFeed entryData entryFields fallbackTitle feedData getContentIfAvail
  getNumUnread records updateFeed walk xmlprocUpdateCache)
open Newsbaoter.Support.Stylesheet

/-! ## What a document publishes -/

/-- The children of the feed element, or of the channels of an RDF feed. -/
def Format.feedChildren (format : Format) (d : Document) : List Node :=
  match format with
  | .rss20 | .rss09 => ((first [plain "channel"].contains d.children).map Markup.children).getD []
  | .atom10 | .atom03 => d.children
  | .rdf => (select [rss10 "channel"].contains d.children).flatMap Markup.children

/-- The elements that hold articles. -/
def Format.items (format : Format) (d : Document) : List Node :=
  match format with
  | .rss20 | .rss09 => select [plain "item"].contains (format.feedChildren d)
  | .atom10 => select [Xsl.atom10 "entry"].contains d.children
  | .atom03 => select [Xsl.atom03 "entry"].contains d.children
  | .rdf => select [rss10 "item"].contains d.children

def Format.feed (format : Format) (d : Document) : FeedField → Option CStr :=
  match format with
  | .rss20 | .rss09 => rssFeed (format.feedChildren d)
  | .atom10 => atomFeedFields Xsl.atom10 d.children
  | .atom03 => atomFeedFields Xsl.atom03 d.children
  | .rdf => rdfFeedFields (format.feedChildren d)

def Format.article : Format → Node → EntryField → Option CStr
  | .rss20 => rss20Entry
  | .rss09 => rss09Entry
  | .atom10 => atom10Item
  | .atom03 => atom03Item
  | .rdf => rdfEntry

def Format.articles (format : Format) (d : Document) : List (EntryField → Option CStr) :=
  (format.items d).map format.article

/-- The stylesheet of the format has a template for the root of the document. -/
def Format.knows (format : Format) (d : Document) : Bool :=
  match format with
  | .rss20 | .rss09 => d.name == plain "rss" && (first [plain "channel"].contains d.children).isSome
  | .atom10 => d.name == Xsl.atom10 "feed"
  | .atom03 => d.name == Xsl.atom03 "feed"
  | .rdf => d.name == Xsl.rdf "RDF"

/-- What the RDF sheet has no template for holds texts alone. -/
def Document.Regular (d : Document) : Prop :=
  getSpecSheet d = .rdf → RdfTexts d.children

/-! ## Transforming -/

section Transform

variable {d : Document}

theorem xmlprocTransform_of_process
    {format : Format} (hformat : getSpecSheet d = format) {t : Node} {parent : Option QName}
    {ts : List (Node × Option QName)} (hstart : format.start d = (t, parent) :: ts)
    {out : String} {body : List Node}
    (hprocess : process format.rules parent t = [literal (plain out) body]) :
    xmlprocTransform d = some (views (joinTexts body)) := by
  rw [xmlprocTransform, applyStylesheet, hformat, hstart, List.flatMap_cons, hprocess,
    first_joinTexts, first_append, first_literal]
  rfl

theorem xmlprocTransform_of_start
    {format : Format} (hformat : getSpecSheet d = format) (hstart : format.start d = []) :
    xmlprocTransform d = none := by
  rw [xmlprocTransform, applyStylesheet, hformat, hstart]
  rfl

/-- The first channel is the one that is transformed. -/
theorem rss_channel
    {format : Format} (hformat : getSpecSheet d = format)
    (hstart : format.start d = if d.name = plain "rss" then
      (select [plain "channel"].contains d.children).map fun t => (t, some d.name) else [])
    (hrule : format.rules (some (plain "rss")) (plain "channel") =
      some fun _ children => [literal (plain "feed") (rssChannel children)]) :
    xmlprocTransform d =
      if d.name = plain "rss" then (first [plain "channel"].contains d.children).map fun t =>
        views (joinTexts (rssChannel (processed format.rules (plain "channel") t.children)))
      else none := by
  split
  · next hname =>
      rw [if_pos hname] at hstart
      cases hselect : select [plain "channel"].contains d.children with
      | nil =>
          rw [hselect] at hstart
          rw [select_eq_nil_iff.mp hselect]
          exact xmlprocTransform_of_start hformat hstart
      | cons t ts =>
          have ht : t ∈ select [plain "channel"].contains d.children := by simp [hselect]
          rw [← head?_select, hselect]
          rw [hselect, hname] at hstart
          obtain ⟨name, attrs, children, hchannel, rfl⟩ :=
            Markup.named_iff.mp (List.mem_filter.mp ht).2
          obtain rfl := List.mem_singleton.mp (List.contains_iff_mem.mp hchannel)
          exact xmlprocTransform_of_process hformat hstart (process_of_rule hrule attrs children)
  · next hname =>
      rw [if_neg hname] at hstart
      exact xmlprocTransform_of_start hformat hstart

/-- Where the template of `/` selects the root, it is transformed if it has the
right name. -/
theorem root_element
    {format : Format} (hformat : getSpecSheet d = format) {name : QName}
    (hstart : format.start d = if d.name = name then [(d.root, none)] else [])
    {body : List (Node × List Node) → List Node}
    (hrule : format.rules none name = some fun _ children => [literal (plain "feed") (body children)]) :
    xmlprocTransform d =
      if d.name = name then some (views (joinTexts (body (processed format.rules name d.children))))
      else none := by
  split
  · next hname =>
      rw [if_pos hname] at hstart
      have hprocess := process_of_rule hrule d.attrs d.children
      rw [← hname] at hprocess ⊢
      exact xmlprocTransform_of_process hformat hstart hprocess
  · next hname =>
      rw [if_neg hname] at hstart
      exact xmlprocTransform_of_start hformat hstart

/-- A document that the stylesheet knows is read as what it publishes, and the
result has no root for any other. -/
structure Transformed (format : Format) (d : Document) : Prop where
  known : format.knows d = true →
    ∃ kids, xmlprocTransform d = some kids ∧ Reads kids (format.feed d) (format.articles d)
  unknown : format.knows d = false → xmlprocTransform d = none

theorem transformed_of_channel
    {format : Format}
    (htransform : xmlprocTransform d =
      if d.name = plain "rss" then (first [plain "channel"].contains d.children).map fun t =>
        views (joinTexts (rssChannel (processed format.rules (plain "channel") t.children)))
      else none)
    (hknows : format.knows d = (d.name == plain "rss" &&
      (first [plain "channel"].contains d.children).isSome))
    (hreads : ∀ t, first [plain "channel"].contains d.children = some t →
      Reads (views (joinTexts (rssChannel (processed format.rules (plain "channel") t.children))))
        (format.feed d) (format.articles d)) :
    Transformed format d where
  known := by
    rw [hknows, Bool.and_eq_true, beq_iff_eq, Option.isSome_iff_exists]
    rintro ⟨hname, t, ht⟩
    rw [if_pos hname, ht] at htransform
    exact ⟨_, htransform, hreads t ht⟩
  unknown := by
    rw [hknows, Bool.and_eq_false_iff, beq_eq_false_iff_ne, Option.isSome_eq_false_iff,
      Option.isNone_iff_eq_none]
    rintro (hname | hnone)
    · rw [htransform, if_neg hname]
    · rw [htransform, hnone, Option.map_none, ite_self]

theorem transformed_of_root
    {format : Format} {name : QName} {kids : List XmlNode}
    (htransform : xmlprocTransform d = if d.name = name then some kids else none)
    (hknows : format.knows d = (d.name == name))
    (hreads : Reads kids (format.feed d) (format.articles d)) :
    Transformed format d where
  known := by
    rw [hknows, beq_iff_eq]
    intro hname
    rw [if_pos hname] at htransform
    exact ⟨_, htransform, hreads⟩
  unknown := by
    rw [hknows, beq_eq_false_iff_ne]
    intro hname
    rw [htransform, if_neg hname]

theorem transformed (hregular : d.Regular) : Transformed (getSpecSheet d) d := by
  cases hformat : getSpecSheet d with
  | rss20 =>
      refine transformed_of_channel (rss_channel hformat rfl rfl) rfl fun t ht => ?_
      rw [Format.articles, Format.items, Format.feed, Format.feedChildren, ht]
      exact rss20_reads t.children
  | rss09 =>
      refine transformed_of_channel (rss_channel hformat rfl rfl) rfl fun t ht => ?_
      rw [Format.articles, Format.items, Format.feed, Format.feedChildren, ht]
      exact rss09_reads t.children
  | atom10 =>
      exact transformed_of_root (root_element hformat rfl rfl) rfl (atom10_reads d.children)
  | atom03 =>
      exact transformed_of_root (root_element hformat rfl rfl) rfl (atom03_reads d.children)
  | rdf =>
      exact transformed_of_root (root_element hformat rfl rfl) rfl (rdf_reads (hregular hformat))

end Transform

/-! ## Storing -/

/-- The array `ei` when `update_entry` stores it, from the fields of an article. -/
def completed (time : TimeLib) (tp : Tm) (uid : CStr) (ei : EntryField → Option CStr) :
    EntryField → Option CStr :=
  let tpP := match ei .pdate with
    | some s => time.strptime s tp
    | none => tp
  let pdate := (ei .pdate).map fun _ => time.strftime tpP
  let udate := (ei .udate).map fun s => time.strftime (time.strptime s tpP)
  let ident := (ei .uid).getD uid
  fun
  | .title => some ((ei .title).getD (fallbackTitle (ei .desc) (ei .content) ident))
  | .pdate => pdate.or udate
  | .udate => udate
  | .uid => some ident
  | f => ei f

/-- What a refresh is to the cache: the feed under its URL, each article under its
id, and what has become old. -/
def publish (config : Config) (env : RefreshEnv) (url : CStr) (feed : FeedField → Option CStr)
    (articles : List (EntryField → Option CStr)) (db : Db) : Db :=
  let updated := cacheUpdateFeed (fun f => if f = .url then some url else feed f) db
  let rows := articles.zipIdx.map fun a => completed config.time (env.tp a.2) (env.uid a.2) a.1
  cacheCleanupOld config.entryRetention env.now updated.2
    (walk updated.2 rows (cacheInitCleanup updated.2 updated.1))

theorem entryData_eq_completed
    (time : TimeLib) (tp : Tm) (uid : CStr) (node : List XmlNode) :
    entryData time tp uid node =
      completed time tp uid fun f => getContentIfAvail node (entryFields f) := by
  funext f
  cases f with
  | _ => rfl

theorem records_of_reads
    {kids : List XmlNode} {feed : FeedField → Option CStr}
    {articles : List (EntryField → Option CStr)} (h : Reads kids feed articles) (time : TimeLib)
    (env : RefreshEnv) :
    records time env kids =
      articles.zipIdx.map fun a => completed time (env.tp a.2) (env.uid a.2) a.1 := by
  rw [records, ← h.entries, List.zipIdx_map, List.map_map]
  refine List.map_congr_left fun node _ => ?_
  rw [entryData_eq_completed]
  rfl

/-- Refreshing from a document publishes what it holds, and tells whether the
number of unread entries has risen; a document that its stylesheet does not know
changes nothing. -/
theorem refresh_publishes
    (config : Config) (env : RefreshEnv) (url : CStr) (db : Db) {d : Document}
    (hregular : d.Regular) :
    xmlprocUpdateCache config ⟨url, xmlprocTransform d, env⟩ db =
      if (getSpecSheet d).knows d then
        let after := publish config env url ((getSpecSheet d).feed d)
          ((getSpecSheet d).articles d) db
        (after, decide (toInt (getNumUnread db) < toInt (getNumUnread after)))
      else (db, false) := by
  have h := transformed hregular
  cases hknows : (getSpecSheet d).knows d with
  | false =>
      rw [h.unknown hknows]
      rfl
  | true =>
      obtain ⟨kids, htransform, hreads⟩ := h.known hknows
      have hfeed : feedData url kids =
          fun f => if f = .url then some url else (getSpecSheet d).feed d f := by
        funext f
        split
        · next hurl => rw [hurl]; rfl
        · next hurl => exact hreads.feed url f hurl
      rw [htransform, xmlprocUpdateCache]
      simp only [updateFeed, hfeed, Cache.updateEntries_eq, records_of_reads hreads, publish]
      rfl

/-- An RDF feed of one item, with an author that the sheet has no template for. -/
def authoredItem : Document where
  name := rdf "RDF"
  attrs := []
  children := [.element (rss10 "item") [(rdf "about", ascii "tag:1")]
    [.element (rss10 "title") [] [.text (ascii "News")],
      .element (rss10 "author") [] [.text (ascii "Ann")]]]

theorem authoredItem_refresh_publishes :
    let env : RefreshEnv := ⟨0, fun _ => Cache.blankTm, fun _ => ascii "id"⟩
    let after := publish Cache.datelessConfig env (ascii "http://example/feed")
      (Format.rdf.feed authoredItem) (Format.rdf.articles authoredItem) Cache.emptyDb
    xmlprocUpdateCache Cache.datelessConfig
        ⟨ascii "http://example/feed", xmlprocTransform authoredItem, env⟩ Cache.emptyDb =
      (after, decide (toInt (getNumUnread Cache.emptyDb) < toInt (getNumUnread after))) :=
  refresh_publishes Cache.datelessConfig _ _ _ fun _ =>
    ⟨fun _ hc => absurd hc List.not_mem_nil, fun _ hc => absurd hc List.not_mem_nil, by
      intro t ht
      obtain rfl := List.mem_singleton.mp ht
      intro c hc
      obtain rfl := List.mem_singleton.mp hc
      rfl⟩

end Xsl
end Newsbaoter
