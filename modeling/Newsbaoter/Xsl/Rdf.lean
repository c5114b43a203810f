import Newsbaoter.Xsl.Reading

/-!
# RDF

What is read of a document that the RDF sheet transforms.  It has no template for
three of the elements it selects; as long as these hold texts alone, nothing is
read of them.
-/

namespace Newsbaoter
namespace Xsl

open Newsbaoter.Cache (EntryField FeedField entryFields)
open Newsbaoter.Support.Stylesheet

/-- The elements with such a name hold no elements. -/
def HoldTexts (name : QName) (ts : List Node) : Prop :=
  ∀ t ∈ select [name].contains ts, first (fun _ => true) t.children = none

theorem holdTexts_of_first {name : QName} {ts : List Node} (h : first [name].contains ts = none) :
    HoldTexts name ts := by
  rw [HoldTexts, select_eq_nil_iff.mpr h]
  exact fun _ ht => absurd ht List.not_mem_nil

/-- The elements that the sheet selects but has no template for hold texts alone. -/
structure RdfTexts (ts : List Node) : Prop where
  copyright : ∀ c ∈ select [rss10 "channel"].contains ts, HoldTexts (rss10 "copyright") c.children
  editor : ∀ c ∈ select [rss10 "channel"].contains ts,
    HoldTexts (rss10 "managingEditor") c.children
  author : ∀ t ∈ select [rss10 "item"].contains ts, HoldTexts (rss10 "author") t.children

theorem first_apply_texts
    (rules : Rules QName UInt8) (parent : QName) {name : QName}
    (hrule : rules (some parent) name = none) {ts : List Node} (h : HoldTexts name ts) (q : QName → Bool) :
    first q (applyTemplates [name].contains (processed rules parent ts)) = none := by
  rw [applyTemplates_processed]
  refine first_flatMap_of_none fun t ht => ?_
  have htexts := h t ht
  obtain ⟨name', attrs, children, hname, rfl⟩ := Markup.named_iff.mp (List.mem_filter.mp ht).2
  obtain rfl := List.mem_singleton.mp (List.contains_iff_mem.mp hname)
  exact first_process_of_texts hrule attrs htexts q

/-! ## Entries -/

/-- What is read of an `item`. -/
def rdfEntry (t : Node) : EntryField → Option CStr
  | .title => one [rss10 "title"] t.children
  | .pdate => (first [rss10 "pubDate", dc "date"].contains t.children).bind fun c =>
      filled (rdfDate c.value).flatten
  | .url => one [rss10 "link"] t.children
  | .content => filled (childValue [rss10 "description"] t)
  | .uid =>
      match t.attrs.find? fun attr => attr.1 == rdf "about" with
      | some attr => filled attr.2
      | none => one [rss10 "guid"] t.children
  | .udate | .authName | .authEmail | .desc => none

theorem rdf_entry {t : Node} (h : HoldTexts (rss10 "author") t.children) (f : EntryField) :
    (first (isLocal (entryFields f)) (rdfItem t
      (processed (rulesOf rdfSheet) (rss10 "item") t.children))).bind held = rdfEntry t f := by
  have hguid := first_apply_one (rulesOf rdfSheet) (rss10 "item") [rss10 "guid"]
    (List.forall_mem_singleton.mpr rfl)
  have hdate := first_apply_one (rulesOf rdfSheet) (rss10 "item") [rss10 "pubDate", dc "date"]
    (forall_mem_pair rfl rfl)
  have htitle := first_apply_one (rulesOf rdfSheet) (rss10 "item") [rss10 "title"]
    (List.forall_mem_singleton.mpr rfl)
  have hlink := first_apply_one (rulesOf rdfSheet) (rss10 "item") [rss10 "link"]
    (List.forall_mem_singleton.mpr rfl)
  have hauthor := first_apply_texts (rulesOf rdfSheet) (rss10 "item") rfl h
  simp only [rdfItem, first_append, hguid, hdate, htitle, hlink, hauthor, first_literal, aboutId]
  cases habout : t.attrs.find? fun attr => attr.1 == rdf "about" with
  | none =>
      cases f
      all_goals
        simp +decide [rdfEntry, written, one, bind_held_literal, held_literal_valueOf,
          habout]
  | some attr =>
      cases f
      all_goals
        simp +decide [rdfEntry, written, one, bind_held_literal, held_literal_valueOf,
          first_literal, habout]

/-! ## Feeds -/

/-- What is read of the channels of a feed, by their children. -/
def rdfFeedFields (ts : List Node) : FeedField → Option CStr
  | .title => one [rss10 "title"] ts
  | .desc => one [rss10 "description"] ts
  | .iurl => (first [rss10 "image"].contains ts).bind fun c => filled (childValue [plain "url"] c)
  | .itext => (first [rss10 "image"].contains ts).bind fun c =>
      filled (childValue [plain "title"] c)
  | .url | .authName | .authEmail => none

/-- What several elements have among their children is read as if they were one. -/
theorem findSome?_first_children
    (p : QName → Bool) (g : Node → Node) (cs : List Node) :
    (cs.findSome? fun c => (first p c.children).map g) =
      (first p (cs.flatMap Markup.children)).map g := by
  rw [first_flatMap, List.map_findSome?]
  rfl

/-- What a channel writes. -/
def channelWritten (q : QName → Bool) (ts : List Node) : Option Node :=
  ((((((written q (plain "title") (fun t => [t.value]) [rss10 "title"] ts).or
    (written q (plain "url") (fun t => [t.value]) [rss10 "link"] ts)).or
    (written q (plain "description") (fun t => [t.value]) [rss10 "description"] ts)).or
    (written q (plain "language") (fun t => [t.value]) [rss10 "language"] ts)).or
    (written q (plain "category") (fun t => [t.value]) [rss10 "category"] ts)).or
    (if q (plain "imageUrl") then
      written q (plain "imageUrl") (fun t => [childValue [plain "url"] t]) [rss10 "image"] ts
    else written q (plain "imageText") (fun t => [childValue [plain "title"] t])
      [rss10 "image"] ts))

theorem first_rdfChannel
    {ts : List Node} (hcopyright : HoldTexts (rss10 "copyright") ts)
    (heditor : HoldTexts (rss10 "managingEditor") ts) (q : QName → Bool) :
    first q (rdfChannel (processed (rulesOf rdfSheet) (rss10 "channel") ts)) =
      channelWritten q ts := by
  have htitle := first_apply_one (rulesOf rdfSheet) (rss10 "channel") [rss10 "title"]
    (List.forall_mem_singleton.mpr rfl)
  have hlink := first_apply_one (rulesOf rdfSheet) (rss10 "channel") [rss10 "link"]
    (List.forall_mem_singleton.mpr rfl)
  have hdescription := first_apply_one (rulesOf rdfSheet) (rss10 "channel") [rss10 "description"]
    (List.forall_mem_singleton.mpr rfl)
  have hlanguage := first_apply_one (rulesOf rdfSheet) (rss10 "channel") [rss10 "language"]
    (List.forall_mem_singleton.mpr rfl)
  have hcategory := first_apply_one (rulesOf rdfSheet) (rss10 "channel") [rss10 "category"]
    (List.forall_mem_singleton.mpr rfl)
  have himage := first_apply_two (rulesOf rdfSheet) (rss10 "channel") [rss10 "image"]
    (List.forall_mem_singleton.mpr rfl)
  simp only [rdfChannel, first_append, htitle, hlink, hdescription, hlanguage, hcategory, himage,
    first_apply_texts (rulesOf rdfSheet) (rss10 "channel") rfl hcopyright,
    first_apply_texts (rulesOf rdfSheet) (rss10 "channel") rfl heditor, Option.or_none,
    channelWritten]

theorem first_rdfChannels {ts : List Node} (h : RdfTexts ts) (q : QName → Bool) :
    first q (applyTemplates [rss10 "channel"].contains
        (processed (rulesOf rdfSheet) (rdf "RDF") ts)) =
      (select [rss10 "channel"].contains ts).findSome? fun c => channelWritten q c.children := by
  have hrule : rulesOf rdfSheet (some (rdf "RDF")) (rss10 "channel") =
      some fun _ children => rdfChannel children := rfl
  rw [applyTemplates_processed]
  refine first_flatMap_congr fun c hc => ?_
  have htexts := first_rdfChannel (h.copyright c hc) (h.editor c hc) q
  obtain ⟨name', attrs, children, hname, rfl⟩ := Markup.named_iff.mp (List.mem_filter.mp hc).2
  obtain rfl := List.mem_singleton.mp (List.contains_iff_mem.mp hname)
  rw [process_of_rule hrule]
  exact htexts

theorem rdf_reads {ts : List Node} (h : RdfTexts ts) :
    Reads (views (joinTexts (rdfFeed (processed (rulesOf rdfSheet) (rdf "RDF") ts))))
      (rdfFeedFields ((select [rss10 "channel"].contains ts).flatMap Markup.children))
      ((select [rss10 "item"].contains ts).map rdfEntry) := by
  have hitem : rulesOf rdfSheet (some (rdf "RDF")) (rss10 "item") =
    some fun t children => [literal (plain "entry") (rdfItem t children)] := rfl
  have hnone : ∀ cs : List Node, (cs.findSome? fun _ => (none : Option Node)) = none := by
    intro cs
    rw [List.findSome?_eq_none_iff]
    exact fun _ _ => rfl
  rw [rdfFeed, apply_entries hitem]
  refine reads_of_front (fun f hf => ?_) ?_ fun t ht f => rdf_entry (h.author t ht) f
  · rw [first_rdfChannels h]
    cases f with
    | url => exact absurd rfl hf
    | _ =>
        simp +decide [channelWritten, written, rdfFeedFields, one, hnone,
          findSome?_first_children, bind_held_literal]
  · rw [first_rdfChannels h]
    simp +decide [channelWritten, written]

end Xsl
end Newsbaoter
