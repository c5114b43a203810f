import Newsbaoter.Xsl.Reading

/-!
# RSS

What is read of a document that one of the two RSS sheets transforms.
-/

namespace Newsbaoter
namespace Xsl

open Newsbaoter.Cache (EntryField FeedField entryFields feedFields)
open Newsbaoter.Support.Stylesheet

section Rss

variable (rest : List Rule) (parent : QName) (q : QName → Bool) (ts : List Node)

theorem first_rssTitle :
    first q (applyTemplates [plain "title"].contains
        (processed (rulesOf (rssCommon ++ rest)) parent ts)) =
      written q (plain "title") (fun t => [t.value]) [plain "title"] ts :=
  first_apply_one _ _ _ (List.forall_mem_singleton.mpr rfl) q ts

theorem first_rssDate :
    first q (applyTemplates [plain "pubDate", dc "date"].contains
        (processed (rulesOf (rssCommon ++ rest)) parent ts)) =
      written q (plain "publishDateTime") (fun t => rssDate t.value)
        [plain "pubDate", dc "date"] ts :=
  first_apply_one _ _ _ (forall_mem_pair rfl rfl) q ts

theorem first_rssAuthor :
    first q (applyTemplates [plain "author", dc "creator"].contains
        (processed (rulesOf (rssCommon ++ rest)) parent ts)) =
      written q (plain "authorEmail") (fun t => [t.value]) [plain "author", dc "creator"] ts :=
  first_apply_one _ _ _ (forall_mem_pair rfl rfl) q ts

end Rss

/-- What is read of an `item`, but for its link and its id. -/
def rssEntry (url uid : Option CStr) (t : Node) : EntryField → Option CStr
  | .title => one [plain "title"] t.children
  | .pdate => (first [plain "pubDate", dc "date"].contains t.children).bind fun c =>
      filled (rssDate c.value).flatten
  | .url => url
  | .authEmail => one [plain "author", dc "creator"] t.children
  | .content => filled (itemContent t)
  | .uid => uid
  | .udate | .authName | .desc => none

def rss20Entry (t : Node) : EntryField → Option CStr :=
  rssEntry (one [plain "link"] t.children) (one [plain "guid"] t.children) t

/-- The links are written one after the other. -/
def rss09Entry (t : Node) : EntryField → Option CStr :=
  let links := filled ((select [plain "link"].contains t.children).flatMap Markup.value)
  rssEntry links links t

theorem rss20_entry (t : Node) (f : EntryField) :
    (first (isLocal (entryFields f)) (rss20Item t
      (processed (rulesOf rss20Sheet) (plain "item") t.children))).bind held = rss20Entry t f := by
  have hguid := first_apply_one (rulesOf rss20Sheet) (plain "item") [plain "guid"]
    (List.forall_mem_singleton.mpr rfl) (isLocal (entryFields f)) t.children
  have hlink := first_apply_one (rulesOf rss20Sheet) (plain "item") [plain "link"]
    (List.forall_mem_singleton.mpr rfl) (isLocal (entryFields f)) t.children
  simp only [rss20Item, itemRest, first_append, hguid, hlink]
  rw [rss20Sheet, first_rssDate, first_rssTitle, first_rssAuthor]
  cases f
  all_goals
    simp +decide [entryFields, rss20Entry, rssEntry, written, one, bind_held_literal,
      held_literal_valueOf, first_literal]

theorem apply_rss09Links {parent : QName} (ts : List Node) :
    applyTemplates [plain "link"].contains (processed (rulesOf rss09Sheet) parent ts) =
      texts ((select [plain "link"].contains ts).map Markup.value) := by
  have hrule : rulesOf rss09Sheet (some parent) (plain "link") =
      some fun t _ => valueOf t.value := rfl
  rw [applyTemplates_processed, texts, List.flatMap_map]
  refine List.flatMap_congr fun c hc => ?_
  obtain ⟨name, attrs, children, hname, rfl⟩ := Markup.named_iff.mp (List.mem_filter.mp hc).2
  obtain rfl := List.mem_singleton.mp (List.contains_iff_mem.mp hname)
  exact process_of_rule hrule attrs children

theorem rss09_entry (t : Node) (f : EntryField) :
    (first (isLocal (entryFields f)) (rss09Item t
      (processed (rulesOf rss09Sheet) (plain "item") t.children))).bind held = rss09Entry t f := by
  simp only [rss09Item, itemRest, apply_rss09Links, first_append]
  rw [rss09Sheet, first_rssDate, first_rssTitle, first_rssAuthor]
  cases f
  all_goals
    simp +decide [entryFields, rss09Entry, rssEntry, written, one, bind_held_literal,
      held_literal_valueOf, held_literal_texts, first_literal, List.flatMap_def]

/-! ## Feeds -/

/-- What is read of a `channel`. -/
def rssFeed (ts : List Node) : FeedField → Option CStr
  | .title => one [plain "title"] ts
  | .desc => one [plain "description"] ts
  | .authEmail => one [plain "managingEditor"] ts
  | .iurl => (first [plain "image"].contains ts).bind fun c => filled (childValue [plain "url"] c)
  | .itext => (first [plain "image"].contains ts).bind fun c =>
      filled (childValue [plain "title"] c)
  | .url | .authName => none

theorem rssChannel_reads
    {rest : List Rule} {ts : List Node} {body : Node → List (Node × List Node) → List Node}
    {value : Node → EntryField → Option CStr}
    (hlink : ∀ q : QName → Bool, q (plain "url") = false →
      first q (applyTemplates [plain "link"].contains
        (processed (rulesOf (rssCommon ++ rest)) (plain "channel") ts)) = none)
    (hitem : rulesOf (rssCommon ++ rest) (some (plain "channel")) (plain "item") =
      some fun t children => [literal (plain "entry") (body t children)])
    (hbody : ∀ t f, (first (isLocal (entryFields f)) (body t
      (processed (rulesOf (rssCommon ++ rest)) (plain "item") t.children))).bind held = value t f) :
    Reads (views (joinTexts (rssChannel
        (processed (rulesOf (rssCommon ++ rest)) (plain "channel") ts))))
      (rssFeed ts) ((select [plain "item"].contains ts).map value) := by
  have hdescription := first_apply_one (rulesOf (rssCommon ++ rest)) (plain "channel")
    [plain "description"] (List.forall_mem_singleton.mpr rfl)
  have hlanguage := first_apply_one (rulesOf (rssCommon ++ rest)) (plain "channel")
    [plain "language", dc "language"] (forall_mem_pair rfl rfl)
  have hcopyright := first_apply_one (rulesOf (rssCommon ++ rest)) (plain "channel")
    [plain "copyright", dc "rights"] (forall_mem_pair rfl rfl)
  have heditor := first_apply_one (rulesOf (rssCommon ++ rest)) (plain "channel")
    [plain "managingEditor"] (List.forall_mem_singleton.mpr rfl)
  have himage := first_apply_two (rulesOf (rssCommon ++ rest)) (plain "channel")
    [plain "image"] (List.forall_mem_singleton.mpr rfl)
  rw [rssChannel, apply_entries hitem]
  refine reads_of_front (fun f hf => ?_) ?_ fun t _ f => hbody t f
  · have hurl : isLocal (feedFields f) (plain "url") = false := by
      cases f with
      | url => exact absurd rfl hf
      | _ => decide
    simp only [first_append, first_literal, first_rssTitle, hlink _ hurl, hdescription, hlanguage,
      hcopyright, heditor, himage]
    cases f with
    | url => exact absurd rfl hf
    | _ => simp +decide [rssFeed, written, one, bind_held_literal]
  · have hurl : isLocal (ascii "entry") (plain "url") = false := by decide
    simp only [first_append, first_literal, first_rssTitle, hlink _ hurl, hdescription, hlanguage,
      hcopyright, heditor, himage]
    simp +decide [written]

theorem rss20_reads (ts : List Node) :
    Reads (views (joinTexts (rssChannel (processed (rulesOf rss20Sheet) (plain "channel") ts))))
      (rssFeed ts) ((select [plain "item"].contains ts).map rss20Entry) := by
  refine rssChannel_reads (fun q hq => ?_) rfl rss20_entry
  rw [first_apply_one _ _ _ (List.forall_mem_singleton.mpr rfl), written, hq]
  rfl

theorem rss09_reads (ts : List Node) :
    Reads (views (joinTexts (rssChannel (processed (rulesOf rss09Sheet) (plain "channel") ts))))
      (rssFeed ts) ((select [plain "item"].contains ts).map rss09Entry) := by
  refine rssChannel_reads (fun q _ => ?_) rfl rss09_entry
  exact (congrArg (first q) (apply_rss09Links ts)).trans (first_texts q _)

end Xsl
end Newsbaoter
