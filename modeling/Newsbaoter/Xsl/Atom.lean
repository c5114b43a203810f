import Newsbaoter.Xsl.Reading

/-!
# Atom

What is read of a document that one of the two Atom sheets transforms.
-/

namespace Newsbaoter
namespace Xsl

open Newsbaoter.Cache (EntryField FeedField entryFields)
open Newsbaoter.Support.Stylesheet

/-! ## Templates of both sheets -/

/-- The templates that the sheets of both namespaces have. -/
structure HasAtom (atom : String → QName) (rules : Rules QName UInt8) : Prop where
  title : ∀ parent, rules (some parent) (atom "title") = some (wrap "title")
  link : ∀ parent, rules (some parent) (atom "link") =
    some (leaf [(plain "url", fun t => [attrValue "href" t])])
  tagline : ∀ parent, rules (some parent) (atom "tagline") = some (wrap "description")
  lang : ∀ parent, rules (some parent) ⟨.xml, ascii "lang"⟩ = some (wrap "language")
  copyright : ∀ parent, rules (some parent) (atom "copyright") = some (wrap "copyright")
  author : ∀ parent, rules (some parent) (atom "author") =
    some (leaf [(plain "authorName", fun t => [childValue [atom "name"] t]),
      (plain "authorEmail", fun t => [childValue [atom "email"] t])])
  id : ∀ parent, rules (some parent) (atom "id") = some (wrap "entryUniqueId")
  content : ∀ parent, rules (some parent) (atom "content") = some fun t _ => [copy t]
  summary : ∀ parent, rules (some parent) (atom "summary") = some (wrap "description")

theorem hasAtom_atom10 : HasAtom atom10 (rulesOf atom10Sheet) where
  title _ := rfl
  link _ := rfl
  tagline _ := rfl
  lang _ := rfl
  copyright _ := rfl
  author _ := rfl
  id _ := rfl
  content _ := rfl
  summary _ := rfl

theorem hasAtom_atom03 : HasAtom atom03 (rulesOf atom03Sheet) where
  title _ := rfl
  link _ := rfl
  tagline _ := rfl
  lang _ := rfl
  copyright _ := rfl
  author _ := rfl
  id _ := rfl
  content _ := rfl
  summary _ := rfl

namespace HasAtom

variable {atom : String → QName} {rules : Rules QName UInt8} (h : HasAtom atom rules)
  (parent : QName) (q : QName → Bool) (ts : List Node)
include h

theorem first_title :
    first q (applyTemplates [atom "title"].contains (processed rules parent ts)) =
      written q (plain "title") (fun t => [t.value]) [atom "title"] ts :=
  first_apply_one _ _ _ (List.forall_mem_singleton.mpr (h.title parent)) q ts

theorem first_link :
    first q (applyTemplates [atom "link"].contains (processed rules parent ts)) =
      written q (plain "url") (fun t => [attrValue "href" t]) [atom "link"] ts :=
  first_apply_one _ _ _ (List.forall_mem_singleton.mpr (h.link parent)) q ts

theorem first_author :
    first q (applyTemplates [atom "author"].contains (processed rules parent ts)) =
      if q (plain "authorName") then
        written q (plain "authorName") (fun t => [childValue [atom "name"] t]) [atom "author"] ts
      else
        written q (plain "authorEmail") (fun t => [childValue [atom "email"] t])
          [atom "author"] ts :=
  first_apply_two _ _ _ (List.forall_mem_singleton.mpr (h.author parent)) q ts

theorem first_id :
    first q (applyTemplates [atom "id"].contains (processed rules parent ts)) =
      written q (plain "entryUniqueId") (fun t => [t.value]) [atom "id"] ts :=
  first_apply_one _ _ _ (List.forall_mem_singleton.mpr (h.id parent)) q ts

theorem first_summary :
    first q (applyTemplates [atom "summary"].contains (processed rules parent ts)) =
      written q (plain "description") (fun t => [t.value]) [atom "summary"] ts :=
  first_apply_one _ _ _ (List.forall_mem_singleton.mpr (h.summary parent)) q ts

end HasAtom

/-! ## Entries -/

/-- What is read of an `entry`, by the elements that date it and the length of the
time of the first date. -/
def atomEntry (atom : String → QName) (issued modified : List QName) (n : ℕ) (t : Node) :
    EntryField → Option CStr
  | .title => one [atom "title"] t.children
  | .pdate => (first issued.contains t.children).bind fun c => filled (atomDate n c.value).flatten
  | .udate => (first modified.contains t.children).bind fun c =>
      filled (atomDate 9 c.value).flatten
  | .url => (first [atom "link"].contains t.children).bind fun c => filled (attrValue "href" c)
  | .authName => (first [atom "author"].contains t.children).bind fun c =>
      filled (childValue [atom "name"] c)
  | .authEmail => (first [atom "author"].contains t.children).bind fun c =>
      filled (childValue [atom "email"] c)
  | .desc => one [atom "summary"] t.children
  | .content => ((first [atom "content"].contains t.children).map copy).bind held
  | .uid => one [atom "id"] t.children

/-- The time of the first date is one character short. -/
def atom10Item : Node → EntryField → Option CStr :=
  atomEntry atom10 [atom10 "issued", atom10 "published"] [atom10 "modified", atom10 "updated"] 8

def atom03Item : Node → EntryField → Option CStr :=
  atomEntry atom03 [atom03 "issued"] [atom03 "modified"] 9

theorem atom10_entry (t : Node) (f : EntryField) :
    (first (isLocal (entryFields f)) (atom10Entry
      (processed (rulesOf atom10Sheet) (atom10 "entry") t.children))).bind held =
        atom10Item t f := by
  have hcommon := hasAtom_atom10
  have hissued := first_apply_one (rulesOf atom10Sheet) (atom10 "entry")
    [atom10 "issued", atom10 "published"] (forall_mem_pair rfl rfl)
  have hmodified := first_apply_one (rulesOf atom10Sheet) (atom10 "entry")
    [atom10 "modified", atom10 "updated"] (forall_mem_pair rfl rfl)
  have hcontent := first_apply_copy (rulesOf atom10Sheet) (atom10 "entry")
    (hcommon.content (atom10 "entry"))
  simp only [atom10Entry, entryRest, first_append, first_literal, hcommon.first_id, hissued,
    hmodified, hcommon.first_title, hcommon.first_link, hcommon.first_author,
    hcommon.first_summary, hcontent]
  cases f
  all_goals
    simp +decide [atom10Item, atomEntry, written, one, bind_held_literal]

theorem atom03_entry (t : Node) (f : EntryField) :
    (first (isLocal (entryFields f)) (atom03Entry
      (processed (rulesOf atom03Sheet) (atom03 "entry") t.children))).bind held =
        atom03Item t f := by
  have hcommon := hasAtom_atom03
  have hissued := first_apply_one (rulesOf atom03Sheet) (atom03 "entry") [atom03 "issued"]
    (List.forall_mem_singleton.mpr rfl)
  have hmodified := first_apply_one (rulesOf atom03Sheet) (atom03 "entry") [atom03 "modified"]
    (List.forall_mem_singleton.mpr rfl)
  have hcontent := first_apply_copy (rulesOf atom03Sheet) (atom03 "entry")
    (hcommon.content (atom03 "entry"))
  simp only [atom03Entry, entryRest, first_append, first_literal, hcommon.first_id, hissued,
    hmodified, hcommon.first_title, hcommon.first_link, hcommon.first_author,
    hcommon.first_summary, hcontent]
  cases f
  all_goals
    simp +decide [atom03Item, atomEntry, written, one, bind_held_literal]

/-! ## Feeds -/

/-- What is read of a `feed`. -/
def atomFeedFields (atom : String → QName) (ts : List Node) : FeedField → Option CStr
  | .title => one [atom "title"] ts
  | .desc => one [atom "tagline"] ts
  | .authName => (first [atom "author"].contains ts).bind fun c =>
      filled (childValue [atom "name"] c)
  | .authEmail => (first [atom "author"].contains ts).bind fun c =>
      filled (childValue [atom "email"] c)
  | .url | .iurl | .itext => none

theorem HasAtom.reads
    {atom : String → QName} {rules : Rules QName UInt8} (h : HasAtom atom rules) {ts : List Node}
    {body : List (Node × List Node) → List Node} {value : Node → EntryField → Option CStr}
    (hentry : rules (some (atom "feed")) (atom "entry") =
      some fun _ children => [literal (plain "entry") (body children)])
    (hbody : ∀ t f, (first (isLocal (entryFields f))
      (body (processed rules (atom "entry") t.children))).bind held = value t f) :
    Reads (views (joinTexts (atomFeed atom (processed rules (atom "feed") ts))))
      (atomFeedFields atom ts) ((select [atom "entry"].contains ts).map value) := by
  have htagline := first_apply_one rules (atom "feed") [atom "tagline"]
    (List.forall_mem_singleton.mpr (h.tagline _))
  have hlang := first_apply_one rules (atom "feed") [⟨.xml, ascii "lang"⟩]
    (List.forall_mem_singleton.mpr (h.lang _))
  have hcopyright := first_apply_one rules (atom "feed") [atom "copyright"]
    (List.forall_mem_singleton.mpr (h.copyright _))
  rw [atomFeed, apply_entries hentry]
  refine reads_of_front (fun f hf => ?_) ?_ fun t _ f => hbody t f
  · simp only [first_append, first_literal, h.first_title, h.first_link, htagline, hlang,
      hcopyright, h.first_author]
    cases f with
    | url => exact absurd rfl hf
    | _ => simp +decide [atomFeedFields, written, one, bind_held_literal]
  · simp only [first_append, first_literal, h.first_title, h.first_link, htagline, hlang,
      hcopyright, h.first_author]
    simp +decide [written]

theorem atom10_reads (ts : List Node) :
    Reads (views (joinTexts (atomFeed atom10
        (processed (rulesOf atom10Sheet) (atom10 "feed") ts))))
      (atomFeedFields atom10 ts) ((select [atom10 "entry"].contains ts).map atom10Item) :=
  hasAtom_atom10.reads rfl atom10_entry

theorem atom03_reads (ts : List Node) :
    Reads (views (joinTexts (atomFeed atom03
        (processed (rulesOf atom03Sheet) (atom03 "feed") ts))))
      (atomFeedFields atom03 ts) ((select [atom03 "entry"].contains ts).map atom03Item) :=
  hasAtom_atom03.reads rfl atom03_entry

end Xsl
end Newsbaoter
