import Newsbaoter.Xsl.Sheets

/-!
# Reading a transformed document

The walk over the result of a stylesheet takes the first element of each name.
What that is goes by the templates: each writes elements of known names, so a
field is that of the first child that the right template was applied to.
-/

namespace Newsbaoter
namespace Xsl

open Newsbaoter.Cache (EntryField FeedField XmlNode entryFields entryNodes feedData feedFields findXmlNode
  getContentIfAvail)
open Newsbaoter.Support.Stylesheet

/-! ## The walk over a result tree -/

def isLocal (s : CStr) (name : QName) : Bool :=
  name.name == s

@[simp] theorem isLocal_plain (s : CStr) (name : String) :
    isLocal s (plain name) = (ascii name == s) := rfl

@[simp] theorem isLocal_atom10 (s : CStr) (name : String) :
    isLocal s (atom10 name) = (ascii name == s) := rfl

@[simp] theorem isLocal_atom03 (s : CStr) (name : String) :
    isLocal s (atom03 name) = (ascii name == s) := rfl

theorem named_isLocal_iff {s : CStr} {name : QName} {attrs : List (QName × CStr)}
    {children : List Node} :
    Markup.named (isLocal s) (.element name attrs children) = true ↔ name.name = s :=
  beq_iff_eq

theorem views_eq_map (ts : List Node) : views ts = ts.map view := by
  induction ts with
  | nil => rw [views, List.map_nil]
  | cons t ts ih => rw [views, ih, List.map_cons]

theorem content_view (t : Node) : (view t).content = t.content := by
  cases t with
  | element name attrs children => rw [view]; rfl
  | text s => rw [view]; rfl
  | other s =>
      cases s with
      | none => rw [view]; rfl
      | some s => rw [view]; rfl

theorem findXmlNode_views {s : CStr} (hs : s ≠ []) (ts : List Node) :
    findXmlNode s (views ts) = (first (isLocal s) ts).map fun t => views t.children := by
  induction ts with
  | nil => rw [views]; rfl
  | cons t ts ih =>
      rw [views]
      cases t with
      | element name attrs children =>
          rw [view, findXmlNode]
          by_cases h : name.name = s
          · rw [if_pos h, first_cons_of_pos (named_isLocal_iff.mpr h)]
            rfl
          · rw [if_neg h, first_cons_of_neg (mt named_isLocal_iff.mp h), ih]
      | text s => rw [view, findXmlNode, ih]; rfl
      | other content =>
          cases content with
          | none => rw [view, findXmlNode, if_neg hs.symm, ih]; rfl
          | some s => rw [view, findXmlNode, ih]; rfl

theorem getContentIfAvail_views {s : CStr} (hs : s ≠ []) (ts : List Node) :
    getContentIfAvail (views ts) s = (first (isLocal s) ts).bind held := by
  rw [getContentIfAvail, findXmlNode_views hs, Option.bind_map]
  congr 1
  funext t
  rw [Function.comp_apply, views_eq_map, List.head?_map, Option.bind_map, held]
  congr 1
  funext c
  exact content_view c

theorem entryNodes_views (ts : List Node) :
    entryNodes (views ts) = (select (isLocal (ascii "entry")) ts).map fun t => views t.children := by
  have hentry : ([] : CStr) ≠ ascii "entry" := by decide
  induction ts with
  | nil => rw [views]; rfl
  | cons t ts ih =>
      rw [views]
      cases t with
      | element name attrs children =>
          rw [view, entryNodes]
          by_cases h : name.name = ascii "entry"
          · rw [if_pos h, select_cons_of_pos (named_isLocal_iff.mpr h), ih]
            rfl
          · rw [if_neg h, select_cons_of_neg (mt named_isLocal_iff.mp h), ih]
      | text s => rw [view, entryNodes, ih]; rfl
      | other content =>
          cases content with
          | none => rw [view, entryNodes, if_neg hentry, ih]; rfl
          | some s => rw [view, entryNodes, ih]; rfl

/-! ## What templates write -/

/-- The first element that is written by a template for elements with these names,
if it is one that `q` asks for. -/
def written (q : QName → Bool) (out : QName) (g : Node → List CStr) (names : List QName)
    (ts : List Node) : Option Node :=
  if q out then (first names.contains ts).map fun t => literal out (texts (g t)) else none

section Apply

variable (rules : Rules QName UInt8) (parent : QName) (names : List QName)

theorem first_apply_leaf
    {outs : List (QName × (Node → List CStr))}
    (hrule : ∀ name ∈ names, rules (some parent) name = some (leaf outs))
    (q : QName → Bool) (ts : List Node) :
    first q (applyTemplates names.contains (processed rules parent ts)) =
      (outs.find? fun out => q out.1).bind fun out =>
        (first names.contains ts).map fun t => literal out.1 (texts (out.2 t)) :=
  first_applyTemplates_leaf (fun name hname => hrule name (List.contains_iff_mem.mp hname)) q ts

theorem first_apply_one
    {out : QName} {g : Node → List CStr}
    (hrule : ∀ name ∈ names, rules (some parent) name = some (leaf [(out, g)]))
    (q : QName → Bool) (ts : List Node) :
    first q (applyTemplates names.contains (processed rules parent ts)) =
      written q out g names ts := by
  rw [first_apply_leaf rules parent names hrule, List.find?_singleton, written]
  split
  · rfl
  · rfl

theorem first_apply_two
    {out out' : QName} {g g' : Node → List CStr}
    (hrule : ∀ name ∈ names, rules (some parent) name = some (leaf [(out, g), (out', g')]))
    (q : QName → Bool) (ts : List Node) :
    first q (applyTemplates names.contains (processed rules parent ts)) =
      if q out then written q out g names ts else written q out' g' names ts := by
  rw [first_apply_leaf rules parent names hrule, List.find?_cons, List.find?_singleton, written,
    written]
  cases q out with
  | true => rfl
  | false =>
      cases q out' with
      | true => rfl
      | false => rfl

/-- A template that copies the element. -/
theorem first_apply_copy
    {name : QName} (hrule : rules (some parent) name = some fun t _ => [copy t])
    (q : QName → Bool) (ts : List Node) :
    first q (applyTemplates [name].contains (processed rules parent ts)) =
      if q name then (first [name].contains ts).map copy else none := by
  have hprocess : ∀ t ∈ select [name].contains ts, first q (process rules (some parent) t) =
      if q name then some (copy t) else none := by
    intro t ht
    obtain ⟨name', attrs, children, hname, rfl⟩ := Markup.named_iff.mp (List.mem_filter.mp ht).2
    obtain rfl := List.mem_singleton.mp (List.contains_iff_mem.mp hname)
    rw [process_of_rule hrule, copy]
    cases hq : q name' with
    | true => exact first_cons_of_pos (by simpa [Markup.named] using hq) []
    | false => exact first_cons_of_neg (by simpa [Markup.named] using hq) []
  rw [applyTemplates_processed]
  cases hq : q name with
  | true =>
      rw [hq] at hprocess
      rw [first_flatMap_of_some hprocess, head?_select]
      rfl
  | false =>
      rw [hq] at hprocess
      exact first_flatMap_of_none hprocess

end Apply

theorem forall_mem_pair {P : QName → Prop} {a b : QName} (ha : P a) (hb : P b) :
    ∀ name ∈ [a, b], P name :=
  List.forall_mem_cons.mpr ⟨ha, List.forall_mem_singleton.mpr hb⟩

/-! ## Entries -/

theorem apply_entries
    {rules : Rules QName UInt8} {parent name : QName} {body : Node → List (Node × List Node) → List Node}
    (hrule : rules (some parent) name =
      some fun t children => [literal (plain "entry") (body t children)])
    (ts : List Node) :
    applyTemplates [name].contains (processed rules parent ts) =
      (select [name].contains ts).map fun t =>
        literal (plain "entry") (body t (processed rules name t.children)) := by
  rw [applyTemplates_processed, List.map_eq_flatMap]
  refine List.flatMap_congr fun t ht => ?_
  obtain ⟨name', attrs, children, hname, rfl⟩ := Markup.named_iff.mp (List.mem_filter.mp ht).2
  obtain rfl := List.mem_singleton.mp (List.contains_iff_mem.mp hname)
  exact process_of_rule hrule attrs children

section Entries

variable (items : List Node) (body : Node → List Node)

theorem first_entries {q : QName → Bool} (hq : q (plain "entry") = false) :
    first q (items.map fun t => literal (plain "entry") (body t)) = none := by
  rw [List.map_eq_flatMap]
  refine first_flatMap_of_none fun t _ => ?_
  rw [first_literal, hq]
  rfl

/-- Entries behind fields are the entries of the feed. -/
theorem entryNodes_entries
    {front : List Node} (hfront : first (isLocal (ascii "entry")) front = none) :
    entryNodes (views (joinTexts
        (front ++ items.map fun t => literal (plain "entry") (body t)))) =
      items.map fun t => views (joinTexts (body t)) := by
  have hall : select (isLocal (ascii "entry"))
      (items.map fun t => literal (plain "entry") (body t)) =
        items.map fun t => literal (plain "entry") (body t) := by
    rw [select, List.filter_eq_self]
    intro t ht
    obtain ⟨item, -, rfl⟩ := List.mem_map.mp ht
    exact named_isLocal_iff.mpr rfl
  rw [entryNodes_views, select_joinTexts, select_append, select_eq_nil_iff.mpr hfront, hall,
    List.nil_append, List.map_map]
  rfl

end Entries

/-- What `update_feed` and `update_entries` get from a transformed document: the
fields of the feed, and those of each entry. -/
structure Reads (kids : List XmlNode) (feed : FeedField → Option CStr)
    (entries : List (EntryField → Option CStr)) : Prop where
  feed : ∀ url f, f ≠ .url → feedData url kids f = feed f
  entries : ((entryNodes kids).map fun node f => getContentIfAvail node (entryFields f)) = entries

theorem feedFields_ne_nil (f : FeedField) : feedFields f ≠ [] := by
  cases f <;> decide

theorem entryFields_ne_nil (f : EntryField) : entryFields f ≠ [] := by
  cases f <;> decide

theorem feedFields_ne_entry (f : FeedField) : isLocal (feedFields f) (plain "entry") = false := by
  cases f <;> decide

/-- Fields in front of the entries, and the fields of each of these. -/
theorem reads_of_front
    {front items : List Node} {body : Node → List Node} {feed : FeedField → Option CStr}
    {value : Node → EntryField → Option CStr}
    (hfeed : ∀ f, f ≠ .url → (first (isLocal (feedFields f)) front).bind held = feed f)
    (hfront : first (isLocal (ascii "entry")) front = none)
    (hbody : ∀ t ∈ items, ∀ f,
      (first (isLocal (entryFields f)) (body t)).bind held = value t f) :
    Reads (views (joinTexts (front ++ items.map fun t => literal (plain "entry") (body t))))
      feed (items.map value) where
  feed := by
    intro url f hf
    have hdata : ∀ kids, feedData url kids f = getContentIfAvail kids (feedFields f) := by
      intro kids
      cases f with
      | url => exact absurd rfl hf
      | _ => rfl
    rw [hdata, getContentIfAvail_views (feedFields_ne_nil f), first_joinTexts, first_append,
      first_entries items body (feedFields_ne_entry f), Option.or_none, hfeed f hf]
  entries := by
    rw [entryNodes_entries items body hfront, List.map_map, List.map_inj_left]
    intro t ht
    funext f
    rw [Function.comp_apply, getContentIfAvail_views (entryFields_ne_nil f), first_joinTexts,
      hbody t ht f]

/-- The text of the first child with such a name, if there is any text in it. -/
def one (names : List QName) (ts : List Node) : Option CStr :=
  (first names.contains ts).bind fun t => filled t.value

end Xsl
end Newsbaoter
