import Mathlib.Data.List.Basic

/-!
# Stylesheets

Trees of elements and texts, and stylesheets over them.  The rules of a
stylesheet give a template for an element by its name and the name of its
parent; an element that no template matches is passed through to its children.
A template sees each child together with what its own template writes for it, so
that applying the templates to some children is a selection among them.
-/

namespace Newsbaoter
namespace Support
namespace Stylesheet

/-- A document tree.  `other` is a comment or a processing instruction.  A CDATA
section is a text; beside other texts it would stay a node of its own, and such
documents have no tree here. -/
inductive Markup (ν α : Type*)
  | element (name : ν) (attrs : List (ν × List α)) (children : List (Markup ν α))
  | text (content : List α)
  | other (content : Option (List α))

variable {ν α : Type*}

namespace Markup

mutual
/-- The string value of a node: the texts in it. -/
def value : Markup ν α → List α
  | .element _ _ children => values children
  | .text s => s
  | .other _ => []

def values : List (Markup ν α) → List α
  | [] => []
  | t :: ts => t.value ++ values ts
end

/-- What a node holds itself, which for an element is nothing. -/
def content : Markup ν α → Option (List α)
  | .element _ _ _ => none
  | .text s => some s
  | .other s => s

def attrs : Markup ν α → List (ν × List α)
  | .element _ attrs _ => attrs
  | _ => []

def children : Markup ν α → List (Markup ν α)
  | .element _ _ children => children
  | _ => []

@[simp] theorem children_element (name : ν) (attrs : List (ν × List α))
    (ts : List (Markup ν α)) : (element name attrs ts).children = ts := rfl

@[simp] theorem attrs_element (name : ν) (attrs : List (ν × List α))
    (ts : List (Markup ν α)) : (element name attrs ts).attrs = attrs := rfl

/-- The node is an element with such a name. -/
def named (p : ν → Bool) : Markup ν α → Bool
  | .element name _ _ => p name
  | _ => false

@[simp] theorem named_element (p : ν → Bool) (name : ν) (attrs : List (ν × List α))
    (ts : List (Markup ν α)) : (element name attrs ts).named p = p name := rfl

theorem named_iff {p : ν → Bool} {t : Markup ν α} :
    t.named p = true ↔ ∃ name attrs children, p name = true ∧ t = .element name attrs children := by
  cases t with
  | element name attrs children => simp [named]
  | text s => simp [named]
  | other s => simp [named]

end Markup

open Markup

/-! ## Selecting -/

/-- The elements with such names among some siblings, in the order of the
document. -/
def select (p : ν → Bool) (ts : List (Markup ν α)) : List (Markup ν α) :=
  ts.filter (named p)

/-- The first such element. -/
def first (p : ν → Bool) (ts : List (Markup ν α)) : Option (Markup ν α) :=
  ts.find? (named p)

theorem head?_select (p : ν → Bool) (ts : List (Markup ν α)) :
    (select p ts).head? = first p ts :=
  List.head?_filter

@[simp] theorem first_nil (p : ν → Bool) : first p ([] : List (Markup ν α)) = none := rfl

@[simp] theorem select_nil (p : ν → Bool) : select p ([] : List (Markup ν α)) = [] := rfl

theorem first_cons_of_pos {p : ν → Bool} {t : Markup ν α} (h : t.named p = true)
    (ts : List (Markup ν α)) : first p (t :: ts) = some t :=
  List.find?_cons_of_pos h

theorem first_cons_of_neg {p : ν → Bool} {t : Markup ν α} (h : ¬t.named p = true)
    (ts : List (Markup ν α)) : first p (t :: ts) = first p ts :=
  List.find?_cons_of_neg h

theorem first_element (p : ν → Bool) (name : ν) (attrs : List (ν × List α))
    (children ts : List (Markup ν α)) :
    first p (.element name attrs children :: ts) =
      if p name then some (.element name attrs children) else first p ts := by
  split
  · next h => exact first_cons_of_pos (by simpa using h) ts
  · next h => exact first_cons_of_neg (by simpa using h) ts

theorem select_cons_of_pos {p : ν → Bool} {t : Markup ν α} (h : t.named p = true)
    (ts : List (Markup ν α)) : select p (t :: ts) = t :: select p ts :=
  List.filter_cons_of_pos h

theorem select_cons_of_neg {p : ν → Bool} {t : Markup ν α} (h : ¬t.named p = true)
    (ts : List (Markup ν α)) : select p (t :: ts) = select p ts :=
  List.filter_cons_of_neg h

@[simp] theorem first_append (p : ν → Bool) (ts us : List (Markup ν α)) :
    first p (ts ++ us) = (first p ts).or (first p us) :=
  List.find?_append

@[simp] theorem select_append (p : ν → Bool) (ts us : List (Markup ν α)) :
    select p (ts ++ us) = select p ts ++ select p us :=
  List.filter_append ts us

theorem select_element (p : ν → Bool) (name : ν) (attrs : List (ν × List α))
    (children ts : List (Markup ν α)) :
    select p (.element name attrs children :: ts) =
      if p name then .element name attrs children :: select p ts else select p ts := by
  split
  · next h => exact select_cons_of_pos (by simpa using h) ts
  · next h => exact select_cons_of_neg (by simpa using h) ts

theorem first_flatMap (p : ν → Bool) {β : Type*} (l : List β) (g : β → List (Markup ν α)) :
    first p (l.flatMap g) = l.findSome? fun x => first p (g x) :=
  List.find?_flatMap

theorem first_flatMap_congr
    {p : ν → Bool} {β : Type*} {l : List β} {g : β → List (Markup ν α)} {c : β → Option (Markup ν α)}
    (h : ∀ x ∈ l, first p (g x) = c x) :
    first p (l.flatMap g) = l.findSome? c := by
  induction l with
  | nil => rfl
  | cons x l ih =>
      obtain ⟨hx, hl⟩ := List.forall_mem_cons.mp h
      rw [List.flatMap_cons, first_append, ih hl, hx, List.findSome?_cons]
      cases c x with
      | none => rfl
      | some t => rfl

theorem select_eq_nil_iff {p : ν → Bool} {ts : List (Markup ν α)} :
    select p ts = [] ↔ first p ts = none := by
  rw [← head?_select, List.head?_eq_none_iff]

/-- Where each selected element starts with such a one, the first of it is that of
the first of them. -/
theorem first_flatMap_of_some
    {p : ν → Bool} {β : Type*} {l : List β} {g : β → List (Markup ν α)} {c : β → Markup ν α}
    (h : ∀ x ∈ l, first p (g x) = some (c x)) :
    first p (l.flatMap g) = l.head?.map c := by
  cases l with
  | nil => rfl
  | cons x l =>
      rw [first_flatMap, List.findSome?_cons, h x List.mem_cons_self]
      rfl

theorem first_flatMap_of_none
    {p : ν → Bool} {β : Type*} {l : List β} {g : β → List (Markup ν α)}
    (h : ∀ x ∈ l, first p (g x) = none) :
    first p (l.flatMap g) = none := by
  rw [first_flatMap, List.findSome?_eq_none_iff]
  exact h

section Elements

variable {β : Type*} {p : ν → Bool} {name : ν} (attrs : β → List (ν × List α))
  (children : β → List (Markup ν α)) (l : List β)

theorem first_map_element (h : p name = false) :
    first p (l.map fun x => .element name (attrs x) (children x)) = none := by
  rw [List.map_eq_flatMap]
  refine first_flatMap_of_none fun x _ => ?_
  rw [first_element, h]
  rfl

theorem select_map_element (h : p name = true) :
    select p (l.map fun x => .element name (attrs x) (children x)) =
      l.map fun x => .element name (attrs x) (children x) := by
  rw [select, List.filter_eq_self]
  intro t ht
  obtain ⟨x, -, rfl⟩ := List.mem_map.mp ht
  exact h

end Elements

/-! ## Writing -/

/-- Adjacent texts of a result tree are one text. -/
def joinTexts : List (Markup ν α) → List (Markup ν α)
  | [] => []
  | .text s :: ts =>
      match joinTexts ts with
      | .text s' :: ts' => .text (s ++ s') :: ts'
      | ts' => .text s :: ts'
  | t :: ts => t :: joinTexts ts

/-- A literal result element. -/
def literal (name : ν) (body : List (Markup ν α)) : Markup ν α :=
  .element name [] (joinTexts body)

/-- `xsl:value-of`: nothing is written of an empty value. -/
def valueOf (s : List α) : List (Markup ν α) :=
  if s.isEmpty then [] else [.text s]

/-- Texts written one after the other. -/
def texts (ss : List (List α)) : List (Markup ν α) :=
  ss.flatMap valueOf

mutual
/-- `xsl:copy-of` of a node. -/
def copy : Markup ν α → Markup ν α
  | .element name attrs children => .element name attrs (joinTexts (copies children))
  | .text s => .text s
  | .other s => .other s

def copies : List (Markup ν α) → List (Markup ν α)
  | [] => []
  | t :: ts => copy t :: copies ts
end

/-- Joining texts is nothing to the elements. -/
@[simp] theorem select_joinTexts (p : ν → Bool) (ts : List (Markup ν α)) :
    select p (joinTexts ts) = select p ts := by
  have hcons : ∀ (t : Markup ν α) ts, select p (t :: ts) = select p [t] ++ select p ts :=
    fun t ts => List.filter_append [t] ts
  have htext : ∀ s : List α, select p [.text s] = [] := fun s => rfl
  induction ts with
  | nil => rfl
  | cons t ts ih =>
      cases t with
      | text s =>
          rw [joinTexts, hcons, ← ih]
          split
          · next s' ts' heq =>
              rw [heq, hcons, hcons (.text s'), htext, htext, htext]
              rfl
          · rw [hcons]
      | element name attrs children => rw [joinTexts, hcons, ih, ← hcons]; simp
      | other s => rw [joinTexts, hcons, ih, ← hcons]; simp

@[simp] theorem first_joinTexts (p : ν → Bool) (ts : List (Markup ν α)) :
    first p (joinTexts ts) = first p ts := by
  rw [← head?_select, select_joinTexts, head?_select]

@[simp] theorem first_valueOf (p : ν → Bool) (s : List α) :
    first p (valueOf s) = none := by
  rw [valueOf]
  split
  · rfl
  · rfl

@[simp] theorem first_texts (p : ν → Bool) (ss : List (List α)) :
    first p (texts ss) = none :=
  first_flatMap_of_none fun s _ => first_valueOf p s

theorem first_literal (p : ν → Bool) (name : ν) (body : List (Markup ν α)) :
    first p [literal name body] = if p name then some (literal name body) else none :=
  first_element p name [] (joinTexts body) []

theorem joinTexts_valueOf (s : List α) : joinTexts (valueOf s : List (Markup ν α)) = valueOf s := by
  rw [valueOf]
  split
  · rfl
  · rfl

/-- They come to one text. -/
theorem joinTexts_texts (ss : List (List α)) :
    joinTexts (texts ss : List (Markup ν α)) = valueOf ss.flatten := by
  induction ss with
  | nil => rfl
  | cons s ss ih =>
      rw [texts, List.flatMap_cons, List.flatten_cons, ← texts]
      cases s with
      | nil => exact ih
      | cons b s =>
          cases hrest : ss.flatten with
          | nil =>
              rw [hrest] at ih
              rw [valueOf, List.isEmpty_cons, if_neg Bool.false_ne_true, List.cons_append,
                List.nil_append, joinTexts, ih, List.append_nil]
              rfl
          | cons b' s' =>
              rw [hrest] at ih
              rw [valueOf, List.isEmpty_cons, if_neg Bool.false_ne_true, List.cons_append,
                List.nil_append, joinTexts, ih]
              rfl

/-- What the first node in an element holds. -/
def held (t : Markup ν α) : Option (List α) :=
  t.children.head?.bind Markup.content

/-- An empty value leaves an element without a text. -/
def filled (s : List α) : Option (List α) :=
  if s.isEmpty then none else some s

theorem held_literal_texts (name : ν) (ss : List (List α)) :
    held (literal name (texts ss)) = filled ss.flatten := by
  rw [held, literal, Markup.children, joinTexts_texts, valueOf, filled]
  split
  · rfl
  · rfl

theorem held_literal_valueOf (name : ν) (s : List α) :
    held (literal name (valueOf s)) = filled s := by
  rw [held, literal, Markup.children, joinTexts_valueOf, valueOf, filled]
  split
  · rfl
  · rfl

theorem bind_held_literal {β : Type*} (o : Option β) (name : ν) (g : β → List (List α)) :
    (o.map fun x => literal name (texts (g x))).bind held = o.bind fun x => filled (g x).flatten := by
  cases o with
  | none => rfl
  | some x => exact held_literal_texts name (g x)

/-! ## Rules -/

/-- What a template writes, from the element and its children, each with what its
own template writes. -/
abbrev Template (ν α : Type*) :=
  Markup ν α → List (Markup ν α × List (Markup ν α)) → List (Markup ν α)

/-- The template for an element, by the name of its parent, if it has one, and
its own. -/
abbrev Rules (ν α : Type*) :=
  Option ν → ν → Option (Template ν α)

mutual
/-- What is written for a node below `parent`. -/
def process (rules : Rules ν α) (parent : Option ν) : Markup ν α → List (Markup ν α)
  | .element name attrs children =>
      match rules parent name with
      | some write => write (.element name attrs children) (processed rules name children)
      | none => (processed rules name children).flatMap Prod.snd
  | .text s => valueOf s
  | .other _ => []

def processed (rules : Rules ν α) (parent : ν) :
    List (Markup ν α) → List (Markup ν α × List (Markup ν α))
  | [] => []
  | t :: ts => (t, process rules (some parent) t) :: processed rules parent ts
end

/-- `xsl:apply-templates` to the children with such names. -/
def applyTemplates (p : ν → Bool) (children : List (Markup ν α × List (Markup ν α))) :
    List (Markup ν α) :=
  (children.filter fun c => c.1.named p).flatMap Prod.snd

theorem processed_eq_map (rules : Rules ν α) (parent : ν) (ts : List (Markup ν α)) :
    processed rules parent ts = ts.map fun t => (t, process rules (some parent) t) := by
  induction ts with
  | nil => rw [processed, List.map_nil]
  | cons t ts ih => rw [processed, ih, List.map_cons]

@[simp] theorem map_fst_processed (rules : Rules ν α) (parent : ν) (ts : List (Markup ν α)) :
    (processed rules parent ts).map Prod.fst = ts := by
  rw [processed_eq_map, List.map_map]
  exact List.map_id ts

theorem applyTemplates_processed
    (rules : Rules ν α) (parent : ν) (p : ν → Bool) (ts : List (Markup ν α)) :
    applyTemplates p (processed rules parent ts) =
      (select p ts).flatMap (process rules (some parent)) := by
  rw [applyTemplates, processed_eq_map, List.filter_map, List.flatMap_map]
  rfl

/-- Without a template and elements in it, an element writes texts alone. -/
theorem first_process_of_texts
    {rules : Rules ν α} {parent : Option ν} {name : ν} (h : rules parent name = none)
    (attrs : List (ν × List α)) {children : List (Markup ν α)}
    (htexts : first (fun _ => true) children = none) (p : ν → Bool) :
    first p (process rules parent (.element name attrs children)) = none := by
  rw [process, h, processed_eq_map, List.flatMap_map]
  refine first_flatMap_of_none fun t ht => ?_
  cases t with
  | element name attrs children =>
      exact absurd rfl (List.find?_eq_none.mp htexts _ ht)
  | text s => exact first_valueOf p s
  | other s => rfl

theorem process_of_rule
    {rules : Rules ν α} {parent : Option ν} {name : ν} {write : Template ν α}
    (h : rules parent name = some write) (attrs : List (ν × List α)) (children : List (Markup ν α)) :
    process rules parent (.element name attrs children) =
      write (.element name attrs children) (processed rules name children) := by
  rw [process, h]

/-- The template that writes an element of texts for each of `outs`. -/
def leaf (outs : List (ν × (Markup ν α → List (List α)))) : Template ν α :=
  fun t _ => outs.map fun out => literal out.1 (texts (out.2 t))

theorem first_leaf (q : ν → Bool) (outs : List (ν × (Markup ν α → List (List α)))) (t : Markup ν α)
    (children : List (Markup ν α × List (Markup ν α))) :
    first q (leaf outs t children) =
      (outs.find? fun out => q out.1).map fun out => literal out.1 (texts (out.2 t)) := by
  rw [first, leaf, List.find?_map]
  rfl

/-- Where all selected elements have one such template, what is first written is
that of the first of them. -/
theorem first_applyTemplates_leaf
    {rules : Rules ν α} {parent : ν} {p : ν → Bool}
    {outs : List (ν × (Markup ν α → List (List α)))}
    (hrule : ∀ name, p name = true → rules (some parent) name = some (leaf outs))
    (q : ν → Bool) (ts : List (Markup ν α)) :
    first q (applyTemplates p (processed rules parent ts)) =
      (outs.find? fun out => q out.1).bind fun out =>
        (first p ts).map fun t => literal out.1 (texts (out.2 t)) := by
  have hprocess : ∀ t ∈ select p ts, first q (process rules (some parent) t) =
      (outs.find? fun out => q out.1).map fun out => literal out.1 (texts (out.2 t)) := by
    intro t ht
    obtain ⟨name, attrs, children, hname, rfl⟩ := named_iff.mp (List.mem_filter.mp ht).2
    rw [process_of_rule (hrule name hname), first_leaf]
  rw [applyTemplates_processed]
  cases hfind : outs.find? fun out => q out.1 with
  | none =>
      rw [hfind] at hprocess
      exact first_flatMap_of_none hprocess
  | some out =>
      rw [hfind] at hprocess
      rw [first_flatMap_of_some hprocess, head?_select]
      rfl

end Stylesheet
end Support
end Newsbaoter
