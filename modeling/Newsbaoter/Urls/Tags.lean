import Newsbaoter.Config.InPlace
import Newsbaoter.Fetch.Model
import Newsbaoter.Hash.Names

/-!
# The list of URLs

`urlparse` makes an item of each line of the file, puts it in front of the list,
and puts a pointer to it in front of the list of each tag on the line.  An item
is known by the number of items that were made before it.
-/

namespace Newsbaoter
namespace Urls

open Newsbaoter.Support
open Config (getLineWord lineWords)
open Fetch (UrlItem)
open Hash (Table initTable getHashVar setHashVar Refines initialLoctabSize)

/-! ## Reading the file -/

/-- The list `urlparse` returns and the table it fills; the value of a tag is
its `taglist`. -/
structure UrlTags where
  urls : List UrlItem
  tags : Table (List ℕ)

/-- One word behind the URL: `get_urltag`, a node in front of what it returns,
and `set_urltag`. -/
def addTag (tags : Table (List ℕ)) (p : ℕ × CStr) : Option (Table (List ℕ)) :=
  (getHashVar (some p.2) tags).bind fun tlp =>
    setHashVar p.2 (some (p.1 :: tlp.getD [])) tags

/-- The loop over the lines; `none` is an access outside the table. -/
def urlparseFrom : List CStr → UrlTags → Option UrlTags
  | [], s => some s
  | buf :: rest, s =>
      match getLineWord buf with
      | none => some s
      | some (bp, next) =>
          (runs addTag s.tags ((lineWords next).map fun word => (s.urls.length, word))).bind
            fun tags => urlparseFrom rest ⟨{ url := bp, nHttperr := -1 } :: s.urls, tags⟩

/-- `urlparse` on the strings that `read_config_line` leaves in the buffer. -/
def urlparse (bufs : List CStr) : Option UrlTags :=
  urlparseFrom bufs ⟨[], initTable⟩

def getUrltag (name : CStr) (s : UrlTags) : Option (Option (List ℕ)) :=
  getHashVar (some name) s.tags

/-! ## What the file says -/

/-- A line of the file. -/
structure UrlLine where
  url : CStr
  tags : List CStr

/-- The lines up to the first empty one. -/
def urlLines : List CStr → List UrlLine
  | [] => []
  | buf :: rest =>
      match getLineWord buf with
      | none => []
      | some (bp, next) => ⟨bp, lineWords next⟩ :: urlLines rest

/-- The tags in the order of the file, each with the number of its line. -/
def tagPairs (n : ℕ) (ls : List UrlLine) : List (ℕ × CStr) :=
  (ls.zipIdx n).flatMap fun l => l.1.tags.map fun tag => (l.2, tag)

def tagNames (ls : List UrlLine) : Finset CStr :=
  (ls.flatMap UrlLine.tags).toFinset

/-- The lines with a tag, the last first, each as often as it has the tag. -/
def taggedLines (ls : List UrlLine) (tag : CStr) : List ℕ :=
  (ls.zipIdx.flatMap fun l => List.replicate (l.1.tags.count tag) l.2).reverse

/-! ## The index of the tags -/

/-- The items of a name, the last first. -/
def itemsOf (pairs : List (ℕ × CStr)) (name : CStr) : List ℕ :=
  ((pairs.filter fun p => p.2 = name).map Prod.fst).reverse

/-- The map that the table stores. -/
def indexOf (pairs : List (ℕ × CStr)) (name : CStr) : Option (Option (List ℕ)) :=
  if name ∈ pairs.map Prod.snd then some (some (itemsOf pairs name)) else none

theorem indexOf_isSome_iff {pairs : List (ℕ × CStr)} {name : CStr} :
    name ∈ (pairs.map Prod.snd).toFinset ↔ ∃ value, indexOf pairs name = some value := by
  rw [List.mem_toFinset, indexOf]
  by_cases hname : name ∈ pairs.map Prod.snd
  · rw [if_pos hname]
    exact iff_of_true hname ⟨_, rfl⟩
  · rw [if_neg hname]
    exact iff_of_false hname fun ⟨_, h⟩ => by cases h

theorem itemsOf_eq_nil
    {pairs : List (ℕ × CStr)} {name : CStr} (h : name ∉ pairs.map Prod.snd) :
    itemsOf pairs name = [] := by
  rw [itemsOf, List.reverse_eq_nil_iff, List.map_eq_nil_iff, List.filter_eq_nil_iff]
  intro p hp heq
  exact h (List.mem_map.mpr ⟨p, hp, by simpa using heq⟩)

/-- What a lookup of a name makes of the map. -/
theorem getD_join_indexOf (pairs : List (ℕ × CStr)) (name : CStr) :
    (indexOf pairs name).join.getD [] = itemsOf pairs name := by
  rw [indexOf]
  by_cases hname : name ∈ pairs.map Prod.snd
  · rw [if_pos hname]
    rfl
  · rw [if_neg hname, itemsOf_eq_nil hname]
    rfl

theorem indexOf_concat (pairs : List (ℕ × CStr)) (p : ℕ × CStr) :
    indexOf (pairs ++ [p]) =
      Function.update (indexOf pairs) p.2 (some (some (p.1 :: itemsOf pairs p.2))) := by
  funext name
  by_cases hname : name = p.2
  · rw [hname, Function.update_self, indexOf, if_pos (by simp), itemsOf, List.filter_append]
    simp [itemsOf]
  · have hne : ¬p.2 = name := fun heq => hname heq.symm
    have hitems : itemsOf (pairs ++ [p]) name = itemsOf pairs name := by
      rw [itemsOf, itemsOf, List.filter_append, List.filter_singleton]
      simp [hne]
    have hmem : name ∈ (pairs ++ [p]).map Prod.snd ↔ name ∈ pairs.map Prod.snd := by
      rw [List.map_append, List.mem_append, List.map_singleton, List.mem_singleton,
        or_iff_left hname]
    rw [Function.update_of_ne hname, indexOf, indexOf, hitems]
    exact if_congr hmem rfl rfl

/-- One more tag fits just if its name is stored or a slot is free. -/
theorem addTag_spec
    {t : Table (List ℕ)} {pairs : List (ℕ × CStr)} (h : Refines t (indexOf pairs))
    (p : ℕ × CStr) :
    ((addTag t p).isSome ↔
        (((pairs ++ [p]).map Prod.snd).toFinset).card ≤ initialLoctabSize) ∧
      ∀ u, addTag t p = some u → Refines u (indexOf (pairs ++ [p])) := by
  have hnames : ((pairs ++ [p]).map Prod.snd).toFinset =
      insert p.2 (pairs.map Prod.snd).toFinset := by
    ext name
    simp
  have hroom := h.room_iff (fun _ => indexOf_isSome_iff) p.2
  have hget := Hash.step_isSome_iff h.stuck (.get (some p.2))
  have hset : ∀ value, _ := fun value => Hash.step_isSome_iff h.stuck (.set p.2 value)
  rw [Hash.step, Option.isSome_map] at hget
  refine ⟨?_, ?_⟩
  · rw [hnames, ← hroom, addTag]
    cases hlookup : getHashVar (some p.2) t with
    | none =>
        rw [hlookup] at hget
        exact iff_of_false Bool.false_ne_true fun hfits => Bool.false_ne_true (hget.mpr hfits)
    | some tlp => exact hset _
  · intro u hu
    obtain ⟨tlp, hlookup, hstore⟩ := Option.bind_eq_some_iff.mp hu
    rw [h.get hlookup, getD_join_indexOf] at hstore
    rw [indexOf_concat]
    exact h.set hstore

/-- The run lemma: the tags fit just if their names are no more than the slots,
and the table then stores their index. -/
theorem runs_addTag (pairs : List (ℕ × CStr)) :
    ((runs addTag initTable pairs).isSome ↔
        ((pairs.map Prod.snd).toFinset).card ≤ initialLoctabSize) ∧
      ∀ t, runs addTag initTable pairs = some t → Refines t (indexOf pairs) := by
  induction pairs using List.reverseRecOn with
  | nil =>
      refine ⟨by simp, ?_⟩
      rintro t ⟨⟩
      exact Hash.refines_initTable
  | append_singleton pairs p ih =>
      obtain ⟨hfits, hstores⟩ := ih
      rw [runs_append]
      cases hruns : runs addTag initTable pairs with
      | none =>
          rw [hruns] at hfits
          have hfull : ¬((pairs.map Prod.snd).toFinset).card ≤ initialLoctabSize := by
            rw [← hfits]
            exact Bool.false_ne_true
          have hmore : (pairs.map Prod.snd).toFinset ⊆
              ((pairs ++ [p]).map Prod.snd).toFinset := by
            intro name
            simp +contextual
          refine ⟨iff_of_false (by simp) fun hle => ?_, by simp⟩
          exact hfull ((Finset.card_le_card hmore).trans hle)
      | some t =>
          have hone : ∀ u, runs addTag u [p] = addTag u p := fun u => by
            rw [runs_cons]
            cases addTag u p <;> rfl
          rw [Option.bind_some, hone]
          exact addTag_spec (hstores t hruns) p

/-! ## The lines of the file -/

theorem tagPairs_cons (n : ℕ) (l : UrlLine) (ls : List UrlLine) :
    tagPairs n (l :: ls) = (l.tags.map fun tag => (n, tag)) ++ tagPairs (n + 1) ls := by
  rw [tagPairs, List.zipIdx_cons, List.flatMap_cons, tagPairs]

theorem map_snd_tagPairs (n : ℕ) (ls : List UrlLine) :
    (tagPairs n ls).map Prod.snd = ls.flatMap UrlLine.tags := by
  induction ls generalizing n with
  | nil => rfl
  | cons l ls ih =>
      rw [tagPairs_cons, List.map_append, ih, List.map_map, List.flatMap_cons]
      congr 1
      exact List.map_id _

theorem itemsOf_tagPairs (ls : List UrlLine) (tag : CStr) :
    itemsOf (tagPairs 0 ls) tag = taggedLines ls tag := by
  rw [itemsOf, taggedLines, tagPairs, List.filter_flatMap, List.map_flatMap]
  congr 1
  apply List.flatMap_congr
  rintro ⟨l, n⟩ -
  rw [List.filter_map, List.map_map]
  have hconst : (Prod.fst ∘ fun tag : CStr => (n, tag)) = fun _ => n := rfl
  have hsame : (fun p : ℕ × CStr => decide (p.2 = tag)) ∘ (fun word => (n, word)) =
      fun word => word == tag := by
    funext word
    rw [Function.comp_apply, Bool.eq_iff_iff, decide_eq_true_iff, beq_iff_eq]
  rw [hconst, List.map_const', List.count_eq_countP, List.countP_eq_length_filter, hsame]

/-- The loop over the lines makes the items and runs over the tags. -/
theorem urlparseFrom_eq (bufs : List CStr) (s : UrlTags) :
    urlparseFrom bufs s =
      (runs addTag s.tags (tagPairs s.urls.length (urlLines bufs))).map fun tags =>
        ⟨((urlLines bufs).map fun l => { url := l.url, nHttperr := -1 }).reverse ++ s.urls,
          tags⟩ := by
  induction bufs generalizing s with
  | nil => rfl
  | cons buf rest ih =>
      rw [urlparseFrom, urlLines]
      rcases getLineWord buf with - | ⟨bp, next⟩
      · rfl
      · dsimp only
        rw [tagPairs_cons, runs_append, Option.map_bind]
        refine Option.bind_congr fun tags _ => ?_
        rw [ih]
        simp

/-- Whatever the file has: `urlparse` stays inside the table of tags just if the
lines have no more than 32 of them.  The list then has an item for each line,
the last line first, and each tag its items; to look up another tag is safe just
while a slot is free. -/
theorem urlparse_spec (bufs : List CStr) :
    ((urlparse bufs).isSome ↔ (tagNames (urlLines bufs)).card ≤ initialLoctabSize) ∧
      ∀ s, urlparse bufs = some s →
        s.urls = ((urlLines bufs).map fun l => { url := l.url, nHttperr := -1 }).reverse ∧
        ∀ tag, getUrltag tag s =
          if tag ∈ tagNames (urlLines bufs) then some (some (taggedLines (urlLines bufs) tag))
          else if (tagNames (urlLines bufs)).card < initialLoctabSize then some none
          else none := by
  obtain ⟨hfits, hstores⟩ := runs_addTag (tagPairs 0 (urlLines bufs))
  have hnames : (tagPairs 0 (urlLines bufs)).map Prod.snd = (urlLines bufs).flatMap UrlLine.tags :=
    map_snd_tagPairs 0 (urlLines bufs)
  rw [urlparse, urlparseFrom_eq, Option.isSome_map]
  refine ⟨by rw [tagNames, ← hnames]; exact hfits, ?_⟩
  intro s hs
  obtain ⟨tags, hruns, rfl⟩ := Option.map_eq_some_iff.mp hs
  have hindex := hstores tags hruns
  refine ⟨List.append_nil _, fun tag => ?_⟩
  have hmem : tag ∈ tagNames (urlLines bufs) ↔
      tag ∈ (tagPairs 0 (urlLines bufs)).map Prod.snd := by
    rw [hnames, tagNames, List.mem_toFinset]
  rw [getUrltag, hindex.getHashVar_eq (fun _ => indexOf_isSome_iff), hnames, ← tagNames, indexOf]
  by_cases htag : tag ∈ tagNames (urlLines bufs)
  · rw [if_pos (Or.inl htag), if_pos htag, if_pos (hmem.mp htag), itemsOf_tagPairs]
    rfl
  · simp only [htag, false_or, if_false, if_neg (mt hmem.mpr htag)]
    rfl

example :
    (urlparse [ascii "http://example/a news fun", ascii "http://example/b  news"]).bind
      (getUrltag (ascii "news")) = some (some [1, 0]) := by
  rfl

end Urls
end Newsbaoter
