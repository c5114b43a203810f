import Newsbaoter.Xsl.Dates
import Newsbaoter.Xsl.Documents

/-!
# One feed in five formats

A feed written in each of the formats, and what the cache keeps of it: the same
as of the feed in RSS 2.0, but for what the format's stylesheet drops.
-/

namespace Newsbaoter
namespace Xsl

open Newsbaoter.Cache (Db EntryField FeedField RefreshEnv Tm getNumUnread xmlprocUpdateCache)
open Newsbaoter.Dates (Stamp Zone glibc strptime twoDigits)
open Newsbaoter.Support.Stylesheet

/-! ## Feeds -/

/-- A text that is not empty. -/
abbrev Filled :=
  {s : CStr // s ≠ []}

structure Article where
  title : Filled
  link : Filled
  id : Filled
  author : Option Filled
  content : Filled
  date : Stamp

structure Feed where
  title : Filled
  description : Filled
  editor : Option Filled
  articles : List Article

/-! ## Writing a feed -/

/-- An element that holds a text. -/
def el (name : QName) (s : CStr) : Node :=
  .element name [] [.text s]

def optional (write : CStr → Node) (s : Option Filled) : List Node :=
  (s.map fun s => write s.val).toList

/-- `±hh:mm` -/
def isoZone (s : Stamp) : CStr :=
  ascii (if s.west then "-" else "+") ++ (twoDigits s.offHour ++ ascii ":" ++ twoDigits s.offMinute)

def weekdayName (s : Stamp) : CStr :=
  ascii (["Sun", "Mon", "Tue", "Wed", "Thu", "Fri", "Sat"].getD
    ((Support.days s.year (s.month - 1) s.day + 4) % 7).toNat "")

def rssItem (guid : List Node) (a : Article) : Node :=
  .element (plain "item") []
    ([el (plain "title") a.title, el (plain "link") a.link] ++ guid ++
      optional (el (plain "author")) a.author ++
      [el (plain "pubDate") (rfc822 a.date (weekdayName a.date) (twoDigits a.date.day)
        a.date.offsetText),
        el (plain "description") a.content])

def rssDocument (version : String) (guid : Article → List Node) (f : Feed) : Document where
  name := plain "rss"
  attrs := [(plain "version", ascii version)]
  children := [.element (plain "channel") []
    ([el (plain "title") f.title, el (plain "description") f.description] ++
      optional (el (plain "managingEditor")) f.editor ++
      f.articles.map fun a => rssItem (guid a) a)]

def atomAuthor (atom : String → QName) (email : CStr) : Node :=
  .element (atom "author") [] [el (atom "email") email]

def atomItem (atom : String → QName) (published : String) (a : Article) : Node :=
  .element (atom "entry") []
    ([el (atom "title") a.title, .element (atom "link") [(plain "href", a.link)] [],
        el (atom "id") a.id] ++
      optional (atomAuthor atom) a.author ++
      [el (atom published) (iso8601 a.date (isoZone a.date)), el (atom "content") a.content])

def atomDocument (atom : String → QName) (attrs : List (QName × CStr)) (published : String)
    (f : Feed) : Document where
  name := atom "feed"
  attrs := attrs
  children := [el (atom "title") f.title, el (atom "tagline") f.description] ++
    optional (atomAuthor atom) f.editor ++ f.articles.map (atomItem atom published)

/-- RSS 1.0 names no authors and dates articles by the day. -/
def rdfItemOf (a : Article) : Node :=
  .element (rss10 "item") [(rdf "about", a.id)]
    [el (rss10 "title") a.title, el (rss10 "link") a.link, el (dc "date") a.date.dateText,
      el (rss10 "description") a.content]

def rdfChannelOf (f : Feed) : Node :=
  .element (rss10 "channel") []
    [el (rss10 "title") f.title, el (rss10 "description") f.description]

def rdfDocument (f : Feed) : Document where
  name := rdf "RDF"
  attrs := []
  children := rdfChannelOf f :: f.articles.map rdfItemOf

def Format.write : Format → Feed → Document
  | .rss20 => rssDocument "2.0" fun a => [el (plain "guid") a.id]
  | .rss09 => rssDocument "0.91" fun _ => []
  | .atom10 => atomDocument Xsl.atom10 [] "published"
  | .atom03 => atomDocument Xsl.atom03 [(plain "version", ascii "0.3")] "issued"
  | .rdf => rdfDocument

/-! ## What is kept of it -/

/-- What the cache keeps of an article. -/
def Format.keep : Format → Article → Article
  | .rss20, a => a
  | .rss09, a => { a with id := a.link }
  | .atom10, a => { a with date := inUtc (cutSeconds a.date) }
  | .atom03, a => { a with date := inUtc a.date }
  | .rdf, a => { a with author := none, date := midnight a.date }

def Format.keepFeed (format : Format) (f : Feed) : Feed :=
  { f with
    editor := if format = .rdf then none else f.editor
    articles := f.articles.map format.keep }

/-- The date text that the stylesheet of the format writes for an article. -/
def Format.dateText (format : Format) (a : Article) : CStr :=
  match format with
  | .rss20 | .rss09 => a.date.text
  | .atom10 => a.date.dateText ++ ascii " " ++ cutTime a.date ++ ascii " +0000"
  | .atom03 => (inUtc a.date).text
  | .rdf => (midnight a.date).text

/-- It is parsed as the date that is kept. -/
theorem strptime_dateText (format : Format) (a : Article) (tp : Tm) :
    strptime (format.dateText a) tp = strptime (format.keep a).date.text tp := by
  cases format with
  | atom10 => exact strptime_cutTime a.date tp
  | _ => rfl

/-- The fields of an article with this date text. -/
def Article.fields (a : Article) (dateText : CStr) : EntryField → Option CStr
  | .title => some a.title.val
  | .pdate => some dateText
  | .url => some a.link.val
  | .authEmail => a.author.map Subtype.val
  | .content => some a.content.val
  | .uid => some a.id.val
  | .udate | .authName | .desc => none

def Feed.fields (f : Feed) : FeedField → Option CStr
  | .title => some f.title.val
  | .desc => some f.description.val
  | .authEmail => f.editor.map Subtype.val
  | .url | .authName | .iurl | .itext => none

/-! ## Reading it back -/

theorem value_el (name : QName) (s : CStr) : (el name s).value = s := by
  simp only [el, Markup.value, Markup.values, List.append_nil]

theorem first_el (p : QName → Bool) (name : QName) (s : CStr) (ts : List Node) :
    first p (el name s :: ts) = if p name then some (el name s) else first p ts :=
  first_element p name [] [.text s] ts

theorem select_el (p : QName → Bool) (name : QName) (s : CStr) (ts : List Node) :
    select p (el name s :: ts) = if p name then el name s :: select p ts else select p ts :=
  select_element p name [] [.text s] ts

theorem held_copy_el (name : QName) (s : CStr) : held (copy (el name s)) = some s := by
  simp only [el, copy, copies, joinTexts, held, Markup.children]
  rfl

theorem filled_val (s : Filled) : filled s.val = some s.val := by
  have hne : ¬s.val.isEmpty = true := by simpa using s.property
  rw [filled, if_neg hne]

theorem comma_notMem_weekdayName (s : Stamp) : 44 ∉ weekdayName s := by
  have hall : ∀ n < 7, 44 ∉ ascii (["Sun", "Mon", "Tue", "Wed", "Thu", "Fri", "Sat"].getD n "") := by
    decide
  rw [weekdayName]
  exact hall _ (by omega)

theorem rssDate_item (s : Stamp) :
    filled (rssDate (rfc822 s (weekdayName s) (twoDigits s.day) s.offsetText)).flatten =
      some s.text := by
  rw [(rssDate_normalises s (comma_notMem_weekdayName s) DayText.padded).1]
  rfl

theorem rss20_article (a : Article) :
    rss20Entry (rssItem [el (plain "guid") a.id] a) = a.fields a.date.text := by
  funext f
  cases hauthor : a.author
  all_goals
    cases f
    all_goals
      simp +decide [rss20Entry, rssEntry, rssItem, one, first_el, optional,
        value_el, filled_val, Article.fields, rssDate_item, itemContent, childValue, hauthor]

theorem rss09_article (a : Article) :
    rss09Entry (rssItem [] a) = (Format.keep .rss09 a).fields a.date.text := by
  funext f
  cases hauthor : a.author
  all_goals
    cases f
    all_goals
      simp +decide [rss09Entry, rssEntry, rssItem, one, first_el, select_el,
        optional, value_el, filled_val, Article.fields, rssDate_item, itemContent, childValue,
        hauthor, Format.keep]

theorem attrValue_href (name : QName) (s : CStr) :
    attrValue "href" (.element name [(plain "href", s)] []) = s := by
  simp [attrValue]

theorem isoZone_head (s : Stamp) : ∀ b ∈ (isoZone s).head?, isContinuation b = false := by
  have hsign : ∀ (west : Bool) (rest : CStr),
      ∀ b ∈ (ascii (if west then "-" else "+") ++ rest).head?, isContinuation b = false := by
    rintro (_ | _) rest b hb
    · rw [← Option.some.inj hb]
      rfl
    · rw [← Option.some.inj hb]
      rfl
  exact hsign s.west _

theorem atom03_article (a : Article) :
    atom03Item (atomItem atom03 "issued" a) = (Format.keep .atom03 a).fields (inUtc a.date).text := by
  have hdate : filled (atomDate 9 (iso8601 a.date (isoZone a.date))).flatten =
      some (inUtc a.date).text := by
    rw [atomDate_nine a.date (isoZone_head a.date)]
    rfl
  funext f
  cases hauthor : a.author
  all_goals
    cases f
    all_goals
      simp +decide [atom03Item, atomEntry, atomItem, atomAuthor, one, first_el,
        first_element, optional, value_el, filled_val, Article.fields, hdate, childValue, hauthor,
        Format.keep, attrValue_href, held_copy_el]

/-- The date text that the sheet of Atom 1.0 writes. -/
theorem atom10_article (a : Article) :
    atom10Item (atomItem atom10 "published" a) = (Format.keep .atom10 a).fields
      (a.date.dateText ++ ascii " " ++ cutTime a.date ++ ascii " +0000") := by
  have hdate : filled (atomDate 8 (iso8601 a.date (isoZone a.date))).flatten =
      some (a.date.dateText ++ ascii " " ++ cutTime a.date ++ ascii " +0000") := by
    rw [atomDate_eight]
    rfl
  funext f
  cases hauthor : a.author
  all_goals
    cases f
    all_goals
      simp +decide [atom10Item, atomEntry, atomItem, atomAuthor, one, first_el,
        first_element, optional, value_el, filled_val, Article.fields, hdate, childValue, hauthor,
        Format.keep, attrValue_href, held_copy_el]

theorem rdf_article (a : Article) :
    rdfEntry (rdfItemOf a) = (Format.keep .rdf a).fields (midnight a.date).text := by
  have hdate : filled (rdfDate a.date.dateText).flatten = some (midnight a.date).text := by
    rw [text_midnight]
    rfl
  funext f
  cases f
  all_goals
    simp +decide [rdfEntry, rdfItemOf, one, first_el, value_el, filled_val,
      Article.fields, hdate, childValue, Format.keep]

/-! ## Whole feeds -/

theorem rss_feed (guid : Article → List Node) (f : Feed) :
    rssFeed ([el (plain "title") f.title, el (plain "description") f.description] ++
      optional (el (plain "managingEditor")) f.editor ++
      f.articles.map fun a => rssItem (guid a) a) = f.fields := by
  have hitems : ∀ {p : QName → Bool}, p (plain "item") = false →
      first p (f.articles.map fun a => rssItem (guid a) a) = none :=
    fun h => first_map_element _ _ f.articles h
  funext field
  cases heditor : f.editor
  all_goals
    cases field
    all_goals
      simp +decide [rssFeed, one, first_el, optional, value_el, filled_val, Feed.fields,
        hitems, heditor]

theorem rss_items (guid : Article → List Node) (f : Feed) :
    select [plain "item"].contains ([el (plain "title") f.title,
        el (plain "description") f.description] ++
      optional (el (plain "managingEditor")) f.editor ++
      f.articles.map fun a => rssItem (guid a) a) = f.articles.map fun a => rssItem (guid a) a := by
  have hitems : ∀ {p : QName → Bool}, p (plain "item") = true →
      select p (f.articles.map fun a => rssItem (guid a) a) =
        f.articles.map fun a => rssItem (guid a) a :=
    fun h => select_map_element _ _ f.articles h
  cases heditor : f.editor
  all_goals simp +decide [select_el, optional, hitems]

theorem atom_feed
    {atom : String → QName} (hatom : atom = atom10 ∨ atom = atom03) (published : String)
    (f : Feed) :
    atomFeedFields atom ([el (atom "title") f.title, el (atom "tagline") f.description] ++
      optional (atomAuthor atom) f.editor ++ f.articles.map (atomItem atom published)) =
        f.fields := by
  have hitems : ∀ {p : QName → Bool}, p (atom "entry") = false →
      first p (f.articles.map (atomItem atom published)) = none :=
    fun h => first_map_element _ _ f.articles h
  funext field
  rcases hatom with rfl | rfl
  all_goals
    cases heditor : f.editor
    all_goals
      cases field
      all_goals
        simp +decide [atomFeedFields, atomAuthor, one, first_el, first_element, optional,
          value_el, filled_val, childValue, Feed.fields, hitems, heditor]

theorem atom_items
    {atom : String → QName} (hatom : atom = atom10 ∨ atom = atom03) (published : String)
    (f : Feed) :
    select [atom "entry"].contains ([el (atom "title") f.title,
        el (atom "tagline") f.description] ++
      optional (atomAuthor atom) f.editor ++ f.articles.map (atomItem atom published)) =
        f.articles.map (atomItem atom published) := by
  have hitems : ∀ {p : QName → Bool}, p (atom "entry") = true →
      select p (f.articles.map (atomItem atom published)) =
        f.articles.map (atomItem atom published) :=
    fun h => select_map_element _ _ f.articles h
  rcases hatom with rfl | rfl
  all_goals
    cases heditor : f.editor
    all_goals simp +decide [select_el, select_element, atomAuthor, optional, hitems]

theorem rdf_channels (f : Feed) :
    select [rss10 "channel"].contains (rdfChannelOf f :: f.articles.map rdfItemOf) =
      [rdfChannelOf f] := by
  have hitems : first [rss10 "channel"].contains (f.articles.map rdfItemOf) = none :=
    first_map_element (fun a => [(rdf "about", a.id.val)]) _ f.articles (by decide)
  rw [rdfChannelOf, select_element, if_pos (by decide), select_eq_nil_iff.mpr hitems]

theorem rdf_items (f : Feed) :
    select [rss10 "item"].contains (rdfChannelOf f :: f.articles.map rdfItemOf) =
      f.articles.map rdfItemOf := by
  have hitems : select [rss10 "item"].contains (f.articles.map rdfItemOf) =
      f.articles.map rdfItemOf :=
    select_map_element (fun a => [(rdf "about", a.id.val)]) _ f.articles (by decide)
  rw [rdfChannelOf, select_element, if_neg (by decide), hitems]

/-- What a written feed publishes. -/
structure Publishes (format : Format) (f : Feed) : Prop where
  sheet : getSpecSheet (format.write f) = format
  knows : format.knows (format.write f) = true
  regular : (format.write f).Regular
  feed : format.feed (format.write f) = (format.keepFeed f).fields
  articles : format.articles (format.write f) =
    f.articles.map fun a => (format.keep a).fields (format.dateText a)

theorem publishes_rss20 (f : Feed) : Publishes .rss20 f where
  sheet := rfl
  knows := rfl
  regular := by
    intro h
    cases h
  feed := rss_feed _ f
  articles := by
    have hitems : Format.rss20.items (Format.rss20.write f) =
      f.articles.map fun a => rssItem [el (plain "guid") a.id] a := rss_items _ f
    rw [Format.articles, hitems, List.map_map]
    exact List.map_congr_left fun a _ => rss20_article a

theorem publishes_rss09 (f : Feed) : Publishes .rss09 f where
  sheet := rfl
  knows := rfl
  regular := by
    intro h
    cases h
  feed := rss_feed _ f
  articles := by
    have hitems : Format.rss09.items (Format.rss09.write f) =
      f.articles.map fun a => rssItem [] a := rss_items _ f
    rw [Format.articles, hitems, List.map_map]
    exact List.map_congr_left fun a _ => rss09_article a

theorem publishes_atom10 (f : Feed) : Publishes .atom10 f where
  sheet := rfl
  knows := rfl
  regular := by
    intro h
    cases h
  feed := atom_feed (Or.inl rfl) _ f
  articles := by
    have hitems : Format.atom10.items (Format.atom10.write f) =
      f.articles.map (atomItem atom10 "published") := atom_items (Or.inl rfl) _ f
    rw [Format.articles, hitems, List.map_map]
    exact List.map_congr_left fun a _ => atom10_article a

theorem publishes_atom03 (f : Feed) : Publishes .atom03 f where
  sheet := rfl
  knows := rfl
  regular := by
    intro h
    cases h
  feed := atom_feed (Or.inr rfl) _ f
  articles := by
    have hitems : Format.atom03.items (Format.atom03.write f) =
      f.articles.map (atomItem atom03 "issued") := atom_items (Or.inr rfl) _ f
    rw [Format.articles, hitems, List.map_map]
    exact List.map_congr_left fun a _ => atom03_article a

theorem publishes_rdf (f : Feed) : Publishes .rdf f where
  sheet := rfl
  knows := rfl
  regular := by
    intro _
    refine ⟨fun c hc => ?_, fun c hc => ?_, fun t ht => ?_⟩
    · obtain rfl := List.mem_singleton.mp (rdf_channels f ▸ hc)
      exact holdTexts_of_first (by simp +decide [rdfChannelOf, first_el])
    · obtain rfl := List.mem_singleton.mp (rdf_channels f ▸ hc)
      exact holdTexts_of_first (by simp +decide [rdfChannelOf, first_el])
    · obtain ⟨a, -, rfl⟩ := List.mem_map.mp (rdf_items f ▸ ht)
      exact holdTexts_of_first (by simp +decide [rdfItemOf, first_el])
  feed := by
    have hchannel : Format.rdf.feedChildren (Format.rdf.write f) = (rdfChannelOf f).children := by
      have hselect : Format.rdf.feedChildren (Format.rdf.write f) =
        (select [rss10 "channel"].contains (rdfChannelOf f :: f.articles.map rdfItemOf)).flatMap
          Markup.children := rfl
      rw [hselect, rdf_channels, List.flatMap_singleton]
    funext field
    rw [Format.feed, hchannel]
    cases field
    all_goals
      simp +decide [rdfFeedFields, rdfChannelOf, one, first_el, value_el, filled_val,
        Feed.fields, Format.keepFeed]
  articles := by
    have hitems : Format.rdf.items (Format.rdf.write f) = f.articles.map rdfItemOf := rdf_items f
    rw [Format.articles, hitems, List.map_map]
    exact List.map_congr_left fun a _ => rdf_article a

theorem publishes (format : Format) (f : Feed) : Publishes format f := by
  cases format with
  | rss20 => exact publishes_rss20 f
  | rss09 => exact publishes_rss09 f
  | atom10 => exact publishes_atom10 f
  | atom03 => exact publishes_atom03 f
  | rdf => exact publishes_rdf f

/-! ## Storing it -/

/-- Date texts that are parsed alike store the same. -/
theorem completed_fields_congr
    {zone : Zone} {s s' : CStr} (h : ∀ tp, strptime s tp = strptime s' tp) (a : Article) (tp : Tm)
    (uid : CStr) :
    completed (glibc zone) tp uid (a.fields s) = completed (glibc zone) tp uid (a.fields s') := by
  have htp : (glibc zone).strptime s tp = (glibc zone).strptime s' tp := congrArg Prod.fst (h tp)
  funext f
  cases f with
  | pdate =>
      simp only [completed, Article.fields, htp]
      rfl
  | _ => rfl

section Store

variable (zone : Zone) (retention : ℤ) (env : RefreshEnv) (url : CStr) (db : Db) (format : Format)
  (f : Feed)

/-- A written feed is stored as what its format keeps of it. -/
theorem refresh_written :
    xmlprocUpdateCache ⟨retention, glibc zone⟩ ⟨url, xmlprocTransform (format.write f), env⟩ db =
      let after := publish ⟨retention, glibc zone⟩ env url (format.keepFeed f).fields
        ((format.keepFeed f).articles.map fun a => a.fields a.date.text) db
      (after, decide (toInt (getNumUnread db) < toInt (getNumUnread after))) := by
  have h := publishes format f
  have hrows : ((f.articles.map fun a => (format.keep a).fields (format.dateText a)).zipIdx.map
        fun x => completed (glibc zone) (env.tp x.2) (env.uid x.2) x.1) =
      ((format.keepFeed f).articles.map fun a => a.fields a.date.text).zipIdx.map fun x =>
        completed (glibc zone) (env.tp x.2) (env.uid x.2) x.1 := by
    rw [Format.keepFeed, List.map_map, List.zipIdx_map, List.zipIdx_map, List.map_map,
      List.map_map]
    exact List.map_congr_left fun x _ =>
      completed_fields_congr (strptime_dateText format x.1) _ _ _
  rw [refresh_publishes _ env url db h.regular, h.sheet, if_pos h.knows, h.feed, h.articles]
  simp only [publish, hrows]
  rfl

/-- In whatever format a feed is published, it is stored as if it were published
in RSS 2.0, with what the format keeps of it: an id of its own only where there is
one, no zones but in RSS, the tens of the seconds in Atom 1.0, and dates and no
authors in RDF. -/
theorem formats_agree :
    xmlprocUpdateCache ⟨retention, glibc zone⟩ ⟨url, xmlprocTransform (format.write f), env⟩ db =
      xmlprocUpdateCache ⟨retention, glibc zone⟩
        ⟨url, xmlprocTransform (Format.rss20.write (format.keepFeed f)), env⟩ db := by
  have hrss : Format.rss20.keepFeed (format.keepFeed f) = format.keepFeed f := by
    have hkeep : Format.keep .rss20 = id := rfl
    rw [Format.keepFeed, hkeep, List.map_id, if_neg (by decide)]
  rw [refresh_written, refresh_written, hrss]

end Store

end Xsl
end Newsbaoter
