import Newsbaoter.Cache.Contents
import Newsbaoter.Pager.Page
import Newsbaoter.Xsl.Republished

/-!
# From a feed to the pager

An article of a feed goes through a stylesheet, the parser of its date, the cache
and the view of SQLite before it is read.  The page has what the format keeps of
it, and its date as if it were written in the zone of the host.
-/

namespace Newsbaoter
namespace Pager

open Newsbaoter.Cache (Body Db Entries Entry EntryField Integrity Record RefreshEnv edition record
  records xmlprocUpdateCache)
open Newsbaoter.Dates (Stamp Zone glibc storedDate)
open Newsbaoter.Xsl (Article Feed Format completed completed_fields_congr publishes
  records_of_reads strptime_dateText transformed xmlprocTransform)

/-! ## The page of an article -/

/-- The page of an article that is dated `shown`. -/
def articlePage (htmlPager : ℤ) (a : Article) (shown : Stamp) : CStr :=
  line htmlPager (ascii "Title") a.title ++ line htmlPager (ascii "Date") (dateTime shown) ++
    line htmlPager (ascii "URL") (linkText htmlPager a.link) ++
    (match a.author with
      | some author => line htmlPager (ascii "AuthorEmail") author
      | none => []) ++
    line htmlPager (ascii "Content") a.content

/-- What an entry has of an article, but for its ids and marks. -/
structure Holds (a : Article) (shown : Stamp) (e : Entry) : Prop where
  title : e.title = some a.title.val
  pubDate : e.pubDate = shown.civil
  url : e.url = some a.link.val
  authorName : e.authorName = none
  authorEmail : e.authorEmail = a.author.map Subtype.val
  description : e.description = none
  content : e.content = some a.content.val

theorem Holds.fieldText
    {a : Article} {shown : Stamp} {e : Entry} (h : Holds a shown e) (htmlPager : ℤ) :
    fieldText htmlPager .all e = articlePage htmlPager a shown ∧
      fieldText htmlPager .url e = a.link.val := by
  constructor
  · have hpage : Pager.fieldText htmlPager .all e =
        columnText htmlPager 2 (ascii "Title") e.title ++
          (columnText htmlPager 3 (ascii "Date") (datetime e.pubDate) ++
          (columnText htmlPager 4 (ascii "URL") e.url ++
          (columnText htmlPager 5 (ascii "AuthorName") e.authorName ++
          (columnText htmlPager 6 (ascii "AuthorEmail") e.authorEmail ++
          (columnText htmlPager 7 (ascii "Description") e.description ++
          (columnText htmlPager 8 (ascii "Content") e.content ++ [])))))) := rfl
    have hnone : ∀ i title, columnText htmlPager i title none = [] := fun _ _ => rfl
    rw [hpage, h.title, h.pubDate, datetime_civil, h.url, h.authorName, h.authorEmail,
      h.description, h.content, hnone, hnone, columnText_filled _ _ _ a.title.property,
      columnText_filled _ _ _ (dateTime_ne_nil shown), columnText_filled _ _ _ a.link.property,
      columnText_filled _ _ _ a.content.property, articlePage]
    cases a.author with
    | none =>
        simp only [Option.map_none, hnone, List.append_assoc, List.nil_append, List.append_nil]
        rfl
    | some author =>
        rw [Option.map_some, columnText_filled _ _ _ author.property]
        simp only [List.append_assoc, List.nil_append, List.append_nil]
        rfl
  · have hraw : Pager.fieldText htmlPager .url e = e.url.getD [] ++ [] := rfl
    rw [hraw, h.url, List.append_nil, Option.getD_some]

/-! ## Into the cache -/

/-- A written feed becomes records of what its format keeps. -/
theorem records_written (zone : Zone) (env : RefreshEnv) (format : Format) (f : Feed) :
    ∃ kids, xmlprocTransform (format.write f) = some kids ∧
      records (glibc zone) env kids = (format.keepFeed f).articles.zipIdx.map fun x =>
        completed (glibc zone) (env.tp x.2) (env.uid x.2) (x.1.fields x.1.date.text) := by
  have h := publishes format f
  have htransformed := transformed h.regular
  rw [h.sheet] at htransformed
  obtain ⟨kids, htransform, hreads⟩ := htransformed.known h.knows
  refine ⟨kids, htransform, ?_⟩
  rw [records_of_reads hreads, h.articles, Format.keepFeed, List.zipIdx_map, List.zipIdx_map,
    List.map_map, List.map_map]
  exact List.map_congr_left fun x _ =>
    completed_fields_congr (strptime_dateText format x.1) _ _ _

/-- The last of some upserts with its key is what the key has. -/
theorem upserts_of_last
    {κ : Type*} [DecidableEq κ] (E : Entries κ) (front : List (Record κ)) (r : Record κ)
    {back : List (Record κ)} (hback : ∀ r' ∈ back, r'.1 ≠ r.1) :
    E.upserts (front ++ r :: back) r.1 = some (r.2.over (E.upserts front r.1)) := by
  have hkeeps : ∀ E : Entries κ, E.upserts back r.1 = E r.1 := by
    induction back with
    | nil => exact fun _ => rfl
    | cons r' back ih =>
        intro E
        rw [Entries.upserts, List.foldl_cons, ← Entries.upserts,
          ih fun r'' hr'' => hback r'' (List.mem_cons_of_mem r' hr'')]
        exact Function.update_of_ne (hback r' List.mem_cons_self).symm _ _
  have hsplit : E.upserts (front ++ r :: back) =
      ((E.upserts front).upsert r).upserts back := by
    simp only [Entries.upserts, List.foldl_append, List.foldl_cons]
  rw [hsplit, hkeeps]
  exact Function.update_self _ _ _

/-- The instant that is stored of a date: the time of day is taken for a local one. -/
def ShownAs (zone : Zone) (isdst : ℤ) (date shown : Stamp) : Prop :=
  shown.civil = date.civil - zone.offset date.civil isdst

section Store

variable (zone : Zone) (retention : ℤ) (env : RefreshEnv) (url : CStr) {db : Db} (format : Format)
  (f : Feed)

/-- The array `ei` of the article at index `i`. -/
def articleData (i : ℕ) (a : Article) : EntryField → Option CStr :=
  completed (glibc zone) (env.tp i) (env.uid i) (a.fields a.date.text)

theorem holds_of_body
    {env} {i : ℕ} {a : Article} {shown : Stamp} {e : Entry} {old : Option (Body CStr)}
    (hbody : e.body id = (record id (articleData zone env i a)).2.over old)
    (hshown : ShownAs zone (env.tp i).isdst a.date shown)
    (hfits : -2 ^ 31 ≤ shown.civil ∧ shown.civil < 2 ^ 31) :
    Holds a shown e := by
  have hpubDate : articleData zone env i a .pdate =
      some (Dates.strftime zone (Dates.strptime a.date.text (env.tp i)).1) := by
    simp only [articleData, completed, Article.fields, Option.map_some, Option.some_or]
    rfl
  have hstored : storedDate zone a.date.text (env.tp i) = shown.civil := by
    rw [Dates.storedDate_of_readCivil a.date.readCivil_text, ← hshown,
      toInt_of_fits hfits.1 hfits.2]
  simp only [Entry.body, record, Body.over, Body.mk.injEq, hpubDate, Option.map_id_fun,
    id_eq] at hbody
  obtain ⟨-, hdate, -, htitle, hurl, hname, hemail, hdesc, hcontent, -⟩ := hbody
  exact ⟨htitle, hdate.trans hstored, hurl, hname, hemail, hdesc, hcontent⟩

/-- What the key of an article has after the upserts. -/
theorem upserts_articles
    {i : ℕ} {a : Article} (E : Entries CStr) {articles : List Article}
    (ha : articles[i]? = some a)
    (hlast : ∀ j b, i < j → articles[j]? = some b → b.id ≠ a.id) :
    ∃ old, E.upserts ((articles.zipIdx.map fun x => articleData zone env x.2 x.1).map (record id))
      (some a.id.val) = some ((record id (articleData zone env i a)).2.over old) := by
  set recs := (articles.zipIdx.map fun x => articleData zone env x.2 x.1).map (record id)
  have hget : ∀ j, recs[j]? = articles[j]?.map fun b => record id (articleData zone env j b) := by
    intro j
    rw [List.getElem?_map, List.getElem?_map, List.getElem?_zipIdx, Option.map_map, Option.map_map,
      Nat.zero_add]
    rfl
  have hrec := hget i
  rw [ha, Option.map_some] at hrec
  obtain ⟨hi, hrec⟩ := List.getElem?_eq_some_iff.mp hrec
  have hback : ∀ r' ∈ recs.drop (i + 1), r'.1 ≠ (record id (articleData zone env i a)).1 := by
    intro r' hr'
    obtain ⟨k, hk⟩ := List.getElem?_of_mem hr'
    rw [List.getElem?_drop, hget] at hk
    obtain ⟨b, hb, rfl⟩ := Option.map_eq_some_iff.mp hk
    intro hkey
    exact hlast _ b (by omega) hb (Subtype.ext (Option.some.inj hkey))
  have hsplit : recs = recs.take i ++ record id (articleData zone env i a) :: recs.drop (i + 1) := by
    rw [← hrec, List.getElem_cons_drop, List.take_append_drop]
  rw [hsplit]
  exact ⟨_, upserts_of_last E _ (record id (articleData zone env i a)) hback⟩

/-- Once a feed is fetched, the last of its articles with an id is an entry of the
feed, which is piped as what the format keeps of the article, under the date that
its date would be if it were written in the local zone. -/
theorem published_is_piped
    (hdb : Integrity db) {i : ℕ} {a : Article} {shown : Stamp}
    (ha : (format.keepFeed f).articles[i]? = some a)
    (hlast : ∀ j b, i < j → (format.keepFeed f).articles[j]? = some b → b.id ≠ a.id)
    (hshown : ShownAs zone (env.tp i).isdst a.date shown)
    (hfits : -2 ^ 31 ≤ shown.civil ∧ shown.civil < 2 ^ 31) :
    let after := (xmlprocUpdateCache ⟨retention, glibc zone⟩
      ⟨url, xmlprocTransform (format.write f), env⟩ db).1
    ∃ feed ∈ after.feed.rows, feed.url = some url ∧
      ∃ e ∈ after.entry.rows, e.feedID = feed.feedID ∧ e.uniqueId = some a.id.val ∧
        ∀ htmlPager, fieldText htmlPager .all e = articlePage htmlPager a shown ∧
          fieldText htmlPager .url e = a.link.val := by
  obtain ⟨kids, htransform, hrecords⟩ := records_written zone env format f
  have hentries := Cache.entries_refresh ⟨retention, glibc zone⟩ Function.injective_id hdb
    (r := ⟨url, xmlprocTransform (format.write f), env⟩) htransform
  have hafter : Integrity (xmlprocUpdateCache ⟨retention, glibc zone⟩
      ⟨url, xmlprocTransform (format.write f), env⟩ db).1 := Cache.integrity_refresh hdb _
  obtain ⟨old, hupserts⟩ := upserts_articles zone env
    (Cache.entries id db (Cache.updateFeed url kids db).2).countDown ha hlast
  obtain ⟨feed, hfeed, hurl, hid⟩ := Cache.exists_feed_updateFeed url kids hdb.feeds
  have hkey : Cache.entries id (xmlprocUpdateCache ⟨retention, glibc zone⟩
      ⟨url, xmlprocTransform (format.write f), env⟩ db).1 (Cache.updateFeed url kids db).2
        (some a.id.val) = some ((record id (articleData zone env i a)).2.over old) := by
    have hrecs : (edition ⟨retention, glibc zone⟩ id
        ⟨url, xmlprocTransform (format.write f), env⟩ kids).records =
        ((format.keepFeed f).articles.zipIdx.map fun x => articleData zone env x.2 x.1).map
          (record id) := by
      rw [edition, hrecords]
      rfl
    rw [hentries, Entries.refreshed, hrecs, Entries.expire, hupserts, Option.filter_some, if_pos]
    rfl
  obtain ⟨e, he, hbody⟩ := Option.map_eq_some_iff.mp hkey
  obtain ⟨hmem, hfeedID, huid⟩ :=
    (Cache.entryAt_eq_some_iff Function.injective_id hafter.entries).mp he
  rw [Option.map_id_fun, id] at huid
  refine ⟨feed, ?_, hurl, e, hmem, hfeedID.trans hid.symm, huid, ?_⟩
  · rw [Cache.refresh_feed _ htransform]
    exact hfeed
  · exact (holds_of_body zone hbody hshown hfits).fieldText

end Store

/-- A host whose zone takes nothing off, whatever `tm_isdst`, shows the date and
time of a feed as they are written. -/
theorem fair_is_piped :
    let env : RefreshEnv := ⟨0, fun _ => Cache.blankTm, fun _ => ascii "A"⟩
    let after := (xmlprocUpdateCache ⟨0, glibc (Dates.fixedZone 0 (by decide))⟩
      ⟨ascii "http://example/feed", xmlprocTransform (Format.rss20.write Xsl.summerFeed), env⟩
      Cache.emptyDb).1
    ∃ feed ∈ after.feed.rows, feed.url = some (ascii "http://example/feed") ∧
      ∃ e ∈ after.entry.rows, e.feedID = feed.feedID ∧ e.uniqueId = some (ascii "tag:1") ∧
        ∀ htmlPager, fieldText htmlPager .all e =
            articlePage htmlPager (Xsl.summerFeed.articles.head (by decide)) Dates.summerNoon ∧
          fieldText htmlPager .url e = ascii "http://example/fair" :=
  published_is_piped _ 0 _ _ .rss20 Xsl.summerFeed Cache.integrity_emptyDb (i := 0) rfl
    (fun j b hj hb => by
      obtain ⟨k, rfl⟩ := Nat.exists_eq_add_of_lt hj
      cases hb)
    (Int.sub_zero _).symm (by decide)

example :
    articlePage 0 (Xsl.summerFeed.articles.head (by decide)) Dates.summerNoon =
      ascii "Title: Fair\nDate: 2024-06-01 12:00:00\n" ++
        ascii "URL: http://example/fair\nContent: The fair is on.\n" := by
  decide

end Pager
end Newsbaoter
