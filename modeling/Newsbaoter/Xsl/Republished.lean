import Newsbaoter.Cache.Repeat
import Newsbaoter.Xsl.Formats

/-!
# A feed that is published again

A feed may be published again, with other articles and even in another format:
what the cache has of it goes by the ids that the formats keep.
-/

namespace Newsbaoter
namespace Xsl

open Newsbaoter.Cache (AddsNothing Config HasEntry Integrity Op RefreshEnv XmlNode getNumUnread
  records run updateFeed xmlprocUpdateCache)

/-! ## The ids of a written feed -/

/-- The records that a written feed becomes have the ids its format keeps. -/
theorem ids_written (format : Format) (f : Feed) :
    ∃ kids, xmlprocTransform (format.write f) = some kids ∧
      ∀ time env, ((records time env kids).map fun d => d .uid) =
        f.articles.map fun a => some (format.keep a).id.val := by
  have h := publishes format f
  have htransformed := transformed h.regular
  rw [h.sheet] at htransformed
  obtain ⟨kids, htransform, hreads⟩ := htransformed.known h.knows
  refine ⟨kids, htransform, fun time env => ?_⟩
  rw [records_of_reads hreads, h.articles, List.zipIdx_map, List.map_map, List.map_map]
  calc
    _ = f.articles.zipIdx.map ((fun a => some (format.keep a).id.val) ∘ Prod.fst) :=
      List.map_congr_left fun _ _ => rfl
    _ = _ := by rw [← List.map_map, List.zipIdx_map_fst]

/-! ## Publishing again -/

/-- A later document all of whose ids the earlier one had adds nothing. -/
theorem addsNothing_of_ids
    {config : Config} {db : Cache.Db} (h : Integrity db) {r r' : Cache.Refresh}
    {kids kids' : List XmlNode} (hdoc : r.doc = some kids) (hdoc' : r'.doc = some kids')
    (hurl : r'.url = r.url)
    (hids : ∀ d' ∈ records config.time r'.env kids',
      ∃ d ∈ records config.time r.env kids, d .uid = d' .uid) :
    AddsNothing config r' (xmlprocUpdateCache config r db).1 := by
  have hintegrity : Cache.Integrity (xmlprocUpdateCache config r db).1 :=
    Cache.integrity_refresh h r
  have hfeed : (updateFeed r'.url kids' (xmlprocUpdateCache config r db).1).2 =
      (updateFeed r.url kids db).2 := by
    obtain ⟨f, hf, hfurl, hid⟩ := Cache.exists_feed_updateFeed r.url kids h.feeds
    have hf' : f ∈ (xmlprocUpdateCache config r db).1.feed.rows := by
      rw [Cache.xmlprocUpdateCache_fst config hdoc, Cache.cacheCleanupOld,
        Cache.beforeDeletion_feed]
      exact hf
    rw [← hid, hurl]
    exact Cache.updateFeed_snd_of_mem _ _ hintegrity.feeds hf' hfurl
  have hhas : ∀ d' ∈ records config.time r'.env kids',
      HasEntry (xmlprocUpdateCache config r db).1 (updateFeed r.url kids db).2 (d' .uid) := by
    intro d' hd'
    obtain ⟨d, hd, huid⟩ := hids d' hd'
    exact Cache.hasEntry_refresh_of_mentioned h hdoc ⟨d, hd, huid⟩
  have hinit := Cache.integrity_cacheInitCleanup
    (Cache.integrity_updateFeed r'.url kids' hintegrity)
    (updateFeed r'.url kids' (xmlprocUpdateCache config r db).1).2
  rw [hfeed] at hinit
  have hnone := (Cache.inserted_eq_zero_iff (updateFeed r.url kids db).2
    (Cache.identified_records config.time r'.env kids') hinit.entries).mpr
      fun d' hd' => Cache.hasEntry_cacheInitCleanup.mpr (hhas d' hd')
  have hunread : getNumUnread (xmlprocUpdateCache config r'
      (xmlprocUpdateCache config r db).1).1 = getNumUnread (xmlprocUpdateCache config r db).1 := by
    rw [Cache.getNumUnread_refresh config hdoc', hfeed, hnone, Nat.add_zero]
  refine ⟨fun x hx => ?_, hunread.le, ?_⟩
  · rcases Cache.origin_of_mem_refresh hintegrity hdoc' hx with hold | ⟨-, hmention, hnew⟩
    · obtain ⟨e, he, hid, -⟩ := hold
      exact ⟨e, he, hid⟩
    · obtain ⟨d', hd', huid⟩ := hmention
      rw [hfeed, ← huid] at hnew
      exact absurd (hhas d' hd') hnew
  · rw [Bool.eq_false_iff]
    intro hreported
    rw [Cache.xmlprocUpdateCache_snd config hdoc', hunread] at hreported
    exact absurd hreported (Int.lt_irrefl _)

/-- Whatever the cache has been through, once a feed has been fetched in one format,
fetching it in any format adds nothing and reports nothing, as long as the ids of
its articles are ones that the first format has kept. -/
theorem republished_addsNothing
    (config : Config) (ops : List Op) (url : CStr) (env env' : RefreshEnv)
    (format format' : Format) (f f' : Feed)
    (hids : ∀ a' ∈ f'.articles, ∃ a ∈ f.articles, (format.keep a).id = (format'.keep a').id) :
    AddsNothing config ⟨url, xmlprocTransform (format'.write f'), env'⟩
      (run config (ops ++ [.refresh ⟨url, xmlprocTransform (format.write f), env⟩])) := by
  obtain ⟨kids, htransform, hwritten⟩ := ids_written format f
  obtain ⟨kids', htransform', hwritten'⟩ := ids_written format' f'
  have hrecords : ∀ d' ∈ records config.time env' kids',
      ∃ d ∈ records config.time env kids, d .uid = d' .uid := by
    intro d' hd'
    have hmem' : d' .uid ∈ (records config.time env' kids').map fun d => d .uid :=
      List.mem_map_of_mem hd'
    rw [hwritten'] at hmem'
    obtain ⟨a', ha', huid'⟩ := List.mem_map.mp hmem'
    obtain ⟨a, ha, hid⟩ := hids a' ha'
    have hmem : d' .uid ∈ (records config.time env kids).map fun d => d .uid := by
      rw [hwritten, ← huid', ← hid]
      exact List.mem_map_of_mem ha
    obtain ⟨d, hd, huid⟩ := List.mem_map.mp hmem
    exact ⟨d, hd, huid⟩
  rw [Cache.run_concat]
  exact addsNothing_of_ids (r := ⟨url, xmlprocTransform (format.write f), env⟩)
    (Cache.integrity_run config ops) htransform htransform' rfl hrecords

/-- A feed of one article. -/
def summerFeed : Feed where
  title := ⟨ascii "News", by decide⟩
  description := ⟨ascii "Town news", by decide⟩
  editor := none
  articles := [
    { title := ⟨ascii "Fair", by decide⟩
      link := ⟨ascii "http://example/fair", by decide⟩
      id := ⟨ascii "tag:1", by decide⟩
      author := none
      content := ⟨ascii "The fair is on.", by decide⟩
      date := Dates.summerNoon }]

theorem summerFeed_addsNothing :
    AddsNothing Cache.datelessConfig
      ⟨ascii "http://example/feed", xmlprocTransform (Format.atom10.write summerFeed),
        ⟨0, fun _ => Cache.blankTm, fun _ => ascii "B"⟩⟩
      (run Cache.datelessConfig ([] ++ [.refresh
        ⟨ascii "http://example/feed", xmlprocTransform (Format.rss20.write summerFeed),
          ⟨0, fun _ => Cache.blankTm, fun _ => ascii "A"⟩⟩])) :=
  republished_addsNothing Cache.datelessConfig [] _ _ _ .rss20 .atom10 summerFeed summerFeed
    fun a ha => ⟨a, ha, rfl⟩

end Xsl
end Newsbaoter
