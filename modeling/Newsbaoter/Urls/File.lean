import Newsbaoter.Config.Delivery
import Newsbaoter.Fetch.Coverage
import Newsbaoter.Urls.Tags

/-!
# From the file to the requests

A file of lines that each begin with a URL is read as it was written, however
`read` cuts it, and each of its lines is requested in every cycle that ends.
-/

namespace Newsbaoter
namespace Urls

open Newsbaoter.Support
open Config (isBlank Conf Chunk content readLines lines lineWords getLineWord Newlines Terminated
  BlankRead)
open Fetch (Host httpInit EndsAt calls attempts)
open Hash (initialLoctabSize)

/-! ## Writing a file -/

/-- The line has the words, with any blanks behind each of them. -/
structure Spells (line : CStr) (l : UrlLine) : Prop where
  words : fields isBlank line = l.url :: l.tags
  front : ∀ b ∈ line.head?, isBlank b = false
  newline : 10 ∉ line
  nul : 0 ∉ line

/-- A file of complete lines. -/
def fileOf (ls : List CStr) : CStr :=
  ls.flatMap fun line => line ++ [10]

theorem fileOf_cons (line : CStr) (ls : List CStr) :
    fileOf (line :: ls) = [] ++ line ++ 10 :: fileOf ls := by
  simp [fileOf]

theorem Spells.ne_nil {line : CStr} {l : UrlLine} (h : Spells line l) : line ≠ [] := by
  rintro rfl
  exact List.cons_ne_nil _ _ h.words.symm

theorem Spells.getLineWord_eq {line : CStr} {l : UrlLine} (h : Spells line l) :
    ∃ next, getLineWord line = some (l.url, next) ∧ lineWords next = l.tags := by
  rcases hword : getLineWord line with - | ⟨v, next⟩
  · exact absurd (Config.getLineWord_eq_none_iff.mp hword) h.ne_nil
  · have hwords := Config.lineWords_eq_fields h.front
    rw [Config.lineWords_cons hword, h.words, List.cons.injEq] at hwords
    exact ⟨next, by rw [hwords.1], hwords.2⟩

theorem urlLines_of_spells {ls : List CStr} {es : List UrlLine} (h : List.Forall₂ Spells ls es) :
    urlLines ls = es := by
  induction h with
  | nil => rfl
  | cons hline _ ih =>
      obtain ⟨next, hword, htags⟩ := hline.getLineWord_eq
      rw [urlLines, hword]
      dsimp only
      rw [htags, ih]

section Spelled

variable {ls : List CStr} {es : List UrlLine}

theorem lines_fileOf (h : List.Forall₂ Spells ls es) : lines (fileOf ls) = ls := by
  induction h with
  | nil => rfl
  | cons hline _ ih =>
      rw [fileOf_cons, Config.lines_cons _ (by simp [Newlines]) hline.newline hline.ne_nil, ih]

theorem terminated_fileOf (ls : List CStr) : Terminated (fileOf ls) := by
  induction ls with
  | nil => exact fun b hb => by cases hb
  | cons line ls ih =>
      rw [fileOf_cons, Config.terminated_append_cons]
      exact ih

theorem nul_notMem_fileOf (h : List.Forall₂ Spells ls es) : 0 ∉ fileOf ls := by
  induction h with
  | nil => exact List.not_mem_nil
  | cons hline _ ih =>
      rw [fileOf_cons, List.nil_append, List.mem_append, List.mem_cons, not_or, not_or]
      exact ⟨hline.nul, by decide, ih⟩

/-- No empty line, so no part of the file is complete lines with newlines behind
them. -/
theorem fileOf_no_blank
    (h : List.Forall₂ Spells ls es) {front back : CStr} (hsplit : front ++ back = fileOf ls)
    (hfront : Terminated front) (hback : Newlines back) : back = [] := by
  induction h generalizing front with
  | nil => exact (List.append_eq_nil_iff.mp hsplit).2
  | cons hline _ ih =>
      rw [fileOf_cons] at hsplit
      rcases Config.line_of_append (by simp [Newlines]) hline.newline hsplit with
        ⟨rest₁, hfront', hrest⟩ | ⟨skipped₁, piece, skipped₂, hfront', hskipped₁, hpiece, hmore, -⟩
      · rw [hfront', Config.terminated_append_cons] at hfront
        exact ih hrest.symm hfront
      · -- the front ends before the line does, so all of the line is behind it
        rw [hfront', Config.terminated_append_of_newlines hskipped₁] at hfront
        rw [Config.eq_nil_of_terminated hfront hpiece, List.nil_append] at hmore
        obtain ⟨b, bs, hcons⟩ := List.exists_cons_of_ne_nil hline.ne_nil
        have hb : b = 10 := hback b (by simp [hmore, hcons])
        exact absurd (by simp [hcons, hb]) hline.newline

theorem not_blankRead
    (h : List.Forall₂ Spells ls es) {chunks : List Chunk} (hchunks : content chunks = fileOf ls) :
    ¬BlankRead [] chunks := by
  rintro ⟨init, last, rfl, hlast, hinit⟩
  rw [Config.content_append, Config.content_cons] at hchunks
  have hempty : content [] = [] := rfl
  rw [hempty, List.append_nil] at hchunks
  exact last.nonempty (fileOf_no_blank h hchunks hinit hlast)

/-- The file is read as it was written. -/
theorem readLines_fileOf
    (h : List.Forall₂ Spells ls es) (scribble : ℕ → ℕ → UInt8) (garbage : ℕ → UInt8)
    {chunks : List Chunk} (hchunks : content chunks = fileOf ls) {rounds : ℕ}
    (hrounds : (fileOf ls).length + 1 < rounds) :
    readLines scribble rounds 0 (Conf.fresh garbage) chunks = .error .oversize ∨
      readLines scribble rounds 0 (Conf.fresh garbage) chunks = .ok ls := by
  have hread := Config.readLines_eq_lines_iff scribble garbage chunks
    (hchunks ▸ terminated_fileOf ls) (hchunks ▸ nul_notMem_fileOf h) (hchunks ▸ hrounds)
  rw [hchunks, lines_fileOf h] at hread
  refine hread.imp_right ?_
  rintro ⟨out, hout, hiff⟩
  rw [hout, hiff.mpr (not_blankRead h hchunks)]

/-! ## The requests -/

/-- A line of the file is in the index of its tags. -/
theorem mem_taggedLines {n : ℕ} {l : UrlLine} (hn : es[n]? = some l) {tag : CStr}
    (htag : tag ∈ l.tags) : tag ∈ tagNames es ∧ n ∈ taggedLines es tag := by
  constructor
  · rw [tagNames, List.mem_toFinset, List.mem_flatMap]
    exact ⟨l, List.mem_of_getElem? hn, htag⟩
  · rw [taggedLines, List.mem_reverse, List.mem_flatMap]
    refine ⟨(l, n), List.mem_zipIdx_iff_getElem?.mpr hn, ?_⟩
    rw [List.mem_replicate]
    exact ⟨fun hzero => (List.count_pos_iff.mpr htag).ne' hzero, rfl⟩

/-- The list has one item for each line, the last line first; the item is found
by the tags of its line, and is requested in each cycle that ends. -/
def Requests (config : Fetch.Config) (es : List UrlLine) (s : UrlTags) : Prop :=
  s.urls.length = es.length ∧
    ∀ n l, es[n]? = some l →
      s.urls[es.length - 1 - n]? = some { url := l.url, nHttperr := -1 } ∧
      (∀ tag ∈ l.tags, ∃ items, getUrltag tag s = some (some items) ∧ n ∈ items) ∧
      ∀ (host : Host) db k,
        EndsAt config host (httpInit (s.urls.map Fetch.UrlItem.url) db) k →
        0 < attempts (es.length - 1 - n)
          (calls config host (httpInit (s.urls.map Fetch.UrlItem.url) db) (k + 1)).log

/-- However a file is cut into reads: where its lines begin with a URL and have
no more than 32 tags, and a reload may use a thread and try a feed once, all its
lines are requested. -/
theorem urls_file_requested
    (h : List.Forall₂ Spells ls es) (htags : (tagNames es).card ≤ initialLoctabSize)
    (scribble : ℕ → ℕ → UInt8) (garbage : ℕ → UInt8) {chunks : List Chunk}
    (hchunks : content chunks = fileOf ls) {rounds : ℕ} (hrounds : (fileOf ls).length + 1 < rounds)
    {config : Fetch.Config} (hpar : 0 < config.parallelReload) (hR : 0 ≤ config.dlRetries) :
    readLines scribble rounds 0 (Conf.fresh garbage) chunks = .error .oversize ∨
      ∃ out s, readLines scribble rounds 0 (Conf.fresh garbage) chunks = .ok out ∧
        urlparse out = some s ∧ Requests config es s := by
  refine (readLines_fileOf h scribble garbage hchunks hrounds).imp_right fun hread => ?_
  obtain ⟨hfits, hspec⟩ := urlparse_spec ls
  rw [urlLines_of_spells h] at hfits hspec
  obtain ⟨s, hs⟩ := Option.isSome_iff_exists.mp (hfits.mpr htags)
  obtain ⟨hurls, hindex⟩ := hspec s hs
  have hlength : s.urls.length = es.length := by
    rw [hurls, List.length_reverse, List.length_map]
  refine ⟨ls, s, hread, hs, hlength, fun n l hn => ⟨?_, ?_, ?_⟩⟩
  · have hlt := (List.getElem?_eq_some_iff.mp hn).1
    have hplace : es.length - 1 - (es.length - 1 - n) = n := by omega
    rw [hurls, List.getElem?_reverse (by rw [List.length_map]; omega), List.length_map, hplace,
      List.getElem?_map, hn, Option.map_some]
  · intro tag htag
    obtain ⟨hname, hitem⟩ := mem_taggedLines hn htag
    exact ⟨_, by rw [hindex, if_pos hname], hitem⟩
  · intro host db k hends
    have hlt := (List.getElem?_eq_some_iff.mp hn).1
    apply Fetch.covers_of_dlRetries_nonneg (by rfl) (by rfl) hpar hR k hends
    rw [httpInit, List.length_map, List.length_map, hlength]
    omega

end Spelled

/-- Two feeds, the first with two tags. -/
def twoLines : List CStr := [ascii "http://example/a news  fun", ascii "http://example/b"]

def twoLinesSaid : List UrlLine :=
  [⟨ascii "http://example/a", [ascii "news", ascii "fun"]⟩, ⟨ascii "http://example/b", []⟩]

theorem spells_twoLines : List.Forall₂ Spells twoLines twoLinesSaid :=
  .cons ⟨by decide, by rintro b ⟨⟩; rfl, by decide, by decide⟩
    (.cons ⟨by decide, by rintro b ⟨⟩; rfl, by decide, by decide⟩ .nil)

/-- The file as two reads that cut its second line. -/
def twoReads : List Chunk :=
  [⟨(fileOf twoLines).take 40, by decide⟩, ⟨(fileOf twoLines).drop 40, by decide⟩]

theorem readLines_twoReads :
    readLines (fun _ _ => 0) 60 0 (Conf.fresh fun _ => 7) twoReads = .ok twoLines := by
  rfl

theorem twoLines_requested :
    ∃ out s, readLines (fun _ _ => 0) 60 0 (Conf.fresh fun _ => 7) twoReads = .ok out ∧
      urlparse out = some s ∧ Requests ⟨1, 1, Fetch.plainCache⟩ twoLinesSaid s := by
  refine (urls_file_requested spells_twoLines (by decide) _ _ (by decide) (by decide) (by decide)
    (by decide)).resolve_left ?_
  rw [readLines_twoReads]
  exact fun hstop => nomatch hstop

end Urls
end Newsbaoter
