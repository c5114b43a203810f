import Newsbaoter.View.Multibyte
import Newsbaoter.View.RowText

/-!
# The text of an entry line

`entry_line_cb` puts its fields one behind the other, and the title of the feed
goes through a buffer of 256 bytes.  A longer title is cut there, perhaps within
a character, and the error that `mbstowcs` returns for that is added to the
offset.
-/

namespace Newsbaoter
namespace View

/-! ## The fields -/

/-- The characters of texts one behind the other. -/
def chars (loc : Locale) (ss : List CStr) : List TChar :=
  ss.flatMap fun s => (loc.decode s).1

/-- The number of the line, the mark and the date. -/
def entryHead (loc : Locale) (ind : ℕ) (row : EntryRow) : List CStr :=
  [indexText ind, ascii (if row.viewed = 0 then "N" else " "), loc.dayMonth row.pubDate]

/-- The title of a feed with its separator, in full. -/
def feedTitleField (title : Option CStr) : CStr :=
  title.getD (ascii "(null)") ++ ascii " | "

/-- The fields of the row. -/
def entryFields (loc : Locale) (ind : ℕ) (row : EntryRow) : List CStr :=
  entryHead loc ind row ++ (row.feedTitle.map feedTitleField).toList ++ [row.title.getD []]

/-- The texts that `entry_line_cb` appends for them. -/
def entryTexts (loc : Locale) (ind : ℕ) (row : EntryRow) : List CStr :=
  entryHead loc ind row ++ (row.feedTitle.map feedTitleText).toList ++ [row.title.getD []]

/-- The row and the offset after some texts. -/
def putTexts (loc : Locale) (line : ℤ) (len : ℕ) (ss : List CStr) (t : Cells × ℤ) : Cells × ℤ :=
  ss.foldl (fun t s => putText loc line len s t) t

theorem entryLineCb_body
    (loc : Locale) (len ind : ℕ) (row : EntryRow) (t : Lines) :
    (entryLineCb loc len ind row t).body =
      (putTexts loc (lineAt len ind) len (entryTexts loc ind row) (t.body, 0)).1 := by
  rw [entryLineCb, entryTexts]
  cases row.feedTitle with
  | none => rfl
  | some title => rfl

/-- Whatever there was, the row is the concatenation of the fields, cropped, and
after each field the offset is the number of characters so far. -/
structure Spells (loc : Locale) (len ind : ℕ) (row : EntryRow) : Prop where
  body : ∀ t : Lines, (entryLineCb loc len ind row t).body =
    store t.body (lineAt len ind) (crop len (chars loc (entryFields loc ind row)))
  off : ∀ (t : Lines) (n : ℕ),
    (putTexts loc (lineAt len ind) len ((entryTexts loc ind row).take n) (t.body, 0)).2 =
      (min len (chars loc ((entryFields loc ind row).take n)).length : ℕ)

/-! ## Valid texts -/

theorem Typed.putTexts
    {mem : Cells} {line : ℤ} {len : ℕ} {cs : List TChar} {t : Cells × ℤ}
    (h : Typed mem line len cs t) {loc : Locale} {ss : List CStr}
    (hvalid : ∀ s ∈ ss, (loc.decode s).2 = true) :
    Typed mem line len (cs ++ chars loc ss) (putTexts loc line len ss t) := by
  induction ss generalizing cs t with
  | nil =>
      rw [chars, List.flatMap_nil, List.append_nil]
      exact h
  | cons s ss ih =>
      have hfirst := h.putText (hvalid s List.mem_cons_self)
      have hrest := ih hfirst fun s hs => hvalid s (List.mem_cons_of_mem _ hs)
      rwa [List.append_assoc] at hrest

theorem typed_putTexts
    {loc : Locale} {s : CStr} {ss : List CStr} (hvalid : ∀ u ∈ s :: ss, (loc.decode u).2 = true)
    (mem : Cells) (line : ℤ) (len : ℕ) :
    Typed mem line len (chars loc (s :: ss)) (putTexts loc line len (s :: ss) (mem, 0)) := by
  have hfirst := typed_first (hvalid s List.mem_cons_self) mem line len
  exact hfirst.putTexts fun u hu => hvalid u (List.mem_cons_of_mem _ hu)

theorem chars_append (loc : Locale) (ss us : List CStr) :
    chars loc (ss ++ us) = chars loc ss ++ chars loc us :=
  List.flatMap_append

theorem chars_singleton (loc : Locale) (s : CStr) : chars loc [s] = (loc.decode s).1 :=
  List.flatMap_singleton _ _

theorem valid_of_ascii {loc : Locale} {s : CStr} (h : ∀ b ∈ s, b < 128) :
    (loc.decode s).2 = true := by
  rw [loc.decode_ascii s h]

theorem Multibyte.valid_head
    {loc : Locale} (h : Multibyte loc) (ind : ℕ) (row : EntryRow) :
    ∀ s ∈ entryHead loc ind row, (loc.decode s).2 = true := by
  intro s hs
  rw [entryHead, List.mem_cons, List.mem_cons, List.mem_singleton] at hs
  rcases hs with rfl | rfl | rfl
  · exact valid_of_ascii (ascii_indexText ind)
  · exact valid_of_ascii (ascii_flag (row.viewed = 0))
  · exact h.dayMonth row.pubDate

theorem Multibyte.valid_feedTitleField
    {loc : Locale} (h : Multibyte loc) {title : Option CStr}
    (htitle : ∀ s, title = some s → (loc.decode s).2 = true) :
    (loc.decode (feedTitleField title)).2 = true := by
  have hseparator : (loc.decode (ascii " | ")).2 = true :=
    valid_of_ascii (lt_of_all_ascii (by decide))
  have hname : (loc.decode (title.getD (ascii "(null)"))).2 = true := by
    cases title with
    | none => exact valid_of_ascii (lt_of_all_ascii (by decide))
    | some s => exact htitle s rfl
  rw [feedTitleField, h.append _ _ hname]
  exact hseparator

/-- A valid text that is cut at the end of a character has lost one. -/
theorem Multibyte.length_decode_take_lt
    {loc : Locale} (h : Multibyte loc) {s : CStr} {n : ℕ} (hvalid : (loc.decode s).2 = true)
    (hn : n < s.length) (hcut : (loc.decode (s.take n)).2 = true) :
    (loc.decode (s.take n)).1.length < (loc.decode s).1.length := by
  have hsplit := h.append (s.take n) (s.drop n) hcut
  rw [List.take_append_drop] at hsplit
  have hrest : (loc.decode (s.drop n)).1 ≠ [] := by
    apply h.ne_nil
    · rw [hsplit] at hvalid
      exact hvalid
    · rw [Ne, List.drop_eq_nil_iff]
      omega
  rw [hsplit, List.length_append]
  exact Nat.lt_add_of_pos_right (List.length_pos_iff.mpr hrest)

/-! ## The buffer -/

/-- The title of the feed and its separator go through the buffer whole, or what
is cut off has no room in the row. -/
def TitleFits (loc : Locale) (len ind : ℕ) (row : EntryRow) : Prop :=
  ∀ title, row.feedTitle = some title →
    (feedTitleField title).length ≤ 255 ∨
      len ≤ (chars loc (entryHead loc ind row)).length +
        (loc.decode ((feedTitleField title).take 255)).1.length

/-- It is enough to look at the row and the offset after each text. -/
theorem spells_of_typed
    {loc : Locale} {len ind : ℕ} {row : EntryRow}
    (h : ∀ (mem : Cells) (n : ℕ),
      Typed mem (lineAt len ind) len (chars loc ((entryFields loc ind row).take (n + 1)))
        (putTexts loc (lineAt len ind) len ((entryTexts loc ind row).take (n + 1)) (mem, 0))) :
    Spells loc len ind row where
  body := by
    intro t
    have hlength : (entryFields loc ind row).length ≤ 4 + 1 := by
      rw [entryFields]
      cases row.feedTitle with
      | none => exact Nat.le_succ 4
      | some title => exact Nat.le_refl 5
    have hlength' : (entryTexts loc ind row).length ≤ 4 + 1 := by
      rw [entryTexts]
      cases row.feedTitle with
      | none => exact Nat.le_succ 4
      | some title => exact Nat.le_refl 5
    have hall := (h t.body 4).cells
    rw [List.take_of_length_le hlength, List.take_of_length_le hlength'] at hall
    rw [entryLineCb_body]
    exact hall
  off := by
    intro t n
    cases n with
    | zero =>
        rw [List.take_zero, List.take_zero, chars, List.flatMap_nil, List.length_nil, Nat.min_zero]
        rfl
    | succ n => exact (h t.body n).off

/-- Fields that are all appended as they are. -/
theorem spells_of_eq
    {loc : Locale} (len : ℕ) {ind : ℕ} {row : EntryRow}
    (hsame : entryTexts loc ind row = entryFields loc ind row)
    (hvalid : ∀ s ∈ entryFields loc ind row, (loc.decode s).2 = true) :
    Spells loc len ind row := by
  apply spells_of_typed
  intro mem n
  rw [hsame]
  have hfields : entryFields loc ind row = indexText ind :: (entryFields loc ind row).tail := rfl
  rw [hfields] at hvalid ⊢
  exact typed_putTexts (fun s hs => hvalid s (List.mem_of_mem_take (i := n + 1) hs)) mem _ len

/-- A title that is cut, but fills the row as far as it goes. -/
theorem spells_of_full
    {loc : Locale} (hloc : Multibyte loc) {len ind : ℕ} {row : EntryRow} {title : Option CStr}
    (hrow : row.feedTitle = some title) (hentry : (loc.decode (row.title.getD [])).2 = true)
    (hfeed : (loc.decode (feedTitleField title)).2 = true)
    (hfull : len ≤ (chars loc (entryHead loc ind row)).length +
      (loc.decode (feedTitleText title)).1.length) :
    Spells loc len ind row := by
  have hfields : entryFields loc ind row =
      entryHead loc ind row ++ [feedTitleField title] ++ [row.title.getD []] := by
    rw [entryFields, hrow]
    rfl
  have htexts : entryTexts loc ind row =
      entryHead loc ind row ++ [feedTitleText title] ++ [row.title.getD []] := by
    rw [entryTexts, hrow]
    rfl
  have hhead := hloc.valid_head ind row
  apply spells_of_typed
  intro mem n
  rw [hfields, htexts]
  have htyped : Typed mem (lineAt len ind) len
      (chars loc (entryHead loc ind row) ++ (loc.decode (feedTitleField title)).1)
      (putTexts loc (lineAt len ind) len (entryHead loc ind row ++ [feedTitleText title])
        (mem, 0)) :=
    (typed_putTexts hhead mem (lineAt len ind) len).putText_of_begin
      (hloc.take (feedTitleField title) 255 hfeed) hfull
  rw [← chars_singleton loc (feedTitleField title), ← chars_append] at htyped
  have hlast := htyped.putText hentry
  rw [← chars_singleton loc (row.title.getD []), ← chars_append] at hlast
  -- the head is as it is, the cut title is the fourth text, and behind it nothing matters
  rcases n with _ | _ | _ | _ | n
  · exact typed_putTexts (fun s hs => hhead s (List.mem_of_mem_take (i := 1) hs)) mem _ len
  · exact typed_putTexts (fun s hs => hhead s (List.mem_of_mem_take (i := 2) hs)) mem _ len
  · exact typed_putTexts hhead mem _ len
  · exact htyped
  · have hall : ∀ x y, (entryHead loc ind row ++ [x] ++ [y]).length ≤ n + 5 :=
      fun _ _ => Nat.le_add_left 5 n
    rw [List.take_of_length_le (hall _ _), List.take_of_length_le (hall _ _)]
    exact hlast

/-- A title that is cut where there is room leaves the offset wrong: it counts
the characters before the cut or, within a character, one less than nothing. -/
theorem not_spells_of_cut
    {loc : Locale} (hloc : Multibyte loc) {len ind : ℕ} {row : EntryRow} {title : Option CStr}
    (hrow : row.feedTitle = some title) (hfeed : (loc.decode (feedTitleField title)).2 = true)
    (hlong : 255 < (feedTitleField title).length)
    (hroom : (chars loc (entryHead loc ind row)).length +
      (loc.decode (feedTitleText title)).1.length < len) :
    ¬Spells loc len ind row := by
  intro hspells
  have hhead : Typed blankLines.body (lineAt len ind) len (chars loc (entryHead loc ind row))
      (putTexts loc (lineAt len ind) len (entryHead loc ind row) (blankLines.body, 0)) :=
    typed_putTexts (hloc.valid_head ind row) blankLines.body (lineAt len ind) len
  set head := entryHead loc ind row
  have hoff := hspells.off blankLines 4
  have htexts : (entryTexts loc ind row).take 4 = head ++ [feedTitleText title] := by
    rw [entryTexts, hrow]
    rfl
  have hfields : (entryFields loc ind row).take 4 = head ++ [feedTitleField title] := by
    rw [entryFields, hrow]
    rfl
  have hput : putTexts loc (lineAt len ind) len (head ++ [feedTitleText title])
      (blankLines.body, 0) =
      putText loc (lineAt len ind) len (feedTitleText title)
        (putTexts loc (lineAt len ind) len head (blankLines.body, 0)) :=
    List.foldl_append
  rw [htexts, hfields, chars_append, chars_singleton, List.length_append, hput,
    hhead.putText_eq, charsToWidechars_snd_of_lt (by omega)] at hoff
  dsimp only at hoff
  rw [hhead.off] at hoff
  split at hoff
  · next hcut =>
      have hfewer : (loc.decode (feedTitleText title)).1.length <
          (loc.decode (feedTitleField title)).1.length :=
        hloc.length_decode_take_lt hfeed hlong hcut
      omega
  · omega

/-- A row is spelled out just if the title of its feed fits. -/
theorem spells_iff
    {loc : Locale} (hloc : Multibyte loc) (len ind : ℕ) {row : EntryRow}
    (hentry : (loc.decode (row.title.getD [])).2 = true)
    (hfeed : ∀ title, row.feedTitle = some (some title) → (loc.decode title).2 = true) :
    Spells loc len ind row ↔ TitleFits loc len ind row := by
  have hvalid : ∀ title, row.feedTitle = some title →
      (loc.decode (feedTitleField title)).2 = true := by
    intro title hrow
    apply hloc.valid_feedTitleField
    rintro s rfl
    exact hfeed s hrow
  constructor
  · intro hspells title hrow
    by_contra hcut
    rw [not_or, not_le, not_le] at hcut
    exact not_spells_of_cut hloc hrow (hvalid title hrow) hcut.1 hcut.2 hspells
  · intro hfits
    by_cases hsame : entryTexts loc ind row = entryFields loc ind row
    · apply spells_of_eq len hsame
      intro s hs
      rw [entryFields, List.mem_append, List.mem_append, List.mem_singleton] at hs
      rcases hs with (hhead | hs) | rfl
      · exact hloc.valid_head ind row s hhead
      · rw [Option.mem_toList, Option.map_eq_some_iff] at hs
        obtain ⟨title, hrow, rfl⟩ := hs
        exact hvalid title hrow
      · exact hentry
    · cases hrow : row.feedTitle with
      | none =>
          rw [entryTexts, entryFields, hrow] at hsame
          exact absurd rfl hsame
      | some title =>
          refine spells_of_full hloc hrow hentry (hvalid title hrow) ?_
          refine (hfits title hrow).resolve_left fun hshort => hsame ?_
          have hwhole : feedTitleText title = feedTitleField title :=
            List.take_of_length_le hshort
          rw [entryTexts, entryFields, hrow, Option.map_some, Option.map_some, hwhole]

/-- A title that goes far beyond a row of 80 columns. -/
def longTitle : EntryRow where
  title := some (ascii "Entry")
  viewed := 0
  pubDate := 0
  entryID := 1
  feedTitle := some (some (List.replicate 300 65))

theorem long_title_cropped : Spells byteLocale 80 0 longTitle := by
  have hfits : TitleFits byteLocale 80 0 longTitle := by
    rintro _ ⟨⟩
    right
    decide +kernel
  exact (spells_iff multibyte_byteLocale 80 0 rfl fun _ _ => rfl).mpr hfits

/-- The title of a feed with 128 characters of two bytes each. -/
def accents : EntryRow where
  title := some (ascii "Entry")
  viewed := 0
  pubDate := 0
  entryID := 1
  feedTitle := some (some ((List.replicate 128 [0xC3, 0xA9]).flatten))

/-- The buffer ends within the last of them: the title of the entry is written
over the end of the date, and the offset is one less than before. -/
theorem cut_character_moves_back :
    (utf8Locale.decode ((List.replicate 128 [0xC3, 0xA9]).flatten)).2 = true ∧
      (putTexts utf8Locale 0 200 ((entryTexts utf8Locale 0 accents).take 3)
        (blankLines.body, 0)).2 = 16 ∧
      (putTexts utf8Locale 0 200 ((entryTexts utf8Locale 0 accents).take 4)
        (blankLines.body, 0)).2 = 15 ∧
      ¬Spells utf8Locale 200 0 accents := by
  have hvalid : (utf8Locale.decode ((List.replicate 128 [0xC3, 0xA9]).flatten)).2 = true := by
    decide +kernel
  have hthree : (putTexts utf8Locale 0 200 ((entryTexts utf8Locale 0 accents).take 3)
      (blankLines.body, 0)).2 = 16 := by
    decide +kernel
  have hfour : (putTexts utf8Locale 0 200 ((entryTexts utf8Locale 0 accents).take 4)
      (blankLines.body, 0)).2 = 15 := by
    decide +kernel
  have hchars : (chars utf8Locale ((entryFields utf8Locale 0 accents).take 4)).length = 147 := by
    decide +kernel
  refine ⟨hvalid, hthree, hfour, ?_⟩
  intro hspells
  have hoff := hspells.off blankLines 4
  have hline : lineAt 200 0 = 0 := by decide
  rw [hline, hfour, hchars] at hoff
  exact absurd hoff (by decide)

end View
end Newsbaoter
