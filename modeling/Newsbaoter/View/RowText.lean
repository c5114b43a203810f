import Mathlib.Data.List.GetD
import Newsbaoter.View.Painted

/-!
# The text of a row

A callback puts one text behind the other.  As long as each text is valid and is
given the room that is left, the row is their concatenation, cropped.  What
`feed_line_cb` writes is a list of cells that does not depend on what was there.
-/

namespace Newsbaoter
namespace View

/-! ## Stores over stores -/

/-- `ys` written over `xs` from index `n` on. -/
def overlay (xs : List TChar) (n : ℕ) (ys : List TChar) : List TChar :=
  xs.take n ++ (ys ++ xs.drop (n + ys.length))

theorem length_overlay {xs : List TChar} {n : ℕ} (hn : n ≤ xs.length) (ys : List TChar) :
    (overlay xs n ys).length = max xs.length (n + ys.length) := by
  rw [overlay, List.length_append, List.length_append, List.length_take, List.length_drop]
  omega

theorem overlay_append (xs zs : List TChar) {ys : List TChar} (h : zs.length ≤ ys.length) :
    overlay (xs ++ zs) xs.length ys = xs ++ ys := by
  have hdrop : (xs ++ zs).drop (xs.length + ys.length) = [] := by
    rw [List.drop_eq_nil_iff, List.length_append]
    omega
  rw [overlay, List.take_left', hdrop, List.append_nil]
  rfl

theorem getD_overlay_of_lt
    {xs : List TChar} {n m : ℕ} (hm : m < n) (hn : n ≤ xs.length) (ys : List TChar) :
    (overlay xs n ys).getD m 0 = xs.getD m 0 := by
  rw [overlay, List.getD_append _ _ _ _ (by rw [List.length_take]; omega),
    List.getD_eq_getElem?_getD, List.getElem?_take_of_lt hm, List.getD_eq_getElem?_getD]

theorem store_nil (mem : Cells) (a : ℤ) : store mem a [] = mem := by
  funext p
  apply store_of_not_mem
  rw [List.length_nil]
  omega

theorem store_add (mem : Cells) (a : ℤ) (cs : List TChar) (m : ℕ) :
    store mem a cs (a + m) = if m < cs.length then cs.getD m 0 else mem (a + m) := by
  split
  · next hm =>
      have hindex : (a + m - a).toNat = m := by omega
      rw [store_of_mem (by omega) (by omega), hindex]
  · exact store_of_not_mem (by omega)

theorem store_store
    (mem : Cells) (a : ℤ) {xs : List TChar} {n : ℕ} (hn : n ≤ xs.length) (ys : List TChar) :
    store (store mem a xs) (a + n) ys = store mem a (overlay xs n ys) := by
  have hlength := length_overlay hn ys
  funext p
  by_cases hbefore : p < a
  · rw [store_of_not_mem (by omega), store_of_not_mem (by omega), store_of_not_mem (by omega)]
  · obtain ⟨m, rfl⟩ : ∃ m : ℕ, p = a + m := ⟨(p - a).toNat, by omega⟩
    rw [store_add mem a (overlay xs n ys) m, hlength, overlay]
    by_cases hfirst : m < n
    · rw [store_of_not_mem (by omega), store_add, if_pos (by omega), if_pos (by omega),
        List.getD_append _ _ _ _ (by rw [List.length_take]; omega), List.getD_eq_getElem?_getD,
        List.getD_eq_getElem?_getD, List.getElem?_take_of_lt hfirst]
    · obtain ⟨j, rfl⟩ := Nat.exists_eq_add_of_le (Nat.le_of_not_lt hfirst)
      have htake : (xs.take n).length = n := List.length_take_of_le hn
      rw [List.getD_append_right _ _ _ _ (by omega), htake, Nat.add_sub_cancel_left]
      by_cases hmid : j < ys.length
      · rw [Int.natCast_add, ← Int.add_assoc, store_add, if_pos hmid, if_pos (by omega),
          List.getD_append _ _ _ _ hmid]
      · rw [Int.natCast_add, ← Int.add_assoc, store_add, if_neg hmid, Int.add_assoc,
          ← Int.natCast_add, store_add, List.getD_append_right _ _ _ _ (by omega)]
        by_cases hlast : n + j < xs.length
        · have hindex : n + ys.length + (j - ys.length) = n + j := by omega
          rw [if_pos hlast, if_pos (by omega), List.getD_eq_getElem?_getD,
            List.getD_eq_getElem?_getD, List.getElem?_drop, hindex]
        · rw [if_neg hlast, if_neg (by omega)]

/-! ## Texts one behind the other -/

/-- The cells of a text in a room of `len` cells, with its terminator if there
is a cell for it. -/
def crop (len : ℕ) (cs : List TChar) : List TChar :=
  (cs ++ [0]).take len

theorem length_crop (len : ℕ) (cs : List TChar) :
    (crop len cs).length = min len (cs.length + 1) := by
  rw [crop, List.length_take, List.length_append, List.length_singleton]

theorem getD_crop {len m : ℕ} {cs : List TChar} (hlen : m < len) (hm : m < cs.length) :
    (crop len cs).getD m 0 = cs.getD m 0 := by
  rw [crop, List.getD_eq_getElem?_getD, List.getElem?_take_of_lt hlen,
    List.getElem?_append_left hm, List.getD_eq_getElem?_getD]

theorem crop_of_lt {len : ℕ} {cs : List TChar} (h : cs.length < len) : crop len cs = cs ++ [0] := by
  apply List.take_of_length_le
  rw [List.length_append, List.length_singleton]
  omega

theorem crop_of_le {len : ℕ} {cs : List TChar} (h : len ≤ cs.length) :
    crop len cs = cs.take len :=
  List.take_append_of_le_length h

theorem crop_append_of_lt {len : ℕ} {cs : List TChar} (h : cs.length ≤ len) (ds : List TChar) :
    crop len (cs ++ ds) = cs ++ crop (len - cs.length) ds := by
  rw [crop, List.append_assoc, List.take_append, List.take_of_length_le h, crop]

/-- The cells that `mbstowcs` writes for a text, with room for `max`. -/
def textCells (loc : Locale) (s : CStr) (max : ℕ) : List TChar :=
  let d := loc.decode s
  if max ≤ d.1.length then d.1.take max else if d.2 then d.1 ++ [0] else d.1

theorem charsToWidechars_fst
    (loc : Locale) (mem : Cells) (dst : ℤ) (s : CStr) (max : ℕ) :
    (charsToWidechars loc mem dst s max).1 = store mem dst (textCells loc s max) := by
  rw [textCells]
  rcases Nat.eq_zero_or_pos max with rfl | hmax
  · rw [charsToWidechars_of_lt_one (by decide)]
    dsimp only
    rw [if_pos (Nat.zero_le _), List.take_zero, store_nil]
  · have hroom : ¬(max : ℤ) < 1 := by omega
    rw [charsToWidechars, if_neg hroom]
    simp only [Int.ofNat_le, Int.toNat_natCast]
    split
    · rfl
    · split
      · rfl
      · rfl

theorem textCells_of_valid
    {loc : Locale} {s : CStr} (h : (loc.decode s).2 = true) (max : ℕ) :
    textCells loc s max = crop max (loc.decode s).1 := by
  rw [textCells]
  split
  · next hfull => exact (crop_of_le hfull).symm
  · next hfits => exact (crop_of_lt (Nat.lt_of_not_le hfits)).symm

/-- Of a valid text, as many characters are counted as fit. -/
theorem charsToWidechars_snd_of_valid
    {loc : Locale} {s : CStr} (h : (loc.decode s).2 = true) (mem : Cells) (dst : ℤ) (max : ℕ) :
    (charsToWidechars loc mem dst s max).2 = (min max (loc.decode s).1.length : ℕ) := by
  rcases Nat.eq_zero_or_pos max with rfl | hmax
  · rw [charsToWidechars_of_lt_one (by decide), Nat.zero_min]
    rfl
  · have hroom : ¬(max : ℤ) < 1 := by omega
    rw [charsToWidechars, if_neg hroom]
    simp only [Int.ofNat_le, h, if_true]
    split
    · next hfull => rw [Nat.min_eq_left hfull]
    · next hfits => rw [Nat.min_eq_right (Nat.le_of_not_le hfits)]

/-- With room to spare, an invalid text counts as `-1`. -/
theorem charsToWidechars_snd_of_lt
    {loc : Locale} {mem : Cells} {dst : ℤ} {s : CStr} {max : ℕ}
    (h : (loc.decode s).1.length < max) :
    (charsToWidechars loc mem dst s max).2 =
      if (loc.decode s).2 then ((loc.decode s).1.length : ℤ) else -1 := by
  have hroom : ¬(max : ℤ) < 1 := by omega
  have hfits : ¬(max : ℤ) ≤ (loc.decode s).1.length := by omega
  rw [charsToWidechars, if_neg hroom]
  dsimp only
  rw [if_neg hfits]
  split
  · rfl
  · rfl

/-- The row holds `cs`, cropped, and the offset is behind it. -/
structure Typed (mem : Cells) (line : ℤ) (len : ℕ) (cs : List TChar) (t : Cells × ℤ) : Prop where
  cells : t.1 = store mem line (crop len cs)
  off : t.2 = (min len cs.length : ℕ)

theorem typed_first
    {loc : Locale} {s : CStr} (h : (loc.decode s).2 = true) (mem : Cells) (line : ℤ) (len : ℕ) :
    Typed mem line len (loc.decode s).1 (putText loc line len s (mem, 0)) := by
  have hput : putText loc line len s (mem, 0) = charsToWidechars loc mem line s len := by
    simp only [putText, Int.add_zero, Int.sub_zero, Int.zero_add]
  constructor
  · rw [hput, charsToWidechars_fst, textCells_of_valid h]
  · rw [hput, charsToWidechars_snd_of_valid h]

/-- What the next text does to the row, valid or not. -/
theorem Typed.putText_eq
    {mem : Cells} {line : ℤ} {len : ℕ} {cs : List TChar} {t : Cells × ℤ}
    (h : Typed mem line len cs t) (loc : Locale) (s : CStr) :
    putText loc line len s t =
      (store mem line
          (overlay (crop len cs) (min len cs.length) (textCells loc s (len - cs.length))),
        t.2 + (charsToWidechars loc t.1 (line + t.2) s (len - cs.length : ℕ)).2) := by
  have hroom : (len : ℤ) - (min len cs.length : ℕ) = (len - cs.length : ℕ) := by omega
  have hle : min len cs.length ≤ (crop len cs).length := by
    rw [length_crop]
    omega
  rw [putText, h.off, hroom, charsToWidechars_fst, h.cells, store_store mem line hle]

/-- Nothing is written any more once the row is full. -/
theorem Typed.putText_of_full
    {mem : Cells} {line : ℤ} {len : ℕ} {cs : List TChar} {t : Cells × ℤ}
    (h : Typed mem line len cs t) (hfull : len ≤ cs.length) (loc : Locale) (s : CStr)
    (ds : List TChar) :
    Typed mem line len (cs ++ ds) (putText loc line len s t) := by
  have hroom : (len : ℤ) - t.2 < 1 := by
    rw [h.off]
    omega
  have hcrop : crop len (cs ++ ds) = crop len cs := by
    rw [crop_of_le hfull, crop_of_le (by rw [List.length_append]; omega),
      List.take_append_of_le_length hfull]
  rw [View.putText, charsToWidechars_of_lt_one hroom]
  constructor
  · rw [hcrop]
    exact h.cells
  · rw [h.off, List.length_append]
    omega

/-- While there is room, the next cells come behind the ones before. -/
theorem Typed.putText_cells
    {mem : Cells} {line : ℤ} {len : ℕ} {cs : List TChar} {t : Cells × ℤ}
    (h : Typed mem line len cs t) (hlt : cs.length < len) {loc : Locale} {s : CStr}
    (hcells : 0 < (textCells loc s (len - cs.length)).length) :
    (putText loc line len s t).1 =
      store mem line (cs ++ textCells loc s (len - cs.length)) := by
  rw [h.putText_eq, Nat.min_eq_right (Nat.le_of_lt hlt), crop_of_lt hlt,
    overlay_append cs [0] hcells]

/-- A valid text continues the row. -/
theorem Typed.putText
    {mem : Cells} {line : ℤ} {len : ℕ} {cs : List TChar} {t : Cells × ℤ}
    (h : Typed mem line len cs t) {loc : Locale} {s : CStr} (hvalid : (loc.decode s).2 = true) :
    Typed mem line len (cs ++ (loc.decode s).1) (putText loc line len s t) := by
  rcases Nat.lt_or_ge cs.length len with hlt | hge
  · have hcells := textCells_of_valid hvalid (len - cs.length)
    constructor
    · rw [h.putText_cells hlt (by rw [hcells, length_crop]; omega), hcells,
        crop_append_of_lt (Nat.le_of_lt hlt)]
    · rw [h.putText_eq, charsToWidechars_snd_of_valid hvalid, h.off, List.length_append]
      omega
  · exact h.putText_of_full hge loc s _

/-- So does the begin of a text, if the rest has no room anyway. -/
theorem Typed.putText_of_begin
    {mem : Cells} {line : ℤ} {len : ℕ} {cs ds : List TChar} {t : Cells × ℤ}
    (h : Typed mem line len cs t) {loc : Locale} {s : CStr} (hbegin : (loc.decode s).1 <+: ds)
    (hlen : len ≤ cs.length + (loc.decode s).1.length) :
    Typed mem line len (cs ++ ds) (View.putText loc line len s t) := by
  rcases Nat.lt_or_ge cs.length len with hlt | hge
  · have hroom : len - cs.length ≤ (loc.decode s).1.length := by omega
    have hds := hbegin.length_le
    have hcells : textCells loc s (len - cs.length) = (loc.decode s).1.take (len - cs.length) :=
      if_pos hroom
    have hsame : ds.take (len - cs.length) = (loc.decode s).1.take (len - cs.length) := by
      obtain ⟨rest, rfl⟩ := hbegin
      exact List.take_append_of_le_length hroom
    have hmax : ¬((len - cs.length : ℕ) : ℤ) < 1 := by omega
    constructor
    · rw [h.putText_cells hlt (by rw [hcells, List.length_take]; omega), hcells,
        crop_append_of_lt (Nat.le_of_lt hlt), crop_of_le (by omega), hsame]
    · rw [h.putText_eq, charsToWidechars, if_neg hmax, h.off, List.length_append]
      simp only [Int.ofNat_le, if_pos hroom]
      omega
  · exact h.putText_of_full hge loc s ds

theorem typed_first_ascii
    (loc : Locale) {s : CStr} (hascii : ∀ b ∈ s, b < 128) (mem : Cells) (line : ℤ) (len : ℕ) :
    Typed mem line len (s.map UInt8.toNat) (putText loc line len s (mem, 0)) := by
  have hdecode := loc.decode_ascii s hascii
  have hvalid : (loc.decode s).2 = true := by rw [hdecode]
  have htyped := typed_first hvalid mem line len
  rwa [hdecode] at htyped

theorem Typed.putText_ascii
    {mem : Cells} {line : ℤ} {len : ℕ} {cs : List TChar} {t : Cells × ℤ}
    (h : Typed mem line len cs t) (loc : Locale) {s : CStr} (hascii : ∀ b ∈ s, b < 128) :
    Typed mem line len (cs ++ s.map UInt8.toNat) (View.putText loc line len s t) := by
  have hdecode := loc.decode_ascii s hascii
  have hvalid : (loc.decode s).2 = true := by rw [hdecode]
  have htyped := h.putText hvalid
  rwa [hdecode] at htyped

/-! ## The feed line -/

/-- What stands before the name of a feed. -/
def feedPrefix (ind : ℕ) (row : FeedRow) : CStr :=
  indexText ind ++ ascii (if row.viewed < row.count then "N" else " ") ++ countText row

/-- The title, or else the URL. -/
def feedName (row : FeedRow) : CStr :=
  (row.title.or row.url).getD (ascii "Unknown")

/-- The cells that `feed_line_cb` writes, from the begin of its line on. -/
def feedCells (loc : Locale) (len ind : ℕ) (row : FeedRow) : List TChar :=
  overlay (crop len ((feedPrefix ind row).map UInt8.toNat)) (min len (feedPrefix ind row).length)
    (textCells loc (feedName row) len)

theorem ascii_decimal (n : ℕ) : ∀ b ∈ decimal n, b < 128 := by
  intro b hb
  exact UInt8.lt_of_lt_of_le (digits_of_mem_decimal hb).2 (by decide)

theorem ascii_decimalLong (n : ℤ) : ∀ b ∈ decimalLong n, b < 128 := by
  intro b hb
  rw [decimalLong] at hb
  split at hb
  · rcases List.mem_cons.mp hb with rfl | hdigit
    · decide
    · exact ascii_decimal _ b hdigit
  · exact ascii_decimal _ b hb

theorem ascii_countText (row : FeedRow) : ∀ b ∈ countText row, b < 128 := by
  intro b hb
  have hmem := List.mem_of_mem_take hb
  rw [List.mem_append, List.mem_append] at hmem
  rcases hmem with (hpad | hnumbers) | hgap
  · rw [List.eq_of_mem_replicate hpad]
    decide
  · have hnumbers := List.mem_of_mem_take hnumbers
    rw [List.mem_append, List.mem_append, List.mem_append, List.mem_append] at hnumbers
    rcases hnumbers with (((hopen | hunread) | hslash) | htotal) | hclose
    · exact lt_of_all_ascii (by decide) b hopen
    · exact ascii_decimalLong _ b hunread
    · exact lt_of_all_ascii (by decide) b hslash
    · exact ascii_decimal _ b htotal
    · exact lt_of_all_ascii (by decide) b hclose
  · exact lt_of_all_ascii (by decide) b hgap

/-- What stands before the name is ASCII, so that the offset there is the number
of its characters. -/
theorem feedLineCb_body
    (loc : Locale) (len ind : ℕ) (row : FeedRow) (t : Lines) :
    (feedLineCb loc len ind row t).body =
      store t.body (lineAt len ind) (feedCells loc len ind row) := by
  have hindex := typed_first_ascii loc (ascii_indexText ind) t.body (lineAt len ind) len
  have hflag := hindex.putText_ascii loc (ascii_flag (row.viewed < row.count))
  have htyped := hflag.putText_ascii loc (ascii_countText row)
  rw [← List.map_append, ← List.map_append] at htyped
  have hle : min len (feedPrefix ind row).length ≤
      (crop len ((feedPrefix ind row).map UInt8.toNat)).length := by
    rw [length_crop, List.length_map]
    omega
  have hoff := htyped.off
  rw [List.length_map] at hoff
  rw [feedLineCb]
  dsimp only
  rw [charsToWidechars_fst, hoff, htyped.cells]
  exact store_store t.body (lineAt len ind) hle (textCells loc (feedName row) len)

end View
end Newsbaoter
