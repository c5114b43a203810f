import Newsbaoter.Dates.Conversion

/-!
# The instants that are stored

`update_entry` parses the offset of a date text and then converts the civil time
as if it were local, with whatever `tm_isdst` there is.  What is stored is the
instant of the text just if that comes to the offset of the text, and the
instant fits into 32 bits.
-/

namespace Newsbaoter
namespace Dates

open Newsbaoter.Cache (Db Entry EntryField TimeLib Tm XmlNode entryData entryFields entryRow
  getContentIfAvail updateEntry)
open Newsbaoter.Support
open Newsbaoter.View (EntryRow newestFirst)

/-! ## Normalised texts -/

/-- A valid date with an offset from UTC, as the stylesheets write it. -/
structure Stamp where
  year : ℕ
  month : ℕ
  day : ℕ
  hour : ℕ
  minute : ℕ
  second : ℕ
  west : Bool
  offHour : ℕ
  offMinute : ℕ
  year_lt : year < 10000
  month_mem : 1 ≤ month ∧ month ≤ 12
  day_mem : 1 ≤ day ∧ day ≤ daysInMonth year (month - 1)
  hour_lt : hour < 24
  minute_lt : minute < 60
  second_lt : second < 60
  offHour_lt : offHour < 100
  offMinute_lt : offMinute < 60

def digit (n : ℕ) : UInt8 :=
  (48 + n).toUInt8

def twoDigits (n : ℕ) : CStr :=
  [digit (n / 10), digit (n % 10)]

def fourDigits (n : ℕ) : CStr :=
  twoDigits (n / 100) ++ twoDigits (n % 100)

namespace Stamp

def dateText (s : Stamp) : CStr :=
  fourDigits s.year ++ ascii "-" ++ twoDigits s.month ++ ascii "-" ++ twoDigits s.day

def timeText (s : Stamp) : CStr :=
  twoDigits s.hour ++ ascii ":" ++ twoDigits s.minute ++ ascii ":" ++ twoDigits s.second

def offsetText (s : Stamp) : CStr :=
  ascii (if s.west then "-" else "+") ++ twoDigits s.offHour ++ twoDigits s.offMinute

/-- `YYYY-MM-DD hh:mm:ss +hhmm` -/
def text (s : Stamp) : CStr :=
  s.dateText ++ ascii " " ++ s.timeText ++ ascii " " ++ s.offsetText

/-- Seconds east of UTC. -/
def offset (s : Stamp) : ℤ :=
  (if s.west then -1 else 1) * (s.offHour * 3600 + s.offMinute * 60 : ℕ)

/-- The date and time as if they were UTC, in seconds from 1970 on. -/
def civil (s : Stamp) : ℤ :=
  86400 * days s.year (s.month - 1) s.day + 3600 * s.hour + 60 * s.minute + s.second

/-- The Unix time that the text denotes. -/
def instant (s : Stamp) : ℤ :=
  s.civil - s.offset

/-- The same time of the following day. -/
structure Follows (t s : Stamp) : Prop where
  time : t.hour = s.hour ∧ t.minute = s.minute ∧ t.second = s.second
  offset : t.offset = s.offset
  date : (t.year = s.year ∧ t.month = s.month ∧ t.day = s.day + 1) ∨
    (s.day = daysInMonth s.year (s.month - 1) ∧ t.day = 1 ∧
      ((t.year = s.year ∧ t.month = s.month + 1) ∨
        (t.year = s.year + 1 ∧ s.month = 12 ∧ t.month = 1)))

/-- A day has 86400 seconds, across the ends of months and years. -/
theorem Follows.instant
    {t s : Stamp} (h : Follows t s) :
    t.instant = s.instant + 86400 := by
  have hdays : days t.year (t.month - 1) t.day = days s.year (s.month - 1) s.day + 1 := by
    have hmonth := s.month_mem
    rcases h.date with ⟨hyear, hsame, hday⟩ | ⟨hlast, hfirst, ⟨hyear, hnext⟩ | ⟨hyear, hend, hjan⟩⟩
    · rw [hyear, hsame, hday, days, days]
      omega
    · have hle : s.month - 1 < 11 := by
        have := t.month_mem
        omega
      have hstep := days_month_end s.year hle
      have hindex : t.month - 1 = s.month - 1 + 1 := by omega
      rw [hyear, hindex, hfirst, Int.natCast_one, ← hstep, hlast, days, days]
      omega
    · have hstep := days_year_end s.year
      have hindex : s.month - 1 = 11 := by omega
      rw [hyear, hjan, hfirst, hlast, hindex, Int.natCast_succ, Int.natCast_one, ← hstep,
        days, days]
      omega
  obtain ⟨hhour, hminute, hsecond⟩ := h.time
  rw [Stamp.instant, Stamp.instant, civil, civil, hdays, hhour, hminute, hsecond, h.offset]
  omega

end Stamp

/-! ## Reading a normalised text -/

theorem toNat_digit {n : ℕ} (hn : n < 10) : (digit n).toNat = 48 + n := by
  rw [digit, Nat.toUInt8_eq, UInt8.toNat_ofNat']
  omega

theorem isDigit_digit {n : ℕ} (hn : n < 10) : isDigit (digit n) = true := by
  have hvalue := toNat_digit hn
  rw [isDigit, Bool.and_eq_true, decide_eq_true_eq, decide_eq_true_eq, UInt8.le_iff_toNat_le,
    UInt8.le_iff_toNat_le, hvalue]
  exact ⟨Nat.le_add_right 48 n, Nat.add_le_add_left (Nat.le_of_lt_succ hn) 48⟩

theorem dropWhile_digit {n : ℕ} (hn : n < 10) (rp : CStr) :
    (digit n :: rp).dropWhile isSpace = digit n :: rp := by
  have hlow : 33 ≤ digit n := by
    rw [UInt8.le_iff_toNat_le, toNat_digit hn]
    exact Nat.le_trans (by decide) (Nat.le_add_right 48 n)
  rw [List.dropWhile_cons, not_isSpace_of_le hlow]
  rfl

theorem readDigits_digit
    {hi val n : ℕ} (hn : n < 10) (hval : val * 10 ≤ hi) (k : ℕ) (rp : CStr) :
    readDigits hi (k + 1) val (digit n :: rp) = readDigits hi k (val * 10 + n) rp := by
  rw [readDigits, if_pos ⟨isDigit_digit hn, hval⟩, toNat_digit hn, Nat.add_sub_cancel_left]

theorem readDigits_twoDigits
    {hi val n : ℕ} (hn : n < 100) (hval : val * 100 + n ≤ hi) (k : ℕ) (rp : CStr) :
    readDigits hi (k + 2) val (twoDigits n ++ rp) = readDigits hi k (val * 100 + n) rp := by
  have hsum : (val * 10 + n / 10) * 10 + n % 10 = val * 100 + n := by omega
  rw [twoDigits, List.cons_append, List.cons_append, List.nil_append,
    readDigits_digit (by omega) (by omega), readDigits_digit (by omega) (by omega), hsum]

theorem getNumber_of_digit
    {hi n v : ℕ} {d : ℕ} {ds rp : CStr} (hd : d < 10) (lo : ℕ)
    (hread : readDigits hi n 0 (digit d :: ds) = (v, rp)) (hlo : lo ≤ v) (hhi : v ≤ hi) :
    getNumber lo hi n (digit d :: ds) = some (v, rp) := by
  have hfirst : (((digit d :: ds).head?).map isDigit).getD false = true := isDigit_digit hd
  rw [getNumber]
  simp only [dropWhile_digit hd, hfirst, hread, if_true, hlo, hhi, and_self]

theorem getNumber_twoDigits
    {lo hi n : ℕ} (hn : n < 100) (hlo : lo ≤ n) (hhi : n ≤ hi) (rp : CStr) :
    getNumber lo hi 2 (twoDigits n ++ rp) = some (n, rp) := by
  have hread : readDigits hi 2 0 (twoDigits n ++ rp) = (n, rp) := by
    rw [readDigits_twoDigits hn (by omega), Nat.zero_mul, Nat.zero_add]
    rfl
  exact getNumber_of_digit (by omega) lo hread hlo hhi

theorem getNumber_fourDigits
    {n : ℕ} (hn : n < 10000) (rp : CStr) :
    getNumber 0 9999 4 (fourDigits n ++ rp) = some (n, rp) := by
  have hsum : n / 100 * 100 + n % 100 = n := by omega
  have hread : readDigits 9999 4 0 (fourDigits n ++ rp) = (n, rp) := by
    rw [fourDigits, List.append_assoc, readDigits_twoDigits (by omega) (by omega),
      readDigits_twoDigits (by omega) (by omega), Nat.zero_mul, Nat.zero_add, hsum]
    rfl
  exact getNumber_of_digit (by omega) 0 hread (Nat.zero_le _) (by omega)

theorem matchChar_self (b : UInt8) (rp : CStr) : matchChar b (b :: rp) = some rp :=
  if_pos rfl

theorem offsetDigits_digit
    {n : ℕ} (hn : n < 10) {k count val : ℕ} {rp : CStr}
    (hcolon : skipColon (count + 1) rp = rp) :
    offsetDigits (k + 1) count val (digit n :: rp) =
      offsetDigits k (count + 1) (val * 10 + n) rp := by
  rw [offsetDigits, if_pos (isDigit_digit hn), hcolon, toNat_digit hn, Nat.add_sub_cancel_left]

/-- A digit is no colon. -/
theorem skipColon_digit {n : ℕ} (hn : n < 10) (count : ℕ) (rp : CStr) :
    skipColon count (digit n :: rp) = digit n :: rp := by
  rw [skipColon]
  intro b rest heq
  have hvalue := toNat_digit hn
  rw [(List.cons.inj heq).1] at hvalue
  have hcolon : (58 : UInt8).toNat = 58 := rfl
  omega

theorem offsetDigits_twoDigits
    {h m : ℕ} (hh : h < 100) (hm : m < 100) :
    offsetDigits 4 0 0 (twoDigits h ++ twoDigits m) = (4, h * 100 + m) := by
  have hsum : (((0 * 10 + h / 10) * 10 + h % 10) * 10 + m / 10) * 10 + m % 10 = h * 100 + m := by
    omega
  simp only [twoDigits, List.cons_append, List.nil_append]
  rw [offsetDigits_digit (by omega) (skipColon_digit (by omega) _ _),
    offsetDigits_digit (by omega) (skipColon_digit (by omega) _ _),
    offsetDigits_digit (by omega) (skipColon_digit (by omega) _ _),
    offsetDigits_digit (by omega) rfl, hsum]
  rfl

/-- Behind a sign four digits are read as hours and minutes. -/
theorem readOffset_signed
    {b : UInt8} {h m : ℕ} (hsign : b = 43 ∨ b = 45) (hh : h < 100) (hm : m < 60) :
    readOffset (b :: (twoDigits h ++ twoDigits m)) =
      some ((if b = 45 then (-1 : ℤ) else 1) * (h * 3600 + m * 60 : ℕ)) := by
  have hdigits := offsetDigits_twoDigits hh (show m < 100 by omega)
  have hmod : (h * 100 + m) % 100 = m := by omega
  have hdiv : (h * 100 + m) / 100 = h := by omega
  have hvalid : ¬60 ≤ m := by omega
  have hspace : isSpace b = false := by
    rcases hsign with rfl | rfl
    · rfl
    · rfl
  have hutc : b ≠ 90 := by
    rcases hsign with rfl | rfl
    · decide
    · decide
  rw [readOffset, List.dropWhile_cons, hspace, if_neg Bool.false_ne_true]
  simp only [if_neg hutc, if_pos hsign, hdigits, hmod, hdiv, if_neg hvalid]

namespace Stamp

/-- No month has more than 31 days. -/
theorem day_le (s : Stamp) : s.day ≤ 31 := by
  have hlengths : ∀ leap : Bool, ∀ m < 12, (if m = 1 ∧ leap then 29
      else [31, 28, 31, 30, 31, 30, 31, 31, 30, 31, 30, 31].getD m 0) ≤ 31 := by
    decide
  have hmonth := s.month_mem
  exact Nat.le_trans s.day_mem.2 (hlengths (isLeap s.year) (s.month - 1) (by omega))

theorem readDate_dateText (s : Stamp) (rp : CStr) :
    readDate (s.dateText ++ rp) = some ((s.year, s.month, s.day), rp) := by
  have hmonth := s.month_mem
  have hday := s.day_le
  have hdash : ∀ rp, matchChar 45 (ascii "-" ++ rp) = some rp := fun rp => matchChar_self 45 rp
  simp only [readDate, dateText, List.append_assoc, getNumber_fourDigits s.year_lt, hdash,
    getNumber_twoDigits (n := s.month) (by omega) hmonth.1 hmonth.2,
    getNumber_twoDigits (n := s.day) (by omega) s.day_mem.1 hday, Option.bind_eq_bind,
    Option.bind_some, Option.pure_def]

theorem readTime_timeText (s : Stamp) (rp : CStr) :
    readTime (s.timeText ++ rp) = some ((s.hour, s.minute, s.second), rp) := by
  have hhour := s.hour_lt
  have hminute := s.minute_lt
  have hsecond := s.second_lt
  have hcolon : ∀ rp, matchChar 58 (ascii ":" ++ rp) = some rp := fun rp => matchChar_self 58 rp
  simp only [readTime, timeText, List.append_assoc, hcolon,
    getNumber_twoDigits (n := s.hour) (by omega) (Nat.zero_le _) (Nat.le_of_lt_succ hhour),
    getNumber_twoDigits (n := s.minute) (by omega) (Nat.zero_le _) (Nat.le_of_lt_succ hminute),
    getNumber_twoDigits (n := s.second) (by omega) (Nat.zero_le _) (show s.second ≤ 61 by omega),
    Option.bind_eq_bind, Option.bind_some, Option.pure_def]

theorem readOffset_offsetText (s : Stamp) : readOffset s.offsetText = some s.offset := by
  rw [offsetText, offset, List.append_assoc]
  cases s.west with
  | false => exact readOffset_signed (Or.inl rfl) s.offHour_lt s.offMinute_lt
  | true => exact readOffset_signed (Or.inr rfl) s.offHour_lt s.offMinute_lt

theorem dropWhile_blank_timeText (s : Stamp) (rp : CStr) :
    (ascii " " ++ (s.timeText ++ rp)).dropWhile isSpace = s.timeText ++ rp := by
  have hhour := s.hour_lt
  have hfirst := dropWhile_digit (n := s.hour / 10) (by omega)
  have htext : s.timeText ++ rp = digit (s.hour / 10) :: (s.timeText ++ rp).tail := rfl
  have hblank : (ascii " " ++ (s.timeText ++ rp)).dropWhile isSpace =
      (s.timeText ++ rp).dropWhile isSpace := rfl
  rw [hblank, htext, hfirst]

/-- A normalised text is read in full, and its civil time is the one written. -/
theorem readCivil_text (s : Stamp) : readCivil s.text = some s.civil := by
  have hdate := s.readDate_dateText (ascii " " ++ (s.timeText ++ (ascii " " ++ s.offsetText)))
  have htime := s.readTime_timeText (ascii " " ++ s.offsetText)
  rw [readCivil, text, List.append_assoc, List.append_assoc, List.append_assoc, hdate]
  simp only [Option.bind_eq_bind, Option.bind_some, dropWhile_blank_timeText, htime,
    Option.pure_def]
  rfl

/-- The offset goes to `tm_gmtoff`. -/
theorem strptime_text (s : Stamp) (tp : Tm) :
    (strptime s.text tp).2 = true ∧ (strptime s.text tp).1.gmtoff = s.offset := by
  have hdate := s.readDate_dateText (ascii " " ++ (s.timeText ++ (ascii " " ++ s.offsetText)))
  have htime := s.readTime_timeText (ascii " " ++ s.offsetText)
  have hblank : (ascii " " ++ s.offsetText).dropWhile isSpace =
      s.offsetText.dropWhile isSpace := rfl
  have hoffset : readOffset (s.offsetText.dropWhile isSpace) = some s.offset := by
    have hsigned : s.offsetText.dropWhile isSpace = s.offsetText := by
      rw [offsetText]
      cases s.west with
      | false => rfl
      | true => rfl
    rw [hsigned, readOffset_offsetText]
  rw [text, List.append_assoc, List.append_assoc, List.append_assoc, strptime, hdate]
  simp only [dropWhile_blank_timeText, htime, hblank, hoffset, and_self]

end Stamp

/-! ## Storing -/

/-- The row that `update_entry` writes. -/
def storedRow (time : TimeLib) (tp : Tm) (uid : CStr) (feedid : ℤ) (children : List XmlNode)
    (db : Db) : Entry :=
  entryRow db feedid (entryData time tp uid children)

theorem storedRow_mem
    (time : TimeLib) (tp : Tm) (uid : CStr) (feedid : ℤ) (children : List XmlNode) (db : Db) :
    storedRow time tp uid feedid children db ∈
      (updateEntry time tp uid feedid children db).entry.rows :=
  Support.KeyedTable.mem_insertOrReplace.mpr (Or.inl rfl)

/-- A date field of an entry element. -/
def dateText (children : List XmlNode) (field : EntryField) : Option CStr :=
  getContentIfAvail children (entryFields field)

/-- `tp` when the second date is converted. -/
def tmAfterPublish (children : List XmlNode) (tp : Tm) : Tm :=
  match dateText children .pdate with
  | some s => (strptime s tp).1
  | none => tp

section Row

variable {children : List XmlNode} {s : CStr} (zone : Zone) (tp : Tm) (uid : CStr) (feedid : ℤ)
  (db : Db)

theorem storedRow_pubDate (h : dateText children .pdate = some s) :
    (storedRow (glibc zone) tp uid feedid children db).pubDate = storedDate zone s tp := by
  rw [dateText] at h
  simp only [storedRow, entryRow, entryData, h, Option.map_some, Option.some_or]
  rfl

theorem storedRow_modDate (h : dateText children .udate = some s) :
    (storedRow (glibc zone) tp uid feedid children db).modDate =
      storedDate zone s (tmAfterPublish children tp) := by
  rw [dateText] at h
  simp only [storedRow, entryRow, entryData, h, Option.map_some, tmAfterPublish, dateText]
  rfl

/-- An update stands in for a missing publishing date. -/
theorem storedRow_pubDate_of_none (h : dateText children .pdate = none) :
    (storedRow (glibc zone) tp uid feedid children db).pubDate =
      (storedRow (glibc zone) tp uid feedid children db).modDate := by
  rw [dateText] at h
  simp only [storedRow, entryRow, entryData, h, Option.map_none, Option.none_or]

theorem storedRow_modDate_of_none (h : dateText children .udate = none) :
    (storedRow (glibc zone) tp uid feedid children db).modDate = 0 := by
  rw [dateText] at h
  simp only [storedRow, entryRow, entryData, h, Option.map_none]
  rfl

end Row

theorem tmAfterPublish_isdst (children : List XmlNode) (tp : Tm) :
    (tmAfterPublish children tp).isdst = tp.isdst := by
  rw [tmAfterPublish]
  split
  · exact strptime_isdst _ tp
  · rfl

/-- The instant fits into an `int`, and the offset of the text is the one that
the local zone has at that civil time, for the `tm_isdst` that `tp` holds. -/
structure Storable (zone : Zone) (tp : Tm) (s : Stamp) : Prop where
  fits : -2 ^ 31 ≤ s.instant ∧ s.instant < 2 ^ 31
  offset : zone.offset s.civil tp.isdst = s.offset

theorem storedDate_eq_instant_iff (zone : Zone) (tp : Tm) (s : Stamp) :
    storedDate zone s.text tp = s.instant ↔ Storable zone tp s := by
  have hbound := zone.bound s.civil tp.isdst
  have hhour := s.offHour_lt
  have hminute := s.offMinute_lt
  have hoffset : s.offset.natAbs < 400000 := by
    rw [Stamp.offset]
    split
    · omega
    · omega
  have hclose : (s.civil - zone.offset s.civil tp.isdst - s.instant).natAbs < 2 ^ 32 := by
    rw [Stamp.instant]
    omega
  rw [storedDate_of_readCivil s.readCivil_text, toInt_eq_iff hclose]
  constructor
  · rintro ⟨hfits, heq⟩
    rw [Stamp.instant] at heq
    exact ⟨hfits, by omega⟩
  · intro h
    refine ⟨h.fits, ?_⟩
    rw [Stamp.instant, h.offset]

/-- A listing has the newer of two dates first. -/
theorem sublist_newestFirst
    {rows : List EntryRow} {x y : EntryRow} (hx : x ∈ rows) (hy : y ∈ rows)
    (hlt : x.pubDate < y.pubDate) :
    [y, x].Sublist (newestFirst rows) := by
  have htotal : Std.Total fun a b : EntryRow => b.pubDate ≤ a.pubDate :=
    ⟨fun a b => Int.le_total b.pubDate a.pubDate⟩
  have htrans : IsTrans EntryRow fun a b => b.pubDate ≤ a.pubDate :=
    ⟨fun _ _ _ hab hbc => Int.le_trans hbc hab⟩
  have hsorted : (newestFirst rows).Pairwise fun a b => b.pubDate ≤ a.pubDate :=
    List.pairwise_insertionSort _ rows
  have hmem : ∀ {z}, z ∈ rows → z ∈ newestFirst rows := fun hz =>
    (List.mem_insertionSort _).mpr hz
  obtain ⟨front, back, heq⟩ := List.append_of_mem (hmem hy)
  have hxmem := hmem hx
  rw [heq] at hsorted hxmem ⊢
  obtain ⟨-, -, hacross⟩ := List.pairwise_append.mp hsorted
  rcases List.mem_append.mp hxmem with hfront | hback
  · have hle := hacross x hfront y List.mem_cons_self
    omega
  · rcases List.mem_cons.mp hback with rfl | hback
    · exact absurd hlt (Int.lt_irrefl _)
    · exact ((List.singleton_sublist.mpr hback).cons_cons y).trans
        (List.sublist_append_right front _)

/-- A normalised date is stored as its instant just if it is storable, and dates
stored as their instants are listed by them. -/
theorem stores_instant_iff
    (zone : Zone) (tp : Tm) (uid : CStr) (feedid : ℤ) (children : List XmlNode) (db : Db) :
    storedRow (glibc zone) tp uid feedid children db ∈
        (updateEntry (glibc zone) tp uid feedid children db).entry.rows ∧
      (∀ s : Stamp, dateText children .pdate = some s.text →
        ((storedRow (glibc zone) tp uid feedid children db).pubDate = s.instant ↔
          Storable zone tp s)) ∧
      (∀ s : Stamp, dateText children .udate = some s.text →
        ((storedRow (glibc zone) tp uid feedid children db).modDate = s.instant ↔
          Storable zone tp s)) ∧
      ∀ (rows : List EntryRow) (s t : Stamp), ∀ x ∈ rows, ∀ y ∈ rows,
        x.pubDate = s.instant → y.pubDate = t.instant → s.instant < t.instant →
          [y, x].Sublist (newestFirst rows) := by
  refine ⟨storedRow_mem _ _ _ _ _ _, ?_, ?_, ?_⟩
  · intro s hs
    rw [storedRow_pubDate zone tp uid feedid db hs]
    exact storedDate_eq_instant_iff zone tp s
  · intro s hs
    have hsame : Storable zone (tmAfterPublish children tp) s ↔ Storable zone tp s := by
      constructor
      · rintro ⟨hfits, hoffset⟩
        exact ⟨hfits, by rwa [tmAfterPublish_isdst] at hoffset⟩
      · rintro ⟨hfits, hoffset⟩
        exact ⟨hfits, by rwa [tmAfterPublish_isdst]⟩
    rw [storedRow_modDate zone tp uid feedid db hs, ← hsame]
    exact storedDate_eq_instant_iff zone (tmAfterPublish children tp) s
  · intro rows s t x hx y hy hxs hyt hlt
    apply sublist_newestFirst hx hy
    rw [hxs, hyt]
    exact hlt

/-! ## Three dates -/

/-- An entry element with this publishing date. -/
def publishedAt (s : Stamp) : List XmlNode :=
  [.elem (ascii "publishDateTime") [.text s.text]]

/-- `2024-06-01 12:00:00 +0200` -/
def summerNoon : Stamp where
  year := 2024
  month := 6
  day := 1
  hour := 12
  minute := 0
  second := 0
  west := false
  offHour := 2
  offMinute := 0
  year_lt := by decide
  month_mem := by decide
  day_mem := by decide
  hour_lt := by decide
  minute_lt := by decide
  second_lt := by decide
  offHour_lt := by decide
  offMinute_lt := by decide

/-- `2024-06-01 11:00:00 +0000`, an hour later. -/
def nextHour : Stamp :=
  { summerNoon with
    hour := 11
    offHour := 0
    hour_lt := by decide
    offHour_lt := by decide }

/-- `2040-06-01 11:00:00 +0000` -/
def afterRange : Stamp :=
  { nextHour with
    year := 2040
    year_lt := by decide
    day_mem := by decide }

/-- On a host two hours ahead of UTC. -/
theorem summerNoon_is_stored :
    (storedRow (glibc (fixedZone 7200 (by decide))) Cache.blankTm (ascii "id") 1
      (publishedAt summerNoon) Cache.emptyDb).pubDate = summerNoon.instant :=
  ((stores_instant_iff (fixedZone 7200 (by decide)) Cache.blankTm (ascii "id") 1
    (publishedAt summerNoon) Cache.emptyDb).2.1 summerNoon rfl).mpr ⟨by decide, rfl⟩

/-- Where the zone takes nothing off, whatever `tm_isdst`, the first date counts
as two hours later, and so as later than the second; and the third as a date of
1904. -/
theorem offset_and_range_lost :
    let stored := fun s : Stamp =>
      (storedRow (glibc (fixedZone 0 (by decide))) Cache.blankTm (ascii "id") 1 (publishedAt s)
        Cache.emptyDb).pubDate
    stored summerNoon = summerNoon.instant + 7200 ∧
      summerNoon.instant < nextHour.instant ∧ stored nextHour < stored summerNoon ∧
      stored afterRange = afterRange.instant - 2 ^ 32 := by
  decide +kernel

end Dates
end Newsbaoter
