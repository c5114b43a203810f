import Newsbaoter.Dates.Inherited
import Newsbaoter.Xsl.Sheets

/-!
# Dates through the stylesheets

The RSS sheets take a date apart at its blanks and put it together as
`update_entry` parses it; the Atom sheets cut the time of a date to a number of
characters and take every date for one in UTC.
-/

namespace Newsbaoter
namespace Xsl

open Newsbaoter.Cache (Tm blankTm)
open Newsbaoter.Dates (Stamp Storable Zone digit fourDigits readCivil readTime storedDate strptime
  twoDigits)

/-! ## Texts of digits -/

theorem isDigit_of_mem_twoDigits {n : ℕ} (hn : n < 100) {b : UInt8} (hb : b ∈ twoDigits n) :
    isDigit b = true := by
  rcases List.mem_pair.mp hb with rfl | rfl
  · exact Dates.isDigit_digit (by omega)
  · exact Dates.isDigit_digit (by omega)

theorem notMem_twoDigits {n : ℕ} (hn : n < 100) {b : UInt8} (hb : isDigit b = false) :
    b ∉ twoDigits n := by
  intro hmem
  rw [isDigit_of_mem_twoDigits hn hmem] at hb
  cases hb

theorem notMem_fourDigits {n : ℕ} (hn : n < 10000) {b : UInt8} (hb : isDigit b = false) :
    b ∉ fourDigits n := by
  rw [fourDigits, List.mem_append, not_or]
  exact ⟨notMem_twoDigits (by omega) hb, notMem_twoDigits (by omega) hb⟩

theorem isContinuation_digit {n : ℕ} (hn : n < 10) : isContinuation (digit n) = false := by
  have hvalue := Dates.toNat_digit hn
  have hlow : ¬128 ≤ digit n := by
    rw [UInt8.le_iff_toNat_le, hvalue]
    have h128 : (128 : UInt8).toNat = 128 := rfl
    omega
  rw [isContinuation, decide_eq_false hlow, Bool.false_and]

theorem isContinuation_of_mem_twoDigits {n : ℕ} (hn : n < 100) {b : UInt8} (hb : b ∈ twoDigits n) :
    isContinuation b = false := by
  rcases List.mem_pair.mp hb with rfl | rfl
  · exact isContinuation_digit (by omega)
  · exact isContinuation_digit (by omega)

theorem notMem_timeText (s : Stamp) {b : UInt8} (hb : isDigit b = false) (hcolon : b ≠ 58) :
    b ∉ s.timeText := by
  have hhour := notMem_twoDigits (n := s.hour) (by have := s.hour_lt; omega) hb
  have hminute := notMem_twoDigits (n := s.minute) (by have := s.minute_lt; omega) hb
  have hsecond := notMem_twoDigits (n := s.second) (by have := s.second_lt; omega) hb
  have hcolon : b ∉ ascii ":" := mt List.mem_singleton.mp hcolon
  simp only [Stamp.timeText, List.mem_append, not_or]
  exact ⟨⟨⟨⟨hhour, hcolon⟩, hminute⟩, hcolon⟩, hsecond⟩

theorem notMem_dateText (s : Stamp) {b : UInt8} (hb : isDigit b = false) (hdash : b ≠ 45) :
    b ∉ s.dateText := by
  have hyear := notMem_fourDigits s.year_lt hb
  have hmonth := notMem_twoDigits (n := s.month) (by have := s.month_mem; omega) hb
  have hday := notMem_twoDigits (n := s.day) (by have := s.day_le; omega) hb
  have hdash : b ∉ ascii "-" := mt List.mem_singleton.mp hdash
  simp only [Stamp.dateText, List.mem_append, not_or]
  exact ⟨⟨⟨⟨hyear, hdash⟩, hmonth⟩, hdash⟩, hday⟩

/-! ## Dates of RSS -/

/-- The abbreviated name of a month. -/
def monthName (month : ℕ) : CStr :=
  ascii (["Jan", "Feb", "Mar", "Apr", "May", "Jun", "Jul", "Aug", "Sep", "Oct", "Nov",
    "Dec"].getD (month - 1) "")

theorem monthNumber_monthName {month : ℕ} (hlow : 1 ≤ month) (hhigh : month ≤ 12) :
    monthNumber (monthName month) = twoDigits month ∧ 32 ∉ monthName month := by
  have hall : ∀ m < 13, 1 ≤ m →
      monthNumber (monthName m) = twoDigits m ∧ 32 ∉ monthName m := by decide
  exact hall month (by omega) hlow

/-- The day of a date, of which a leading zero may be left out. -/
inductive DayText (s : Stamp) : CStr → Prop
  | padded : DayText s (twoDigits s.day)
  | short (h : s.day < 10) : DayText s [digit s.day]

/-- `Sat, 01 Jun 2024 12:00:00 +0200`: a date as RSS has it, in any zone. -/
def rfc822 (s : Stamp) (weekday day tz : CStr) : CStr :=
  weekday ++ (ascii ", " ++ (day ++ (ascii " " ++ (monthName s.month ++ (ascii " " ++
    (fourDigits s.year ++ (ascii " " ++ (s.timeText ++ (ascii " " ++ tz)))))))))

theorem DayText.pad {s : Stamp} {day : CStr} (h : DayText s day) :
    (if stringLength day < 2 then ascii "0" else []) ++ day = twoDigits s.day ∧ 32 ∉ day := by
  have hle := s.day_le
  cases h with
  | padded =>
      have hlength : stringLength (twoDigits s.day) = 2 :=
        stringLength_of_ascii fun b hb => isContinuation_of_mem_twoDigits (by omega) hb
      rw [hlength]
      exact ⟨rfl, notMem_twoDigits (by omega) (by decide)⟩
  | short h =>
      have hlength : stringLength [digit s.day] = 1 :=
        stringLength_of_ascii fun b hb => by
          rw [List.mem_singleton.mp hb]
          exact isContinuation_digit h
      have hdiv : s.day / 10 = 0 := by omega
      have hmod : s.day % 10 = s.day := by omega
      rw [hlength, twoDigits, hdiv, hmod]
      refine ⟨rfl, fun hmem => ?_⟩
      have hdigit := Dates.isDigit_digit h
      rw [← List.mem_singleton.mp hmem] at hdigit
      cases hdigit

/-- What the template makes of such a date. -/
theorem rssDate_rfc822
    (s : Stamp) {weekday day : CStr} (hweekday : 44 ∉ weekday) (hday : DayText s day) (tz : CStr) :
    (rssDate (rfc822 s weekday day tz)).flatten =
      s.dateText ++ ascii " " ++ s.timeText ++ ascii " " ++
        (if stringLength tz < 5 then ascii "+0000" else []) ++ tz := by
  have hcomma : ∀ {front : CStr}, 44 ∉ front → ∀ back,
      substringAfter (front ++ (ascii ", " ++ back)) (ascii ", ") = back :=
    fun h back => substringAfter_append h back
  have hbefore : ∀ {front : CStr}, 32 ∉ front → ∀ back,
      substringBefore (front ++ (ascii " " ++ back)) (ascii " ") = front :=
    fun h back => substringBefore_append h back
  have hafter : ∀ {front : CStr}, 32 ∉ front → ∀ back,
      substringAfter (front ++ (ascii " " ++ back)) (ascii " ") = back :=
    fun h back => substringAfter_append h back
  have hmonth := monthNumber_monthName s.month_mem.1 s.month_mem.2
  have hyear : 32 ∉ fourDigits s.year := notMem_fourDigits s.year_lt (by decide)
  have htime : 32 ∉ s.timeText := notMem_timeText s (by decide) (by decide)
  rw [rssDate, rfc822]
  simp only [hcomma hweekday, hbefore hday.pad.2, hafter hday.pad.2, hbefore hmonth.2,
    hafter hmonth.2, hbefore hyear, hafter hyear, hbefore htime, hafter htime, hmonth.1,
    List.flatten_cons, List.flatten_nil]
  rw [Stamp.dateText, ← hday.pad.1]
  simp only [List.append_assoc, List.append_nil]

/-- The same date and time in UTC. -/
def inUtc (s : Stamp) : Stamp :=
  { s with
    west := false
    offHour := 0
    offMinute := 0
    offHour_lt := Nat.succ_pos _
    offMinute_lt := Nat.succ_pos _ }

theorem text_inUtc (s : Stamp) :
    (inUtc s).text = s.dateText ++ ascii " " ++ s.timeText ++ ascii " " ++ ascii "+0000" := by
  have hoffset : (inUtc s).offsetText = ascii "+0000" := by
    have hzero : ascii "+" ++ twoDigits 0 ++ twoDigits 0 = ascii "+0000" := by decide
    exact hzero
  rw [Stamp.text, hoffset]
  rfl

theorem stringLength_offsetText (s : Stamp) : stringLength s.offsetText = 5 := by
  have hhour := s.offHour_lt
  have hminute := s.offMinute_lt
  have hsign : ∀ b ∈ ascii (if s.west then "-" else "+"), isContinuation b = false := by
    cases s.west with
    | false => exact fun b hb => by rw [List.mem_singleton.mp hb]; rfl
    | true => exact fun b hb => by rw [List.mem_singleton.mp hb]; rfl
  have hlength : (ascii (if s.west then "-" else "+")).length = 1 := by
    cases s.west with
    | false => rfl
    | true => rfl
  rw [stringLength_of_ascii, Stamp.offsetText, List.length_append, List.length_append, hlength]
  · rfl
  · intro b hb
    simp only [Stamp.offsetText, List.mem_append] at hb
    rcases hb with (hb | hb) | hb
    · exact hsign b hb
    · exact isContinuation_of_mem_twoDigits (by omega) hb
    · exact isContinuation_of_mem_twoDigits (by omega) hb

/-- A complete date and time is read, whatever follows. -/
theorem readCivil_dateTime (s : Stamp) (rest : CStr) :
    readCivil (s.dateText ++ ascii " " ++ s.timeText ++ rest) = some s.civil := by
  have hdate := s.readDate_dateText (ascii " " ++ (s.timeText ++ rest))
  have htime := s.readTime_timeText rest
  rw [readCivil, List.append_assoc, List.append_assoc, hdate]
  simp only [Option.bind_eq_bind, Option.bind_some, Stamp.dropWhile_blank_timeText, htime,
    Option.pure_def]
  rfl

/-- The zone of a date is nothing to what is stored of it. -/
theorem storedDate_dateTime (zone : Zone) (tp : Tm) (s : Stamp) (rest : CStr) :
    storedDate zone (s.dateText ++ ascii " " ++ s.timeText ++ rest) tp = s.instant ↔
      Storable zone tp s := by
  rw [← Dates.storedDate_eq_instant_iff, Dates.storedDate_of_readCivil s.readCivil_text,
    Dates.storedDate_of_readCivil (readCivil_dateTime s rest)]

/-- A date of RSS becomes the normalised date, a zone given by a short name
counting as UTC, and is stored as its instant just if that is storable. -/
theorem rssDate_normalises
    (s : Stamp) {weekday day : CStr} (hweekday : 44 ∉ weekday) (hday : DayText s day) :
    (rssDate (rfc822 s weekday day s.offsetText)).flatten = s.text ∧
      (∀ tz, stringLength tz < 5 →
        (rssDate (rfc822 s weekday day tz)).flatten = (inUtc s).text ++ tz) ∧
      ∀ (zone : Zone) (tp : Tm) (tz : CStr),
        storedDate zone (rssDate (rfc822 s weekday day tz)).flatten tp = s.instant ↔
          Storable zone tp s := by
  refine ⟨?_, fun tz htz => ?_, fun zone tp tz => ?_⟩
  · rw [rssDate_rfc822 s hweekday hday, stringLength_offsetText, if_neg (by decide),
      List.append_nil]
    rfl
  · rw [rssDate_rfc822 s hweekday hday, if_pos htz, text_inUtc]
  · have hstored := storedDate_dateTime zone tp s
      (ascii " " ++ (if stringLength tz < 5 then ascii "+0000" else []) ++ tz)
    rw [rssDate_rfc822 s hweekday hday]
    simpa only [List.append_assoc] using hstored

/-- `Sat, 1 Jun 2024 12:00:00 +0200`, and the same in a zone given by name. -/
theorem summerNoon_normalises :
    (rssDate (rfc822 Dates.summerNoon (ascii "Sat") [digit 1] Dates.summerNoon.offsetText)).flatten =
        Dates.summerNoon.text ∧
      (rssDate (rfc822 Dates.summerNoon (ascii "Sat") [digit 1] (ascii "EST"))).flatten =
        (inUtc Dates.summerNoon).text ++ ascii "EST" ∧
      storedDate (Dates.fixedZone 7200 (by decide))
        (rssDate (rfc822 Dates.summerNoon (ascii "Sat") [digit 1] (ascii "EST"))).flatten blankTm =
          Dates.summerNoon.instant := by
  obtain ⟨hsame, hutc, hstored⟩ := rssDate_normalises Dates.summerNoon
    (show 44 ∉ ascii "Sat" by decide) (DayText.short (s := Dates.summerNoon) (by decide))
  exact ⟨hsame, hutc _ (by decide), (hstored _ _ _).mpr ⟨by decide, rfl⟩⟩

/-- A date that is not in this form, such as one of `dc:date`, becomes one and the
same text, and what is stored is what the `struct tm` happened to hold. -/
theorem rssDate_loses
    {dateTime : CStr} (h : ¬ascii ", " <:+: dateTime) :
    (rssDate dateTime).flatten = ascii "--0  +0000" ∧
      ∀ zone, ∃ tp tp', storedDate zone (rssDate dateTime).flatten tp ≠
        storedDate zone (rssDate dateTime).flatten tp' := by
  have htext : (rssDate dateTime).flatten = ascii "--0  +0000" := by
    rw [rssDate, substringAfter_eq_nil (by decide) h]
    decide
  have hread : readCivil (ascii "--0  +0000") = none := by decide
  refine ⟨htext, fun zone => ?_⟩
  rw [htext]
  exact ⟨_, _, Dates.storedDate_ne_of_hour zone hread Dates.near_blankTm⟩

theorem isoDate_lost :
    (rssDate (ascii "2024-06-01T12:00:00Z")).flatten = ascii "--0  +0000" :=
  (rssDate_loses fun h => absurd (h.subset List.mem_cons_self) (by decide)).1

/-! ## Dates of Atom -/

/-- `2024-06-01T12:00:00Z`: a date as Atom has it, with any zone behind it. -/
def iso8601 (s : Stamp) (rest : CStr) : CStr :=
  s.dateText ++ (ascii "T" ++ (s.timeText ++ rest))

/-- The time without its last digit. -/
def cutTime (s : Stamp) : CStr :=
  twoDigits s.hour ++ ascii ":" ++ twoDigits s.minute ++ ascii ":" ++ [digit (s.second / 10)]

/-- The tens of the seconds as the seconds. -/
def cutSeconds (s : Stamp) : Stamp :=
  { s with
    second := s.second / 10
    second_lt := by have := s.second_lt; omega }

theorem atomDate_eq {s : Stamp} {rest time : CStr} {n : ℕ}
    (htime : substringFromZero (s.timeText ++ rest) n = time) :
    (atomDate n (iso8601 s rest)).flatten = s.dateText ++ ascii " " ++ time ++ ascii " +0000" := by
  have hdate : 84 ∉ s.dateText := notMem_dateText s (by decide) (by decide)
  have hbefore : substringBefore (iso8601 s rest) (ascii "T") = s.dateText :=
    substringBefore_append hdate _
  have hafter : substringAfter (iso8601 s rest) (ascii "T") = s.timeText ++ rest :=
    substringAfter_append hdate _
  rw [atomDate, hbefore, hafter, htime]
  simp only [List.flatten_cons, List.flatten_nil, List.append_nil, List.append_assoc]

theorem isContinuation_of_mem_cutTime {s : Stamp} {b : UInt8} (hb : b ∈ cutTime s) :
    isContinuation b = false := by
  have hhour := s.hour_lt
  have hminute := s.minute_lt
  have hsecond := s.second_lt
  have hcolon : ∀ b ∈ ascii ":", isContinuation b = false := fun b hb => by
    rw [List.mem_singleton.mp hb]
    rfl
  simp only [cutTime, List.mem_append] at hb
  rcases hb with (((hb | hb) | hb) | hb) | hb
  · exact isContinuation_of_mem_twoDigits (by omega) hb
  · exact hcolon b hb
  · exact isContinuation_of_mem_twoDigits (by omega) hb
  · exact hcolon b hb
  · rw [List.mem_singleton.mp hb]
    exact isContinuation_digit (by omega)

theorem timeText_eq (s : Stamp) : s.timeText = cutTime s ++ [digit (s.second % 10)] := by
  simp only [Stamp.timeText, cutTime, twoDigits, List.append_assoc, List.cons_append,
    List.nil_append]

/-- The whole time is eight characters. -/
theorem atomDate_nine
    (s : Stamp) {rest : CStr} (hrest : ∀ b ∈ rest.head?, isContinuation b = false) :
    (atomDate 9 (iso8601 s rest)).flatten = (inUtc s).text := by
  have hchars : ∀ b ∈ s.timeText, isContinuation b = false := by
    intro b hb
    rw [timeText_eq, List.mem_append] at hb
    rcases hb with hb | hb
    · exact isContinuation_of_mem_cutTime hb
    · rw [List.mem_singleton.mp hb]
      exact isContinuation_digit (by omega)
  have hblank : ascii " +0000" = ascii " " ++ ascii "+0000" := rfl
  have htime : substringFromZero (s.timeText ++ rest) 9 = s.timeText :=
    characters_append hchars hrest
  rw [atomDate_eq htime, text_inUtc, hblank, ← List.append_assoc]

/-- Seven characters leave out the last digit. -/
theorem atomDate_eight (s : Stamp) (rest : CStr) :
    (atomDate 8 (iso8601 s rest)).flatten = s.dateText ++ ascii " " ++ cutTime s ++ ascii " +0000" := by
  refine atomDate_eq ?_
  have hrest : ∀ b ∈ ([digit (s.second % 10)] ++ rest).head?, isContinuation b = false := by
    intro b hb
    rw [← Option.some.inj hb]
    exact isContinuation_digit (by omega)
  rw [timeText_eq, List.append_assoc]
  exact characters_append (fun b hb => isContinuation_of_mem_cutTime hb) hrest

theorem readTime_cutTime (s : Stamp) (rest : CStr) :
    readTime (cutTime s ++ (ascii " " ++ rest)) =
      some ((s.hour, s.minute, s.second / 10), ascii " " ++ rest) := by
  have hhour := s.hour_lt
  have hminute := s.minute_lt
  have hsecond := s.second_lt
  have hcolon : ∀ rp, Dates.matchChar 58 (ascii ":" ++ rp) = some rp :=
    fun rp => Dates.matchChar_self 58 rp
  have hdigits : Dates.readDigits 61 2 0 (digit (s.second / 10) :: (ascii " " ++ rest)) =
      (s.second / 10, ascii " " ++ rest) := by
    rw [Dates.readDigits_digit (by omega) (by omega), Nat.zero_mul, Nat.zero_add]
    rfl
  simp only [readTime, cutTime, List.append_assoc, hcolon,
    Dates.getNumber_twoDigits (n := s.hour) (by omega) (Nat.zero_le _) (Nat.le_of_lt_succ hhour),
    Dates.getNumber_twoDigits (n := s.minute) (by omega) (Nat.zero_le _)
      (Nat.le_of_lt_succ hminute), List.singleton_append,
    Dates.getNumber_of_digit (by omega) 0 hdigits (Nat.zero_le _) (show s.second / 10 ≤ 61 by omega),
    Option.bind_eq_bind, Option.bind_some, Option.pure_def]

/-- So the tens of the seconds are read as the seconds. -/
theorem strptime_cutTime (s : Stamp) (tp : Tm) :
    strptime (s.dateText ++ ascii " " ++ cutTime s ++ ascii " +0000") tp =
      strptime (inUtc (cutSeconds s)).text tp := by
  have hhour := s.hour_lt
  have hzone : ascii " +0000" = ascii " " ++ ascii "+0000" := rfl
  have hskip : (ascii " " ++ (cutTime s ++ (ascii " " ++ ascii "+0000"))).dropWhile isSpace =
      cutTime s ++ (ascii " " ++ ascii "+0000") :=
    Dates.dropWhile_digit (n := s.hour / 10) (by omega) _
  have hdate := s.readDate_dateText (ascii " " ++ (cutTime s ++ (ascii " " ++ ascii "+0000")))
  have htime := readTime_cutTime s (ascii "+0000")
  have hdate' := (cutSeconds s).readDate_dateText
    (ascii " " ++ ((cutSeconds s).timeText ++ (ascii " " ++ ascii "+0000")))
  have htime' := (cutSeconds s).readTime_timeText (ascii " " ++ ascii "+0000")
  rw [text_inUtc, hzone]
  simp only [List.append_assoc, strptime, hdate, hdate', hskip, Stamp.dropWhile_blank_timeText,
    htime, htime']
  rfl

/-! ## What is stored of them -/

theorem storedDate_cutTime (zone : Zone) (tp : Tm) (s : Stamp) (rest : CStr) :
    storedDate zone (atomDate 8 (iso8601 s rest)).flatten tp =
      toInt ((cutSeconds s).civil - zone.offset (cutSeconds s).civil tp.isdst) := by
  rw [atomDate_eight, storedDate, strptime_cutTime, ← storedDate,
    Dates.storedDate_of_readCivil (inUtc (cutSeconds s)).readCivil_text]
  rfl

/-- `2024-06-01 20:15:42 +0000` -/
def evening : Stamp :=
  { inUtc Dates.summerNoon with
    hour := 20
    minute := 15
    second := 42
    hour_lt := by decide
    minute_lt := by decide
    second_lt := by decide }

/-- An Atom date is stored as its instant, whatever its zone, just if that is
storable.  The first date of an Atom 1.0 entry must moreover be a whole minute,
where the local zone is one of whole minutes: its seconds are cut to their tens. -/
theorem atomDate_stored_iff
    (zone : Zone) (tp : Tm) (s : Stamp) {rest : CStr}
    (hrest : ∀ b ∈ rest.head?, isContinuation b = false) :
    (storedDate zone (atomDate 9 (iso8601 s rest)).flatten tp = s.instant ↔ Storable zone tp s) ∧
      ((∀ civil isdst, (60 : ℤ) ∣ zone.offset civil isdst) →
        (storedDate zone (atomDate 8 (iso8601 s rest)).flatten tp = s.instant ↔
          s.second = 0 ∧ Storable zone tp s)) := by
  refine ⟨?_, fun hminutes => ?_⟩
  · have hstored := storedDate_dateTime zone tp s (ascii " " ++ ascii "+0000")
    rw [atomDate_nine s hrest, text_inUtc, List.append_assoc]
    exact hstored
  · have hsecond := s.second_lt
    have hbound := zone.bound (cutSeconds s).civil tp.isdst
    have hhour := s.offHour_lt
    have hminute := s.offMinute_lt
    have hcut : (cutSeconds s).civil = s.civil - s.second + (s.second / 10 : ℕ) := by
      simp only [Stamp.civil, cutSeconds]
      omega
    have hoffset : (60 : ℤ) ∣ s.offset ∧ s.offset.natAbs < 400000 := by
      rw [Stamp.offset]
      split
      · omega
      · omega
    have hdvd := hminutes (cutSeconds s).civil tp.isdst
    have hclose : ((cutSeconds s).civil - zone.offset (cutSeconds s).civil tp.isdst -
        s.instant).natAbs < 2 ^ 32 := by
      rw [Stamp.instant]
      omega
    rw [storedDate_cutTime, Dates.toInt_eq_iff hclose]
    constructor
    · rintro ⟨hfits, heq⟩
      rw [Stamp.instant] at heq
      have hzero : s.second = 0 := by omega
      have hsame : (cutSeconds s).civil = s.civil := by omega
      rw [hsame] at heq
      exact ⟨hzero, hfits, by omega⟩
    · rintro ⟨hzero, hfits, heq⟩
      have hsame : (cutSeconds s).civil = s.civil := by omega
      rw [hsame, heq, Stamp.instant]
      exact ⟨hfits, rfl⟩

/-- A date with seconds is stored as its update just as it is, and not as its
publication. -/
theorem evening_stored :
    let zone := Dates.fixedZone 0 (by decide)
    storedDate zone (atomDate 9 (iso8601 evening (ascii "Z"))).flatten blankTm = evening.instant ∧
      storedDate zone (atomDate 8 (iso8601 evening (ascii "Z"))).flatten blankTm ≠
        evening.instant := by
  have hzone : ∀ b ∈ (ascii "Z").head?, isContinuation b = false := by
    intro b hb
    rw [← Option.some.inj hb]
    rfl
  have hminutes : ∀ civil isdst, (60 : ℤ) ∣ (Dates.fixedZone 0 (by decide)).offset civil isdst :=
    fun _ _ => ⟨0, rfl⟩
  obtain ⟨hupdated, hpublished⟩ := atomDate_stored_iff (Dates.fixedZone 0 (by decide)) blankTm evening
    hzone
  refine ⟨hupdated.mpr ⟨by decide, rfl⟩, fun heq => ?_⟩
  exact absurd ((hpublished hminutes).mp heq).1 (by decide)

/-! ## Dates of RDF -/

/-- The first instant of the date in UTC. -/
def midnight (s : Stamp) : Stamp :=
  { inUtc s with
    hour := 0
    minute := 0
    second := 0
    hour_lt := Nat.succ_pos _
    minute_lt := Nat.succ_pos _
    second_lt := Nat.succ_pos _ }

theorem text_midnight (s : Stamp) :
    (midnight s).text = s.dateText ++ ascii " 00:00:00 +0000" := by
  have htime : (midnight s).timeText = ascii "00:00:00" := by
    have hzero : twoDigits 0 ++ ascii ":" ++ twoDigits 0 ++ ascii ":" ++ twoDigits 0 =
        ascii "00:00:00" := by decide
    exact hzero
  have hutc : (midnight s).text = s.dateText ++ ascii " " ++ (midnight s).timeText ++
      ascii " " ++ ascii "+0000" := text_inUtc (midnight s)
  rw [hutc, htime]
  simp only [List.append_assoc]
  rfl

/-- A bare date is read in full, and stored as its midnight just if that is storable.
Of a date with a time behind it the day alone is read, and the `struct tm` keeps the
hours that it happened to hold. -/
theorem rdfDate_stored (zone : Zone) (s : Stamp) :
    (∀ tp, (strptime (rdfDate s.dateText).flatten tp).2 = true ∧
        (storedDate zone (rdfDate s.dateText).flatten tp = (midnight s).instant ↔
          Storable zone tp (midnight s))) ∧
      ∀ rest,
        (∀ tp, strptime (rdfDate (iso8601 s rest)).flatten tp =
          ({ tp with year := s.year - 1900, mon := s.month - 1, mday := s.day }, false)) ∧
        ∃ tp tp', storedDate zone (rdfDate (iso8601 s rest)).flatten tp ≠
          storedDate zone (rdfDate (iso8601 s rest)).flatten tp' := by
  have hflatten : ∀ day, (rdfDate day).flatten = day ++ ascii " 00:00:00 +0000" := fun _ => rfl
  have htime : ∀ rp, readTime ((ascii "T" ++ rp).dropWhile isSpace) = none := fun _ => rfl
  constructor
  · intro tp
    rw [hflatten, ← text_midnight]
    exact ⟨((midnight s).strptime_text tp).1, Dates.storedDate_eq_instant_iff zone tp (midnight s)⟩
  · intro rest
    rw [hflatten, iso8601, List.append_assoc, List.append_assoc]
    constructor
    · intro tp
      rw [strptime, Stamp.readDate_dateText]
      simp only [htime]
    · have hread : readCivil (s.dateText ++ (ascii "T" ++ (s.timeText ++ rest ++
          ascii " 00:00:00 +0000"))) = none := by
        rw [readCivil, Stamp.readDate_dateText]
        simp only [Option.bind_eq_bind, Option.bind_some, htime, Option.bind_none]
      exact ⟨_, _, Dates.storedDate_ne_of_hour zone hread Dates.near_blankTm⟩

end Xsl
end Newsbaoter
