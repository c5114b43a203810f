import Newsbaoter.Cache.Columns
import Newsbaoter.Support.DayNumbers
import Newsbaoter.Xsl.Dates

/-!
# The text of an entry

`write_entry_cb` writes the columns of the view `PubEntry` that hold a text, each
with its name; the date is the one that SQLite makes of `PubDate`.
`write_entry_raw_cb` writes a column alone.
-/

namespace Newsbaoter
namespace Pager

open Newsbaoter.Cache (Db Entry Op)
open Newsbaoter.Dates (Stamp fourDigits readCivil twoDigits)
open Newsbaoter.Support
open Newsbaoter.View (decimalLong)

/-! ## Dates -/

/-- The days from 0000-01-01 to 9999-12-31, for which the date functions of SQLite
are defined. -/
def Dated (t : ℤ) : Prop :=
  0 ≤ (dateOf (t / 86400)).year ∧ (dateOf (t / 86400)).year < 10000

instance (t : ℤ) : Decidable (Dated t) :=
  inferInstanceAs (Decidable (_ ∧ _))

theorem Dated.toNat_year {t : ℤ} (h : Dated t) :
    (((dateOf (t / 86400)).year.toNat : ℕ) : ℤ) = (dateOf (t / 86400)).year :=
  Int.toNat_of_nonneg h.1

theorem Dated.toNat_year_lt {t : ℤ} (h : Dated t) : (dateOf (t / 86400)).year.toNat < 10000 := by
  have hyear := h.2
  omega

theorem Dated.day_mem {t : ℤ} (h : Dated t) :
    1 ≤ (dateOf (t / 86400)).day ∧ (dateOf (t / 86400)).day ≤
      daysInMonth (dateOf (t / 86400)).year.toNat ((dateOf (t / 86400)).month + 1 - 1) := by
  rw [h.toNat_year, Nat.add_sub_cancel]
  exact (dateOf (t / 86400)).day_mem

theorem month_mem_dateOf (n : ℤ) : 1 ≤ (dateOf n).month + 1 ∧ (dateOf n).month + 1 ≤ 12 :=
  ⟨Nat.succ_pos _, (dateOf n).month_lt⟩

/-- A second of the day is before midnight. -/
theorem timeOfDay_lt (t : ℤ) :
    (t % 86400).toNat / 3600 < 24 ∧ (t % 86400).toNat / 60 % 60 < 60 ∧
      (t % 86400).toNat % 60 < 60 := by
  omega

theorem utcOffHour_lt : 0 < 100 :=
  Nat.succ_pos 99

theorem utcOffMinute_lt : 0 < 60 :=
  Nat.succ_pos 59

/-- The date and time of an instant in UTC. -/
def stampAt (t : ℤ) (h : Dated t) : Stamp where
  year := (dateOf (t / 86400)).year.toNat
  month := (dateOf (t / 86400)).month + 1
  day := (dateOf (t / 86400)).day
  hour := (t % 86400).toNat / 3600
  minute := (t % 86400).toNat / 60 % 60
  second := (t % 86400).toNat % 60
  west := false
  offHour := 0
  offMinute := 0
  year_lt := h.toNat_year_lt
  month_mem := month_mem_dateOf (t / 86400)
  day_mem := h.day_mem
  hour_lt := (timeOfDay_lt t).1
  minute_lt := (timeOfDay_lt t).2.1
  second_lt := (timeOfDay_lt t).2.2
  offHour_lt := utcOffHour_lt
  offMinute_lt := utcOffMinute_lt

/-- `YYYY-MM-DD HH:MM:SS` -/
def dateTime (s : Stamp) : CStr :=
  s.dateText ++ ascii " " ++ s.timeText

/-- `datetime(PubDate,'unixepoch')` -/
def datetime (t : ℤ) : Option CStr :=
  if h : Dated t then some (dateTime (stampAt t h)) else none

theorem civil_stampAt {t : ℤ} (h : Dated t) : (stampAt t h).civil = t := by
  have hyear := h.toNat_year
  have hnumber : days (dateOf (t / 86400)).year (dateOf (t / 86400)).month
      (dateOf (t / 86400)).day = t / 86400 := number_dateOf (t / 86400)
  rw [Stamp.civil]
  simp only [stampAt, hyear, Nat.add_sub_cancel, hnumber]
  omega

/-- The day of a date. -/
def dateOfStamp (s : Stamp) : Date where
  year := s.year
  month := s.month - 1
  day := s.day
  month_lt := by
    have hmonth := s.month_mem
    omega
  day_mem := s.day_mem

theorem civil_div (s : Stamp) : s.civil / 86400 = (dateOfStamp s).number := by
  have hhour := s.hour_lt
  have hminute := s.minute_lt
  have hsecond := s.second_lt
  have hnumber : (dateOfStamp s).number = days s.year (s.month - 1) s.day := rfl
  rw [Stamp.civil, hnumber]
  omega

theorem dateOf_civil (s : Stamp) : dateOf (s.civil / 86400) = dateOfStamp s := by
  rw [civil_div, Date.dateOf_number]

theorem dated_civil (s : Stamp) : Dated s.civil := by
  have hyear := s.year_lt
  rw [Dated, dateOf_civil]
  simp only [dateOfStamp]
  omega

/-- A date and time in UTC is written as it is. -/
theorem datetime_civil (s : Stamp) : datetime s.civil = some (dateTime s) := by
  have hhour := s.hour_lt
  have hminute := s.minute_lt
  have hsecond := s.second_lt
  have hmonth := s.month_mem
  have hrest : (s.civil % 86400).toNat = 3600 * s.hour + 60 * s.minute + s.second := by
    rw [Stamp.civil]
    omega
  have hyear' : (stampAt s.civil (dated_civil s)).year = s.year := by
    simp only [stampAt, dateOf_civil, dateOfStamp, Int.toNat_natCast]
  have hmonth' : (stampAt s.civil (dated_civil s)).month = s.month := by
    simp only [stampAt, dateOf_civil, dateOfStamp]
    omega
  have hday' : (stampAt s.civil (dated_civil s)).day = s.day := by
    simp only [stampAt, dateOf_civil, dateOfStamp]
  have hhour' : (stampAt s.civil (dated_civil s)).hour = s.hour := by
    simp only [stampAt, hrest]
    omega
  have hminute' : (stampAt s.civil (dated_civil s)).minute = s.minute := by
    simp only [stampAt, hrest]
    omega
  have hsecond' : (stampAt s.civil (dated_civil s)).second = s.second := by
    simp only [stampAt, hrest]
    omega
  rw [datetime, dif_pos (dated_civil s), dateTime, dateTime, Stamp.dateText, Stamp.timeText,
    hyear', hmonth', hday', hhour', hminute', hsecond']
  rfl

/-- What is written of an instant is read as that instant in UTC. -/
theorem readCivil_of_datetime {t : ℤ} {s : CStr} (h : datetime t = some s) :
    readCivil s = some t := by
  rw [datetime] at h
  split at h
  · next hdated =>
      have hread := Xsl.readCivil_dateTime (stampAt t hdated) []
      rw [List.append_nil, civil_stampAt hdated] at hread
      rw [← Option.some.inj h]
      exact hread
  · cases h

/-- An `int` is a date in the years from 1901 to 2038. -/
theorem dated_of_fits {t : ℤ} (hlow : -2 ^ 31 ≤ t) (hhigh : t < 2 ^ 31) : Dated t := by
  have hfirst : yearStart 0 ≤ t / 86400 := by
    simp only [yearStart, leapsBefore]
    omega
  have hlast : t / 86400 < yearStart 10000 := by
    simp only [yearStart, leapsBefore]
    omega
  exact ⟨le_yearOf_iff.mpr hfirst, yearOf_lt_iff.mpr hlast⟩

/-! ## `PubEntry` -/

/-- The titles of the columns and their values, as `SELECT *` has them. -/
def pubEntry (e : Entry) : List (CStr × Option CStr) :=
  [(ascii "EntryID", some (decimalLong e.entryID)), (ascii "FeedID", some (decimalLong e.feedID)),
    (ascii "Title", e.title), (ascii "Date", datetime e.pubDate), (ascii "URL", e.url),
    (ascii "AuthorName", e.authorName), (ascii "AuthorEmail", e.authorEmail),
    (ascii "Description", e.description), (ascii "Content", e.content)]

/-- `PUBENTRY_URL` -/
def pubentryUrl : ℕ := 4

/-- A line of the page. -/
def line (htmlPager : ℤ) (title s : CStr) : CStr :=
  title ++ ascii ": " ++ s ++ (if htmlPager ≠ 0 then ascii "<br/>" else []) ++ ascii "\n"

def linkText (htmlPager : ℤ) (url : CStr) : CStr :=
  if htmlPager ≠ 0 then ascii "<a href=\"" ++ url ++ ascii "\">" ++ url ++ ascii "</a>" else url

/-- What is written of column `i`. -/
def columnText (htmlPager : ℤ) (i : ℕ) (title : CStr) : Option CStr → CStr
  | none => []
  | some [] => []
  | some s => line htmlPager title (if i = pubentryUrl then linkText htmlPager s else s)

theorem columnText_filled
    (htmlPager : ℤ) (i : ℕ) (title : CStr) {s : CStr} (hs : s ≠ []) :
    columnText htmlPager i title (some s) =
      line htmlPager title (if i = pubentryUrl then linkText htmlPager s else s) := by
  cases s with
  | nil => exact absurd rfl hs
  | cons b bs => rfl

/-- The loop begins at the third column. -/
def writeEntryCb (htmlPager : ℤ) (row : List (CStr × Option CStr)) : CStr :=
  (row.zipIdx.drop 2).flatMap fun c => columnText htmlPager c.2 c.1.1 c.1.2

def writeEntryRawCb (row : List (CStr × Option CStr)) : CStr :=
  row.flatMap fun c => c.2.getD []

/-- What the callers pass for `field`: the columns of the view, or one of them. -/
inductive Field
  | all | url
deriving DecidableEq

/-- What a result row of `SELECT field FROM PubEntry` makes the callback write. -/
def fieldText (htmlPager : ℤ) (field : Field) (e : Entry) : CStr :=
  match field with
  | .all => writeEntryCb htmlPager (pubEntry e)
  | .url => writeEntryRawCb [(ascii "URL", e.url)]

/-- `cache_write_entry_field`, with what it writes to `fd`. -/
def cacheWriteEntryField (htmlPager : ℤ) (field : Field) (id : ℤ) (db : Db) : Db × CStr :=
  let db := Cache.cacheWriteEntryField id db
  (db, (db.entry.rows.filter fun e => e.entryID == id).flatMap (fieldText htmlPager field))

theorem fieldText_viewed (htmlPager : ℤ) (field : Field) (e : Entry) (viewed : ℤ) :
    fieldText htmlPager field { e with viewed := viewed } = fieldText htmlPager field e := by
  cases field with
  | _ => rfl

/-- Mark a row as read. -/
def markRead (e : Entry) : Entry :=
  { e with viewed := 1 }

/-- The texts of the row with the id are written, and it is marked as read. -/
theorem cacheWriteEntryField_of_mem
    (htmlPager : ℤ) (field : Field) {db : Db} {e : Entry} (he : e ∈ db.entry.rows) :
    let r := cacheWriteEntryField htmlPager field e.entryID db
    r.2 = fieldText htmlPager field e ∧ r.1.feed = db.feed ∧
      r.1.entry.rows = db.entry.rows.map fun x => if x = e then markRead x else x := by
  have hrows : (Cache.cacheWriteEntryField e.entryID db).entry.rows =
      db.entry.rows.map fun x => if x = e then markRead x else x := by
    refine List.map_congr_left fun x hx => ?_
    by_cases hxe : x = e
    · rw [if_pos hxe, if_pos (beq_iff_eq.mpr (congrArg Entry.entryID hxe))]
      rfl
    · have hid : ¬(x.entryID == e.entryID) = true := fun hid =>
        hxe (db.entry.eq_of_key_eq hx he (beq_iff_eq.mp hid))
      rw [if_neg hxe, if_neg hid]
  have hread : markRead e ∈ (Cache.cacheWriteEntryField e.entryID db).entry.rows := by
    rw [hrows]
    exact List.mem_map.mpr ⟨e, he, if_pos rfl⟩
  refine ⟨?_, rfl, hrows⟩
  have hfound := (Cache.cacheWriteEntryField e.entryID db).entry.filter_key_eq hread
  have hid : (markRead e).entryID = e.entryID := rfl
  rw [hid] at hfound
  rw [cacheWriteEntryField, hfound, List.flatMap_singleton]
  exact fieldText_viewed htmlPager field e 1

/-! ## Every entry of a run -/

theorem dateTime_ne_nil (s : Stamp) : dateTime s ≠ [] := by
  rw [dateTime, Stamp.dateText, Dates.fourDigits, Dates.twoDigits]
  exact List.cons_ne_nil _ _

/-- The line of the date is on the page. -/
theorem exists_fieldText_eq
    (htmlPager : ℤ) {e : Entry} {s : CStr} (hs : datetime e.pubDate = some s) :
    ∃ before after, fieldText htmlPager .all e =
      before ++ line htmlPager (ascii "Date") s ++ after := by
  have hne : s ≠ [] := by
    rw [datetime] at hs
    split at hs
    · rw [← Option.some.inj hs]
      exact dateTime_ne_nil _
    · cases hs
  have hline : columnText htmlPager 3 (ascii "Date") (datetime e.pubDate) =
      line htmlPager (ascii "Date") s := by
    rw [hs, columnText_filled _ _ _ hne, if_neg (by decide)]
  refine ⟨columnText htmlPager 2 (ascii "Title") e.title,
    ((pubEntry e).zipIdx.drop 4).flatMap fun c => columnText htmlPager c.2 c.1.1 c.1.2, ?_⟩
  rw [← hline, List.append_assoc]
  rfl

/-- Whatever is refreshed and read, every entry has a title, and a page whose date
denotes the instant that is stored. -/
theorem run_titles_and_dates (config : Cache.Config) (ops : List Op) :
    ∀ e ∈ (Cache.run config ops).entry.rows, e.title.isSome = true ∧
      ∃ s, readCivil s = some e.pubDate ∧
        ∀ htmlPager, ∃ before after, fieldText htmlPager .all e =
          before ++ line htmlPager (ascii "Date") s ++ after := by
  intro e he
  have hfits := Cache.carried_pubDate.run config ops e he
  have hdated := dated_of_fits hfits.1 hfits.2
  have hs : datetime e.pubDate = some (dateTime (stampAt e.pubDate hdated)) := dif_pos hdated
  exact ⟨Cache.carried_title.run config ops e he, _, readCivil_of_datetime hs,
    fun htmlPager => exists_fieldText_eq htmlPager hs⟩

theorem guidless_title_and_date :
    ∃ e ∈ (Cache.run Cache.datelessConfig [.refresh (Cache.guidlessRefresh 65)]).entry.rows,
      e.title.isSome = true ∧ ∃ s, readCivil s = some e.pubDate ∧
        ∀ htmlPager, ∃ before after, fieldText htmlPager .all e =
          before ++ line htmlPager (ascii "Date") s ++ after := by
  have hrows : (Cache.run Cache.datelessConfig
      [.refresh (Cache.guidlessRefresh 65)]).entry.rows ≠ [] := by
    decide
  obtain ⟨e, he⟩ := List.exists_mem_of_ne_nil _ hrows
  exact ⟨e, he, run_titles_and_dates Cache.datelessConfig _ e he⟩

end Pager
end Newsbaoter
