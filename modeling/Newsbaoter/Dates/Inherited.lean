import Newsbaoter.Dates.Stored

/-!
# Dates that come from elsewhere

One uninitialised `struct tm` serves both dates of an entry, and nobody looks at
what `strptime` returns.  A text without a complete time takes over what the
`struct tm` holds: what the stack held, or the other date.
-/

namespace Newsbaoter
namespace Dates

open Newsbaoter.Cache (Tm XmlNode blankTm)

/-- `strptime` returns NULL. -/
def Unparsable (s : CStr) : Prop :=
  ∀ tp, (strptime s tp).2 = false

/-- The dates stored for an entry are its own: two runs store the same ones,
whatever `tp` held and whatever is in the cache, and an update that cannot be
parsed is stored the same beside any publishing date. -/
structure OwnDates (zone : Zone) (children : List XmlNode) : Prop where
  runs : ∀ tp tp' uid uid' feedid feedid' db db',
    (storedRow (glibc zone) tp uid feedid children db).pubDate =
        (storedRow (glibc zone) tp' uid' feedid' children db').pubDate ∧
      (storedRow (glibc zone) tp uid feedid children db).modDate =
        (storedRow (glibc zone) tp' uid' feedid' children db').modDate
  update : ∀ s, dateText children .udate = some s → Unparsable s →
    ∀ children', dateText children' .udate = some s → ∀ tp uid feedid db,
      (storedRow (glibc zone) tp uid feedid children' db).modDate =
        (storedRow (glibc zone) tp uid feedid children db).modDate

/-- The text has a complete date and time, and the local zone has one offset
then, whether or not it counts as daylight saving time. -/
def Settled (zone : Zone) (s : CStr) : Prop :=
  ∃ c, readCivil s = some c ∧ ∀ isdst isdst', zone.offset c isdst = zone.offset c isdst'

/-! ## What one text stores -/

theorem Settled.storedDate_eq
    {zone : Zone} {s : CStr} (h : Settled zone s) (tp tp' : Tm) :
    storedDate zone s tp = storedDate zone s tp' := by
  obtain ⟨c, hc, hoffset⟩ := h
  rw [storedDate_of_readCivil hc, storedDate_of_readCivil hc, hoffset tp.isdst tp'.isdst]

theorem unparsable_of_readCivil {s : CStr} (h : readCivil s = none) : Unparsable s :=
  fun tp => congrArg Prod.snd (strptime_atHour h tp tp.hour)

/-- Without a complete time, the hour of `tp` is stored: a thousand hours are
more than any two offsets differ. -/
theorem storedDate_ne_of_hour
    (zone : Zone) {s : CStr} (h : readCivil s = none) {tp : Tm} (hnear : Near tp) :
    storedDate zone s (atHour tp 0) ≠ storedDate zone s (atHour tp 1000) := by
  have hhour : ∀ n : ℤ, n.natAbs ≤ 1000 →
      storedDate zone s (atHour tp n) = toInt (mktime zone (atHour (strptime s tp).1 n)) := by
    intro n hn
    have hafter := ((hnear.strptime s).atHour hn).natAbs_civil_lt
    rw [storedDate, strptime_atHour h, bindDate_strftime (mktime_natAbs_lt zone hafter)]
  have hshift := civil_atHour (strptime s tp).1 1000
  have hbefore := zone.bound (civil (atHour (strptime s tp).1 0))
    (atHour (strptime s tp).1 0).isdst
  have hafter := zone.bound (civil (atHour (strptime s tp).1 1000))
    (atHour (strptime s tp).1 1000).isdst
  rw [hhour 0 (by decide), hhour 1000 (by decide), mktime, mktime]
  intro heq
  have hsame := eq_of_toInt_eq (by omega) heq
  omega

def withDst (tp : Tm) (isdst : ℤ) : Tm :=
  { tp with isdst := isdst }

/-- Two offsets that store the same are the same. -/
theorem settled_of_isdst
    {zone : Zone} {s : CStr} {c : ℤ} (hc : readCivil s = some c)
    (hsame : ∀ isdst isdst', toInt (c - zone.offset c isdst) = toInt (c - zone.offset c isdst')) :
    Settled zone s := by
  refine ⟨c, hc, fun isdst isdst' => ?_⟩
  have hbound := zone.bound c isdst
  have hbound' := zone.bound c isdst'
  have hcivil := eq_of_toInt_eq (by omega) (hsame isdst isdst')
  omega

/-- A text is settled just if what it stores does not depend on `tp`. -/
theorem settled_iff (zone : Zone) (s : CStr) :
    Settled zone s ↔ ∀ tp tp', storedDate zone s tp = storedDate zone s tp' := by
  constructor
  · exact Settled.storedDate_eq
  · intro hsame
    cases hc : readCivil s with
    | none => exact absurd (hsame _ _) (storedDate_ne_of_hour zone hc near_blankTm)
    | some c =>
        refine settled_of_isdst hc fun isdst isdst' => ?_
        have heq := hsame (withDst blankTm isdst) (withDst blankTm isdst')
        rwa [storedDate_of_readCivil hc, storedDate_of_readCivil hc] at heq

/-! ## Whole entries -/

/-- So are the dates of an entry, as far as it has them. -/
structure SettledDates (zone : Zone) (children : List XmlNode) : Prop where
  publish : ∀ s, dateText children .pdate = some s → Settled zone s
  update : ∀ s, dateText children .udate = some s → Settled zone s

theorem SettledDates.modDate_eq
    {zone : Zone} {children : List XmlNode} (h : SettledDates zone children)
    (tp tp' : Tm) (uid uid' : CStr) (feedid feedid' : ℤ) (db db' : Cache.Db) :
    (storedRow (glibc zone) tp uid feedid children db).modDate =
      (storedRow (glibc zone) tp' uid' feedid' children db').modDate := by
  cases hdate : dateText children .udate with
  | none =>
      rw [storedRow_modDate_of_none zone tp uid feedid db hdate,
        storedRow_modDate_of_none zone tp' uid' feedid' db' hdate]
  | some s =>
      rw [storedRow_modDate zone tp uid feedid db hdate,
        storedRow_modDate zone tp' uid' feedid' db' hdate]
      exact (h.update s hdate).storedDate_eq _ _

theorem SettledDates.ownDates
    {zone : Zone} {children : List XmlNode} (h : SettledDates zone children) :
    OwnDates zone children where
  runs := by
    intro tp tp' uid uid' feedid feedid' db db'
    have hmod := h.modDate_eq tp tp' uid uid' feedid feedid' db db'
    refine ⟨?_, hmod⟩
    cases hdate : dateText children .pdate with
    | none =>
        rw [storedRow_pubDate_of_none zone tp uid feedid db hdate,
          storedRow_pubDate_of_none zone tp' uid' feedid' db' hdate]
        exact hmod
    | some s =>
        rw [storedRow_pubDate zone tp uid feedid db hdate,
          storedRow_pubDate zone tp' uid' feedid' db' hdate]
        exact (h.publish s hdate).storedDate_eq tp tp'
  update := by
    intro s hs _ children' hs' tp uid feedid db
    rw [storedRow_modDate zone tp uid feedid db hs, storedRow_modDate zone tp uid feedid db hs']
    exact (h.update s hs).storedDate_eq _ _

/-- An entry element that has just this update. -/
def updatedAt (s : CStr) : List XmlNode :=
  [.elem (ascii "lastUpdatedDateTime") [.text s]]

theorem OwnDates.publish
    {zone : Zone} {children : List XmlNode} (h : OwnDates zone children) {s : CStr}
    (hdate : dateText children .pdate = some s) :
    Settled zone s := by
  rw [settled_iff]
  intro tp tp'
  have hsame := (h.runs tp tp' [] [] 0 0 Cache.emptyDb Cache.emptyDb).1
  rwa [storedRow_pubDate _ _ _ _ _ hdate, storedRow_pubDate _ _ _ _ _ hdate] at hsame

/-- An update without a complete time is stored the same without the publishing
date, and then it depends on `tp`. -/
theorem OwnDates.readCivil_ne_none
    {zone : Zone} {children : List XmlNode} (h : OwnDates zone children) {s : CStr}
    (hdate : dateText children .udate = some s) :
    readCivil s ≠ none := by
  intro hnone
  have halone : dateText (updatedAt s) .udate = some s := rfl
  have hafter : ∀ tp, tmAfterPublish (updatedAt s) tp = tp := fun _ => rfl
  have hstored : ∀ tp, storedDate zone s tp =
      (storedRow (glibc zone) tp [] 0 children Cache.emptyDb).modDate := by
    intro tp
    rw [← h.update s hdate (unparsable_of_readCivil hnone) (updatedAt s) halone tp [] 0
      Cache.emptyDb, storedRow_modDate zone tp [] 0 Cache.emptyDb halone, hafter]
  have hsame := (h.runs (atHour blankTm 0) (atHour blankTm 1000) [] [] 0 0
    Cache.emptyDb Cache.emptyDb).2
  rw [← hstored, ← hstored] at hsame
  exact storedDate_ne_of_hour zone hnone near_blankTm hsame

theorem OwnDates.settled_update
    {zone : Zone} {children : List XmlNode} (h : OwnDates zone children) {s : CStr}
    (hdate : dateText children .udate = some s) :
    Settled zone s := by
  obtain ⟨c, hc⟩ := Option.ne_none_iff_exists'.mp (h.readCivil_ne_none hdate)
  refine settled_of_isdst hc fun isdst isdst' => ?_
  have hsame := (h.runs (withDst blankTm isdst) (withDst blankTm isdst') [] [] 0 0
    Cache.emptyDb Cache.emptyDb).2
  rw [storedRow_modDate _ _ _ _ _ hdate, storedRow_modDate _ _ _ _ _ hdate,
    storedDate_of_readCivil hc, storedDate_of_readCivil hc, tmAfterPublish_isdst,
    tmAfterPublish_isdst] at hsame
  exact hsame

/-- An entry stores its own dates just if these are settled. -/
theorem ownDates_iff (zone : Zone) (children : List XmlNode) :
    OwnDates zone children ↔ SettledDates zone children := by
  constructor
  · intro h
    exact ⟨fun _ => h.publish, fun _ => h.settled_update⟩
  · exact SettledDates.ownDates

/-- A publishing date without a time, and an update that is no date. -/
def partialDates : List XmlNode :=
  [.elem (ascii "publishDateTime") [.text (ascii "2024-01-15")],
   .elem (ascii "lastUpdatedDateTime") [.text (ascii "soon")]]

/-- Where the zone takes nothing off, whatever `tm_isdst`, the hour of the first
comes from the stack, and the second is stored as if it were the first. -/
theorem dates_from_elsewhere :
    let stored := fun tp => storedRow (glibc (fixedZone 0 (by decide))) tp (ascii "id") 1
      partialDates Cache.emptyDb
    (stored (atHour blankTm 10)).pubDate = (stored (atHour blankTm 0)).pubDate + 36000 ∧
      (stored blankTm).modDate = (stored blankTm).pubDate ∧
      ¬OwnDates (fixedZone 0 (by decide)) partialDates := by
  refine ⟨by decide +kernel, by decide +kernel, fun h => ?_⟩
  have hsame := (h.runs (atHour blankTm 10) (atHour blankTm 0) (ascii "id") (ascii "id") 1 1
    Cache.emptyDb Cache.emptyDb).1
  exact absurd hsame (by decide +kernel)

end Dates
end Newsbaoter
