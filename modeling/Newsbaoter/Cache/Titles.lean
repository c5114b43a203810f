import Newsbaoter.Cache.Repeat
import Newsbaoter.View.Multibyte

/-!
# The title of an entry without one

`update_entry` makes a title out of the first 49 bytes of the description or the
content.  It counts bytes, so a character that lies across the cut is stored in
part, and the list view cannot convert such a title.
-/

namespace Newsbaoter
namespace Cache

open Newsbaoter.View (utf8Decode utf8Decode_ascii utf8Decode_drop utf8Decode_take_iff utf8Locale
  isContinuation charsToWidechars store)

/-- A text of the entry, as libxml2 delivers it. -/
def field (children : List XmlNode) (f : EntryField) : Option CStr :=
  getContentIfAvail children (entryFields f)

def ValidFields (children : List XmlNode) : Prop :=
  ∀ f, ∀ s ∈ field children f, (utf8Decode s).2 = true

/-- The text that stands in for the title. -/
def titleSource (children : List XmlNode) : Option CStr :=
  (field children .desc).or (field children .content)

/-- The title, else whole characters from the front of the description or the
content, else the unique id. -/
def IsTitle (uid : CStr) (children : List XmlNode) (t : CStr) : Prop :=
  match field children .title, titleSource children with
  | some title, _ => t = title
  | none, some text =>
      ∃ rest, text = t ++ rest ∧ t.length ≤ 49 ∧ (utf8Decode rest).2 = true
  | none, none => t = (field children .uid).getD uid

/-- With room for it, `chars_to_widechars` converts the whole text. -/
def Convertible (t : CStr) : Prop :=
  ∀ mem dst max, ((utf8Decode t).1.length : ℤ) < max →
    charsToWidechars utf8Locale mem dst t max =
      (store mem dst ((utf8Decode t).1 ++ [0]), ((utf8Decode t).1.length : ℤ))

/-- `update_entry` hands on a valid title, which is stored. -/
def StoresTitle (time : TimeLib) (tp : Tm) (uid : CStr) (feedid : ℤ)
    (children : List XmlNode) (db : Db) : Prop :=
  ∃ t, entryData time tp uid children .title = some t ∧ (utf8Decode t).2 = true ∧
    IsTitle uid children t ∧
    (∃ e ∈ (updateEntry time tp uid feedid children db).entry.rows, e.title = some t) ∧
    Convertible t

theorem convertible_of_valid {t : CStr} (h : (utf8Decode t).2 = true) : Convertible t := by
  intro mem dst max hroom
  have hdecode : utf8Locale.decode t = utf8Decode t := rfl
  rw [charsToWidechars, if_neg (by omega)]
  simp only [hdecode, if_neg (Int.not_le.mpr hroom), h, if_true]

/-- The title that `update_entry` settles on. -/
def settledTitle (uid : CStr) (children : List XmlNode) : CStr :=
  (field children .title).getD
    (((titleSource children).map fun text => text.take 49).getD ((field children .uid).getD uid))

theorem entryData_settledTitle (time : TimeLib) (tp : Tm) (uid : CStr) (children : List XmlNode) :
    entryData time tp uid children .title = some (settledTitle uid children) := by
  have hfallback : ∀ (desc content : Option CStr) (ident : CStr),
      fallbackTitle desc content ident =
        ((desc.or content).map fun text => text.take 49).getD ident := by
    intro desc content ident
    cases desc with
    | some d => rfl
    | none => cases content <;> rfl
  exact congrArg (fun t => some ((field children .title).getD t)) (hfallback _ _ _)

theorem storesTitle_iff_settled
    (time : TimeLib) (tp : Tm) (uid : CStr) (feedid : ℤ) (children : List XmlNode) (db : Db) :
    StoresTitle time tp uid feedid children db ↔
      (utf8Decode (settledTitle uid children)).2 = true ∧
        IsTitle uid children (settledTitle uid children) := by
  have htitle := entryData_settledTitle time tp uid children
  constructor
  · rintro ⟨t, ht, hvalid, his, -⟩
    obtain rfl := Option.some.inj (htitle.symm.trans ht)
    exact ⟨hvalid, his⟩
  · rintro ⟨hvalid, his⟩
    refine ⟨_, htitle, hvalid, his, ?_, convertible_of_valid hvalid⟩
    exact ⟨_, Support.KeyedTable.mem_insertOrReplace.mpr (Or.inl rfl), htitle⟩

/-- A text of the entry stands in for the title as far as its first 49 bytes are
whole characters. -/
theorem settled_of_source
    {uid : CStr} {children : List XmlNode} {text : CStr} (htitle : field children .title = none)
    (hsource : titleSource children = some text) (htext : (utf8Decode text).2 = true) :
    ((utf8Decode (settledTitle uid children)).2 = true ∧
        IsTitle uid children (settledTitle uid children)) ↔
      ∀ b ∈ text[49]?, isContinuation b = false := by
  have hsettled : settledTitle uid children = text.take 49 := by
    rw [settledTitle, htitle, hsource]
    rfl
  rw [hsettled, utf8Decode_take_iff htext]
  refine and_iff_left_of_imp fun hcut => ?_
  have hvalid := (utf8Decode_take_iff htext 49).mpr hcut
  rw [IsTitle, htitle, hsource]
  exact ⟨text.drop 49, (List.take_append_drop 49 text).symm, List.length_take_le 49 text,
    utf8Decode_drop htext hvalid⟩

/-- An entry of valid texts gets a valid title just if it has a title, or no
text for one, or a text whose first 49 bytes end with a character. -/
theorem storesTitle_iff
    (time : TimeLib) (tp : Tm) {uid : CStr} (huid : ∀ b ∈ uid, b < 128) (feedid : ℤ)
    {children : List XmlNode} (hfields : ValidFields children) (db : Db) :
    StoresTitle time tp uid feedid children db ↔
      (field children .title).isSome ∨
        ∀ text ∈ titleSource children, ∀ b ∈ text[49]?, isContinuation b = false := by
  rw [storesTitle_iff_settled]
  cases htitle : field children .title with
  | some title =>
      have hsettled : settledTitle uid children = title := by
        rw [settledTitle, htitle]
        rfl
      refine iff_of_true ⟨?_, ?_⟩ (Or.inl rfl)
      · rw [hsettled]
        exact hfields .title title htitle
      · rw [IsTitle, htitle, hsettled]
  | none =>
      rw [Option.isSome_none, or_iff_right Bool.false_ne_true]
      cases hsource : titleSource children with
      | some text =>
          have htext : (utf8Decode text).2 = true := by
            rcases Option.or_eq_some_iff.mp hsource with hdesc | ⟨-, hcontent⟩
            · exact hfields .desc text hdesc
            · exact hfields .content text hcontent
          rw [settled_of_source htitle hsource htext]
          constructor
          · rintro hcut _ ⟨⟩
            exact hcut
          · intro hcut
            exact hcut text rfl
      | none =>
          have hsettled : settledTitle uid children = (field children .uid).getD uid := by
            rw [settledTitle, htitle, hsource]
            rfl
          refine iff_of_true ⟨?_, ?_⟩ (by rintro _ ⟨⟩)
          · rw [hsettled]
            cases hid : field children .uid with
            | some ident => exact hfields .uid ident hid
            | none => exact congrArg Prod.snd (utf8Decode_ascii huid)
          · rw [IsTitle, htitle, hsource, hsettled]

/-- An entry with just a description, which has the two bytes of an é behind
`n` letters. -/
def accented (n : ℕ) : List XmlNode :=
  [.elem (ascii "description") [.text (List.replicate n 97 ++ [0xC3, 0xA9] ++ ascii "e")]]

theorem validFields_accented : ValidFields (accented 47) ∧ ValidFields (accented 48) := by
  constructor
  all_goals
    intro f
    cases f
    all_goals decide +kernel

theorem storesTitle_accented :
    StoresTitle datelessConfig.time blankTm (ascii "00") 1 (accented 47) emptyDb := by
  have hall : (ascii "00").all (fun b => decide (b < 128)) = true := by decide
  have huid : ∀ b ∈ ascii "00", b < 128 :=
    fun b hb => of_decide_eq_true (List.all_eq_true.mp hall b hb)
  rw [storesTitle_iff _ _ huid _ validFields_accented.1]
  exact Or.inr (by decide +kernel)

/-- One letter more, and the title ends with half of the é. -/
theorem accented_cut_in_half :
    ValidFields (accented 48) ∧
      ¬StoresTitle datelessConfig.time blankTm (ascii "00") 1 (accented 48) emptyDb := by
  refine ⟨validFields_accented.2, ?_⟩
  rintro ⟨t, ht, hvalid, -⟩
  have htitle : entryData datelessConfig.time blankTm (ascii "00") (accented 48) .title =
      some (List.replicate 48 97 ++ [0xC3]) := by
    decide +kernel
  obtain rfl := Option.some.inj (htitle.symm.trans ht)
  have hinvalid : (utf8Decode (List.replicate 48 97 ++ [0xC3])).2 = false := by
    decide +kernel
  rw [hinvalid] at hvalid
  cases hvalid

end Cache
end Newsbaoter
