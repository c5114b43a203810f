import Newsbaoter.Config.Ready
import Newsbaoter.Hash.Pairs

/-!
# The help page

`handle_print_key_pairs` walks over the key table and looks each operation up in
`handler_names`, by the operation and up to the first `NULL`.  `find_handler` goes
by the name to the end of the names, and `unset_handler` puts a `NULL` in the
middle.
-/

namespace Newsbaoter
namespace Config

open Newsbaoter.Support

variable {mbtowc : CStr → Option UInt32}

/-! ## The page -/

def helpHeader (htmlPager : ℤ) : CStr :=
  ascii "newsbaoter key bindings" ++ (if htmlPager ≠ 0 then ascii "<br/><br/>" else []) ++
    ascii "\n\n"

/-- A key and the name of its operation; `wctomb` writes the character of a key,
as `%lc` does. -/
def keyLine (wctomb : UInt32 → CStr) (htmlPager : ℤ) (c : UInt32) (name : CStr) : CStr :=
  wctomb c ++ 9 :: (name ++ ((if htmlPager ≠ 0 then ascii "<br/>" else []) ++ [10]))

/-- The loop over `handler_names`, which the first `NULL` ends. -/
def printedName (names : List (CStr × Option Handler)) (p : Handler) : Option CStr :=
  ((names.takeWhile fun entry => entry.2.isSome).find? fun entry => entry.2 == some p).map
    Prod.fst

/-- `c=strtol(name,NULL,16)`. -/
def keyCode (name : CStr) : UInt32 :=
  UInt32.ofNat (hexValue name)

/-- What the loop over `next_uikey_pair` writes; `none` is an access outside the
table, or a loop that goes on. -/
def printKeys (wctomb : UInt32 → CStr) (g : Globals) : ℕ → ℤ → Option (List CStr)
  | 0, _ => none
  | rounds + 1, off =>
      match Hash.nextHashPair off g.keys with
      | some (off, some (name, some p)) =>
          (printKeys wctomb g rounds off).map fun lines =>
            match printedName g.handlers p with
            | none => lines
            | some s => keyLine wctomb g.config.htmlPager (keyCode name) s :: lines
      | some _ => some []
      | none => none

/-- The texts that are written to the pager.  Every call but the last finds a
record. -/
def handlePrintKeyPairs (wctomb : UInt32 → CStr) (g : Globals) : Option (List CStr) :=
  (printKeys wctomb g (g.keys.size + 1) 0).map (helpHeader g.config.htmlPager :: ·)

/-! ## What it should say -/

/-- The page that lists these keys with these names. -/
def helpPage (wctomb : UInt32 → CStr) (htmlPager : ℤ) (entries : List (UInt32 × CStr)) :
    List CStr :=
  helpHeader htmlPager :: entries.map fun entry => keyLine wctomb htmlPager entry.1 entry.2

/-- Every key of an operation that can be found by its name is there once, with
that name, and no key is there that is not dispatched. -/
structure ListsKeys (g : Globals) (entries : List (UInt32 × CStr)) : Prop where
  listed : ∀ c h name, processKey c g.keys = some (some h) →
    findHandler g.handlers name = some h →
      (entries.filter fun entry => entry.1 == c) = [(c, name)]
  dispatched : ∀ entry ∈ entries, ∃ h, processKey entry.1 g.keys = some (some h)

/-- The page that is written lists the keys, however characters are written. -/
def ShowsKeys (g : Globals) : Prop :=
  ∃ entries, (∀ wctomb, handlePrintKeyPairs wctomb g =
    some (helpPage wctomb g.config.htmlPager entries)) ∧ ListsKeys g entries

/-- The operations behind `download` in `handler_names`. -/
def behindDownload : List Handler :=
  (handlerNames.dropWhile fun entry => entry.1 ≠ ascii "download").tail.filterMap Prod.snd

/-- If there is an options file, it gives a downloader or leaves no key bound to
an operation behind `download`. -/
def KeepsHelp (mbtowc : CStr → Option UInt32) (file : Option (List CStr)) : Prop :=
  ∀ bufs, file = some bufs →
    GivesDownloader bufs ∨ ∀ c, ∀ h ∈ behindDownload, boundTo c (keyOps mbtowc bufs) ≠ some h

/-! ## The walk -/

/-- The record of a key and the name behind it. -/
def listedKey (names : List (CStr × Option Handler)) (r : CStr × Option Handler) :
    Option (UInt32 × CStr) :=
  r.2.bind fun p => (printedName names p).map fun s => (keyCode r.1, s)

/-- What the page lists, in the order of the table. -/
def listedKeys (g : Globals) : List (UInt32 × CStr) :=
  (Hash.records g.keys.tab).filterMap (listedKey g.handlers)

/-- The loop comes to every record behind the offset. -/
theorem printKeys_eq
    (wctomb : UInt32 → CStr) {g : Globals} (hlength : g.keys.tab.length = g.keys.size) {rounds i : ℕ}
    (hi : i ≤ g.keys.size) (hrounds : g.keys.size - i < rounds)
    (hvalues : ∀ r ∈ Hash.records (g.keys.tab.drop i), r.2.isSome = true) :
    printKeys wctomb g rounds i =
      some (((Hash.records (g.keys.tab.drop i)).filterMap (listedKey g.handlers)).map
        fun entry => keyLine wctomb g.config.htmlPager entry.1 entry.2) := by
  induction rounds generalizing i with
  | zero => omega
  | succ rounds ih =>
      rw [printKeys]
      rcases Hash.nextHashPair_spec hlength hi with
        ⟨hnone, hrest⟩ | ⟨next, name, value, hfound, hlt, hle, hrest⟩
      · rw [hnone, hrest]
        rfl
      · rw [hrest, List.forall_mem_cons] at hvalues
        obtain ⟨p, rfl⟩ := Option.isSome_iff_exists.mp hvalues.1
        rw [hfound, hrest, List.filterMap_cons]
        simp only [ih hle (by omega) hvalues.2, listedKey, Option.bind_some, Option.map_some]
        cases printedName g.handlers p <;> rfl

/-! ## The key table -/

section Table

variable {ops : List KeyOp} {keys : KeyTable}

/-- The records are those of the keys that are bound. -/
theorem mem_records_iff_boundTo
    (hruns : runs Hash.step Hash.initTable (ops.map KeyOp.hashOp) = some keys)
    {name : CStr} {value : Option Handler} :
    (name, value) ∈ Hash.records keys.tab ↔
      ∃ c h, name = hexText c ∧ value = some h ∧ boundTo c ops = some h := by
  rw [(Hash.refines_of_runs hruns).mem_records_iff]
  constructor
  · intro hm
    obtain ⟨op, -, hop⟩ := List.mem_map.mp (Hash.set_mem_of_foldl_apply hm)
    cases op with
    | unbind c => cases hop
    | bind c h =>
        cases hop
        refine ⟨c, h, rfl, rfl, ?_⟩
        rw [← lastSet_hashOps, ← Hash.foldl_apply_join, hm]
        rfl
  · rintro ⟨c, h, rfl, rfl, hbound⟩
    rw [← lastSet_hashOps, ← Hash.foldl_apply_join] at hbound
    exact Option.join_eq_some_iff.mp hbound

theorem keyCode_hexText (c : UInt32) : keyCode (hexText c) = c := by
  rw [keyCode, hexValue_hexText, UInt32.ofNat_toNat]

end Table

variable {g : Globals} {ops : List KeyOp}

theorem mem_listedKeys_iff
    (hruns : runs Hash.step Hash.initTable (ops.map KeyOp.hashOp) = some g.keys)
    {c : UInt32} {s : CStr} :
    (c, s) ∈ listedKeys g ↔ ∃ h, boundTo c ops = some h ∧ printedName g.handlers h = some s := by
  rw [listedKeys, List.mem_filterMap]
  constructor
  · rintro ⟨⟨name, value⟩, hrecord, hlisted⟩
    obtain ⟨d, h, rfl, rfl, hbound⟩ := (mem_records_iff_boundTo hruns).mp hrecord
    obtain ⟨s', hs', heq⟩ := Option.map_eq_some_iff.mp hlisted
    rw [keyCode_hexText] at heq
    cases heq
    exact ⟨h, hbound, hs'⟩
  · rintro ⟨h, hbound, hs⟩
    refine ⟨(hexText c, some h), (mem_records_iff_boundTo hruns).mpr ⟨c, h, rfl, rfl, hbound⟩, ?_⟩
    rw [listedKey, Option.bind_some, hs, Option.map_some, keyCode_hexText]

/-- No key is listed twice. -/
theorem pairwise_listedKeys
    (hruns : runs Hash.step Hash.initTable (ops.map KeyOp.hashOp) = some g.keys) :
    (listedKeys g).Pairwise fun entry entry' => entry.1 ≠ entry'.1 := by
  have hnames := (Hash.refines_of_runs hruns).pairwise_records
  rw [listedKeys, List.pairwise_filterMap]
  refine hnames.imp_of_mem ?_
  rintro ⟨name, value⟩ ⟨name', value'⟩ hr hr' hne ⟨c, s⟩ hlisted ⟨c', s'⟩ hlisted' rfl
  obtain ⟨d, h, rfl, rfl, -⟩ := (mem_records_iff_boundTo hruns).mp hr
  obtain ⟨d', h', rfl, rfl, -⟩ := (mem_records_iff_boundTo hruns).mp hr'
  obtain ⟨_, -, heq⟩ := Option.map_eq_some_iff.mp hlisted
  obtain ⟨_, -, heq'⟩ := Option.map_eq_some_iff.mp hlisted'
  have hcode := (Prod.mk.inj heq).1.trans (Prod.mk.inj heq').1.symm
  rw [keyCode_hexText, keyCode_hexText] at hcode
  exact hne (congrArg hexText hcode)

/-- The page that is written is that of the listed keys. -/
theorem handlePrintKeyPairs_eq
    (wctomb : UInt32 → CStr)
    (hruns : runs Hash.step Hash.initTable (ops.map KeyOp.hashOp) = some g.keys) :
    handlePrintKeyPairs wctomb g =
      some (helpPage wctomb g.config.htmlPager (listedKeys g)) := by
  have hregular := (Hash.refines_of_runs hruns).stuck.regular
  have hvalues : ∀ r ∈ Hash.records (g.keys.tab.drop 0), r.2.isSome = true := by
    rintro ⟨name, value⟩ hr
    obtain ⟨c, h, -, rfl, -⟩ := (mem_records_iff_boundTo hruns).mp hr
    rfl
  have hwalk := printKeys_eq wctomb hregular.length_eq (Nat.zero_le _)
    (Nat.lt_add_one (g.keys.size - 0)) hvalues
  rw [handlePrintKeyPairs]
  exact congrArg _ hwalk

/-! ## Reading the page -/

/-- Digits in place of the characters, as many as the code says. -/
def tally (c : UInt32) : CStr :=
  List.replicate c.toNat 48

theorem keyLine_tally_injective (htmlPager : ℤ) :
    Function.Injective fun entry : UInt32 × CStr =>
      keyLine tally htmlPager entry.1 entry.2 := by
  rintro ⟨c, s⟩ ⟨c', s'⟩ h
  have hfront : ∀ c s, (keyLine tally htmlPager c s).takeWhile (fun b => b ≠ 9) = tally c := by
    intro c s
    have hdigits : ∀ b ∈ tally c, decide (b ≠ 9) = true := by
      intro b hb
      rw [List.eq_of_mem_replicate hb]
      rfl
    rw [keyLine, List.takeWhile_append_of_pos hdigits, List.takeWhile_cons_of_neg (by decide),
      List.append_nil]
  have htally : tally c = tally c' := by
    rw [← hfront c s, ← hfront c' s']
    exact congrArg _ h
  obtain rfl : c = c' := by
    have hcount := congrArg List.length htally
    rw [tally, tally, List.length_replicate, List.length_replicate] at hcount
    exact UInt32.toNat_inj.mp hcount
  have htail := List.append_cancel_left h
  rw [List.cons.injEq] at htail
  exact congrArg _ (List.append_cancel_right htail.2)

/-- A page shows what it lists. -/
theorem showsKeys_iff_listsKeys
    (hruns : runs Hash.step Hash.initTable (ops.map KeyOp.hashOp) = some g.keys) :
    ShowsKeys g ↔ ListsKeys g (listedKeys g) := by
  constructor
  · rintro ⟨entries, hpage, hlists⟩
    have hsame := (handlePrintKeyPairs_eq tally hruns).symm.trans (hpage tally)
    rw [Option.some.injEq, helpPage, helpPage, List.cons.injEq] at hsame
    rwa [List.map_injective_iff.mpr (keyLine_tally_injective _) hsame.2]
  · intro hlists
    exact ⟨listedKeys g, fun wctomb => handlePrintKeyPairs_eq wctomb hruns, hlists⟩

theorem filter_eq_singleton
    {entries : List (UInt32 × CStr)} {c : UInt32} {s : CStr}
    (hpairwise : entries.Pairwise fun entry entry' => entry.1 ≠ entry'.1)
    (hmem : (c, s) ∈ entries) : (entries.filter fun entry => entry.1 == c) = [(c, s)] := by
  obtain ⟨before, after, rfl⟩ := List.append_of_mem hmem
  obtain ⟨-, hafter, hbefore⟩ := List.pairwise_append.mp hpairwise
  have hnone : ∀ entry ∈ before, ¬(entry.1 == c) = true := by
    intro entry hentry
    simpa using hbefore entry hentry (c, s) List.mem_cons_self
  have hnone' : ∀ entry ∈ after, ¬(entry.1 == c) = true := by
    intro entry hentry
    simpa using ((List.pairwise_cons.mp hafter).1 entry hentry).symm
  rw [List.filter_append, List.filter_eq_nil_iff.mpr hnone, List.nil_append,
    List.filter_cons, if_pos (beq_self_eq_true c), List.filter_eq_nil_iff.mpr hnone']

/-- The page is right if every bound operation has the same name both ways. -/
theorem listsKeys_iff
    (hruns : runs Hash.step Hash.initTable (ops.map KeyOp.hashOp) = some g.keys) :
    ListsKeys g (listedKeys g) ↔
      ∀ c h name, boundTo c ops = some h → findHandler g.handlers name = some h →
        printedName g.handlers h = some name := by
  constructor
  · intro hlists c h name hbound hname
    have hkey := (processKey_eq_some_iff hruns c h).mpr hbound
    have hfilter := hlists.listed c h name hkey hname
    have hmem : (c, name) ∈ listedKeys g := by
      apply List.mem_of_mem_filter (p := fun entry => entry.1 == c)
      rw [hfilter]
      exact List.mem_singleton_self _
    obtain ⟨h', hbound', hprinted⟩ := (mem_listedKeys_iff hruns).mp hmem
    rw [hbound] at hbound'
    cases hbound'
    exact hprinted
  · intro hnames
    constructor
    · intro c h name hkey hname
      have hbound := (processKey_eq_some_iff hruns c h).mp hkey
      apply filter_eq_singleton (pairwise_listedKeys hruns)
      exact (mem_listedKeys_iff hruns).mpr ⟨h, hbound, hnames c h name hbound hname⟩
    · rintro ⟨c, s⟩ hentry
      obtain ⟨h, hbound, -⟩ := (mem_listedKeys_iff hruns).mp hentry
      exact ⟨h, (processKey_eq_some_iff hruns c h).mpr hbound⟩

/-! ## The names -/

theorem mem_of_findHandler
    {names : List (CStr × Option Handler)} {name : CStr} {h : Handler}
    (hfind : findHandler names name = some h) : (name, some h) ∈ names := by
  obtain ⟨⟨s, handler⟩, hentry, rfl⟩ := Option.bind_eq_some_iff.mp hfind
  obtain rfl : s = name := by simpa using List.find?_some hentry
  exact List.mem_of_find?_eq_some hentry

/-- Where no name is unset, every operation is printed with its name. -/
theorem printedName_handlerNames
    {name : CStr} {h : Handler} (hfind : findHandler handlerNames name = some h) :
    printedName handlerNames h = some name := by
  have hall : ∀ entry ∈ handlerNames, ∀ h ∈ entry.2,
      printedName handlerNames h = some entry.1 := by
    decide
  exact hall _ (mem_of_findHandler hfind) h rfl

/-- With `download` unset, the operations in front of it are printed. -/
theorem printedName_unset
    {name : CStr} {h : Handler}
    (hfind : findHandler (unsetHandler (ascii "download") handlerNames) name = some h)
    (hfront : h ∉ behindDownload) :
    printedName (unsetHandler (ascii "download") handlerNames) h = some name := by
  have hall : ∀ entry ∈ unsetHandler (ascii "download") handlerNames, ∀ h ∈ entry.2,
      h ∈ behindDownload ∨
        printedName (unsetHandler (ascii "download") handlerNames) h = some entry.1 := by
    decide
  exact (hall _ (mem_of_findHandler hfind) h rfl).resolve_left hfront

/-- And those behind it have a name that is not printed. -/
theorem exists_name_not_printed {h : Handler} (hbehind : h ∈ behindDownload) :
    ∃ name, findHandler (unsetHandler (ascii "download") handlerNames) name = some h ∧
      printedName (unsetHandler (ascii "download") handlerNames) h = none := by
  have hall : ∀ h ∈ behindDownload, ∃ entry ∈ handlerNames,
      findHandler (unsetHandler (ascii "download") handlerNames) entry.1 = some h ∧
        printedName (unsetHandler (ascii "download") handlerNames) h = none := by
    decide
  obtain ⟨entry, -, hentry⟩ := hall h hbehind
  exact ⟨entry.1, hentry⟩

/-! ## The whole file -/

/-- The help page shows the keys just if the options file gives a downloader or
binds no key to an operation behind `download`. -/
theorem showsKeys_iff_keepsHelp
    {file : Option (List CStr)} {g : Globals} (hg : readConfigOptionsFile mbtowc file = some g) :
    ShowsKeys g ↔ KeepsHelp mbtowc file := by
  obtain ⟨g₀, hg₀, hfile⟩ := Option.bind_eq_some_iff.mp hg
  cases file with
  | none =>
      cases hfile
      have hnames := handlers_boundGlobals hg₀
      obtain ⟨keys, hkeys, rfl⟩ := Option.map_eq_some_iff.mp hg₀
      have hruns := bindDefaults_eq.symm.trans hkeys
      rw [showsKeys_iff_listsKeys hruns, listsKeys_iff hruns]
      refine iff_of_true ?_ (fun bufs hbufs => by cases hbufs)
      intro c h name _ hname
      exact printedName_handlerNames hname
  | some bufs =>
      obtain ⟨g', hread, rfl⟩ := Option.map_eq_some_iff.mp hfile
      have hruns := runs_of_readOptions hg₀ hread
      have hnames := handlers_of_readOptions (handlers_boundGlobals hg₀) hread
      obtain ⟨-, -, hdownloader⟩ := readOptions_spec hg₀ hread
      have hkeeps : KeepsHelp mbtowc (some bufs) ↔ GivesDownloader bufs ∨
          ∀ c, ∀ h ∈ behindDownload, boundTo c (keyOps mbtowc bufs) ≠ some h := by
        simp [KeepsHelp]
      rw [showsKeys_iff_listsKeys (g := fixUp g') hruns, listsKeys_iff (g := fixUp g') hruns,
        hkeeps]
      by_cases hgives : GivesDownloader bufs
      · have hkept : (fixUp g').handlers = handlerNames := by
          have hsome : g'.config.downloader ≠ none := fun h => hdownloader.mp h hgives
          simp [fixUp, hsome, hnames]
        rw [hkept]
        exact iff_of_true (fun c h name _ hname => printedName_handlerNames hname) (Or.inl hgives)
      · have hunset : (fixUp g').handlers = unsetHandler (ascii "download") handlerNames := by
          simp [fixUp, hdownloader.mpr hgives, hnames]
        rw [hunset, or_iff_right hgives]
        constructor
        · intro hprinted c h hbehind hbound
          obtain ⟨name, hname, hmissing⟩ := exists_name_not_printed hbehind
          rw [hprinted c h name hbound hname] at hmissing
          cases hmissing
        · intro hfree c h name hbound hname
          exact printedName_unset hname fun hbehind => hfree c h hbehind hbound

/-! ## Small files -/

theorem downloader_file_shows_keys :
    ∃ g, readConfigOptionsFile mbtowcC (some [ascii "downloader wget"]) = some g ∧
      ShowsKeys g := by
  have hread : (readConfigOptionsFile mbtowcC (some [ascii "downloader wget"])).isSome = true := by
    decide +kernel
  obtain ⟨g, hg⟩ := Option.isSome_iff_exists.mp hread
  refine ⟨g, hg, (showsKeys_iff_keepsHelp hg).mpr ?_⟩
  rintro bufs ⟨⟩
  have hline : optionLines [ascii "downloader wget"] = [(ascii "downloader", ascii "wget")] := by
    decide
  refine Or.inl ⟨(ascii "downloader", ascii "wget"), ?_, rfl, by decide⟩
  rw [hline]
  exact List.mem_singleton_self _

/-- Of an empty file the page has four keys.  `L` is bound to an operation that
can be found by its name, and is not there. -/
theorem empty_file_hides_key :
    ∃ g, readConfigOptionsFile mbtowcC (some []) = some g ∧
      processKey 76 g.keys = some (some .lowItem) ∧
      findHandler g.handlers (ascii "low-item") = some .lowItem ∧
      handlePrintKeyPairs (fun c => [c.toUInt8]) g =
        some [ascii "newsbaoter key bindings\n\n", ascii "k\tprev\n", ascii "o\tselect\n",
          ascii "q\texit\n", ascii "j\tnext\n"] ∧
      ¬ShowsKeys g := by
  have hempty : (readConfigOptionsFile mbtowcC (some [])).map (fun g =>
      decide (processKey 76 g.keys = some (some .lowItem) ∧
        findHandler g.handlers (ascii "low-item") = some .lowItem ∧
        handlePrintKeyPairs (fun c => [c.toUInt8]) g =
          some [ascii "newsbaoter key bindings\n\n", ascii "k\tprev\n", ascii "o\tselect\n",
            ascii "q\texit\n", ascii "j\tnext\n"] ∧
        g.config.htmlPager = 0)) = some true := by
    decide +kernel
  obtain ⟨g, hg, hall⟩ := Option.map_eq_some_iff.mp hempty
  obtain ⟨hkey, hname, hpage, hhtml⟩ := of_decide_eq_true hall
  refine ⟨g, hg, hkey, hname, hpage, ?_⟩
  rintro ⟨entries, hwritten, hlists⟩
  have hmem : (76, ascii "low-item") ∈ entries := by
    apply List.mem_of_mem_filter (p := fun entry => entry.1 == 76)
    rw [hlists.listed 76 .lowItem _ hkey hname]
    exact List.mem_singleton_self _
  have hline : keyLine (fun c => [c.toUInt8]) 0 76 (ascii "low-item") ∈
      helpPage (fun c => [c.toUInt8]) g.config.htmlPager entries := by
    rw [hhtml]
    exact List.mem_cons_of_mem _ (List.mem_map_of_mem hmem)
  rw [Option.some.inj ((hwritten _).symm.trans hpage)] at hline
  exact absurd hline (by decide)

end Config
end Newsbaoter
