import Newsbaoter.Config.Options
import Newsbaoter.Hash.Map
import Newsbaoter.View.Keys

/-!
# Ready for every key

Some keys start a process with the argument vector of an option.  The pager gets
its default after the options file has been read, and the download operation
loses its name where there is no downloader; but a file that cannot be opened is
never read, and a key keeps an operation that has lost its name.
-/

namespace Newsbaoter
namespace Config

open Newsbaoter.Support

variable {mbtowc : CStr → Option UInt32}

/-! ## What has to hold -/

/-- The vector that `pipe_to_process` gets when the operation is called, if it
is called at all; `none` inside is `NULL`. -/
def pipedArgs (config : NbConfig) (s : View.Ui) : Handler → Option (Option (List CStr))
  | .select =>
      match s.mw.ctxType with
      | .feeds => none
      | .entries => some config.pager
  | .download =>
      match s.mw.ctxType with
      | .feeds => none
      | .entries => some config.downloader
  | .printKeyPairs => some config.pager
  | _ => none

/-- The pager is a vector, and no key reaches the download operation where
there is no downloader; so no process is started without a vector. -/
structure Ready (g : Globals) : Prop where
  pager : ∃ args, g.config.pager = some args ∧ args ≠ []
  download : g.config.downloader = none →
    ∀ c, processKey c g.keys ≠ some (some .download)
  piped : ∀ (s : View.Ui) c h, processKey c g.keys = some (some h) →
    pipedArgs g.config s h ≠ some none

theorem ready_of_pager_of_download
    {g : Globals} (hpager : ∃ args, g.config.pager = some args ∧ args ≠ [])
    (hdownload : g.config.downloader = none →
      ∀ c, processKey c g.keys ≠ some (some .download)) :
    Ready g := by
  refine ⟨hpager, hdownload, ?_⟩
  intro s c h hkey hnull
  obtain ⟨args, hargs, -⟩ := hpager
  cases h with
  | select =>
      cases hctx : s.mw.ctxType <;> simp [pipedArgs, hctx, hargs] at hnull
  | download =>
      cases hctx : s.mw.ctxType with
      | feeds => simp [pipedArgs, hctx] at hnull
      | entries =>
          have hnone : g.config.downloader = none := by
            simpa [pipedArgs, hctx] using hnull
          exact hdownload hnone c hkey
  | printKeyPairs => simp [pipedArgs, hargs] at hnull
  | _ => simp [pipedArgs] at hnull

/-! ## What the lines say -/

/-- The options of the file in order, each with the rest of its line. -/
def optionLines : List CStr → List (CStr × CStr)
  | [] => []
  | buf :: rest =>
      if buf.head? = some 35 then optionLines rest
      else match getLineWord buf with
        | none => []
        | some line => line :: optionLines rest

/-- The call that the rest of a `bind-key` or `unbind-key` line asks for. -/
def askedOp (mbtowc : CStr → Option UInt32) (binds : Bool) (next : CStr) :
    Option KeyOp := do
  let (v, next) ← getLineWord next
  let key ← mbtowc v
  if binds then
    let (v, _) ← getLineWord next
    let h ← findHandler handlerNames v
    some (.bind key h)
  else some (.unbind key)

def keyOp (mbtowc : CStr → Option UInt32) (line : CStr × CStr) : Option KeyOp :=
  if line.1 = ascii "bind-key" then askedOp mbtowc true line.2
  else if line.1 = ascii "unbind-key" then askedOp mbtowc false line.2
  else none

/-- The calls of `bind_key` and `unbind_key` up to the end of the file. -/
def keyOps (mbtowc : CStr → Option UInt32) (bufs : List CStr) : List KeyOp :=
  defaultOps ++ (optionLines bufs).filterMap (keyOp mbtowc)

/-- A `downloader` line with a command. -/
def GivesDownloader (bufs : List CStr) : Prop :=
  ∃ line ∈ optionLines bufs, line.1 = ascii "downloader" ∧ line.2 ≠ []

/-- The file can be opened, the table has room for its bindings, and it gives a
downloader or leaves no key bound to the download operation. -/
def Prepares (mbtowc : CStr → Option UInt32) (file : Option (List CStr)) : Prop :=
  ∃ bufs, file = some bufs ∧
    Meets Hash.step (fun t op => op.Fits t) Hash.initTable
      ((keyOps mbtowc bufs).map KeyOp.hashOp) ∧
    (GivesDownloader bufs ∨ ∀ c, boundTo c (keyOps mbtowc bufs) ≠ some .download)

/-! ## One option -/

/-- What the loop does with a line that is no comment. -/
def applyOption (mbtowc : CStr → Option UInt32) (g : Globals) (line : CStr × CStr) :
    Option Globals :=
  match findConfig mbtowc line.1 with
  | none => some g
  | some process => (process line.2 g).map Prod.fst

theorem readOptions_eq_foldlM (bufs : List CStr) (g : Globals) :
    readOptions mbtowc bufs g = (optionLines bufs).foldlM (applyOption mbtowc) g := by
  induction bufs generalizing g with
  | nil => rfl
  | cons buf rest ih =>
      rw [readOptions, optionLines]
      split
      · exact ih g
      · rcases hline : getLineWord buf with - | ⟨bp, next⟩
        · rfl
        · dsimp only
          rw [List.foldlM_cons, applyOption]
          dsimp only
          cases findConfig mbtowc bp with
          | none => exact ih g
          | some process =>
              cases hrun : process next g with
              | none => simp [hrun]
              | some r => simpa [hrun] using ih r.1

/-- The option changes neither the bindings nor the two vectors. -/
def LeavesArgs (process : Process) : Prop :=
  ∀ next g, ∃ config, (process next g).map Prod.fst = some { g with config := config } ∧
    config.pager = g.config.pager ∧ config.downloader = g.config.downloader

theorem leavesArgs_onField
    {α : Type} (handler : α → CStr → α × ℤ) (get : NbConfig → α)
    {put : α → NbConfig → NbConfig}
    (hput : ∀ v c, (put v c).pager = c.pager ∧ (put v c).downloader = c.downloader) :
    LeavesArgs (onField handler get put) := by
  intro next g
  exact ⟨_, rfl, hput _ _⟩

/-- The options by what they do to the bindings and the two vectors. -/
inductive Sorted (mbtowc : CStr → Option UInt32) : CStr → Process → Prop
  | bind : Sorted mbtowc (ascii "bind-key") (configBindKey mbtowc true)
  | unbind : Sorted mbtowc (ascii "unbind-key") (configBindKey mbtowc false)
  | pager :
      Sorted mbtowc (ascii "pager")
        (onField copyStrarr NbConfig.pager fun v c => { c with pager := v })
  | downloader :
      Sorted mbtowc (ascii "downloader")
        (onField copyStrarr NbConfig.downloader fun v c => { c with downloader := v })
  | plain {name : CStr} {process : Process} (hbind : name ≠ ascii "bind-key")
      (hunbind : name ≠ ascii "unbind-key") (hdownloader : name ≠ ascii "downloader")
      (hleaves : LeavesArgs process) :
      Sorted mbtowc name process

theorem sorted_configOptions :
    ∀ option ∈ configOptions mbtowc, Sorted mbtowc option.1 option.2 := by
  simp only [configOptions, List.forall_mem_cons, List.not_mem_nil, IsEmpty.forall_iff,
    implies_true, and_true]
  refine ⟨?_, ?_, ?_, ?_, ?_, ?_, ?_, ?_, ?_, ?_, .bind, .unbind, ?_, .pager, .downloader, ?_⟩
  all_goals
    refine .plain (by decide) (by decide) (by decide) ?_
    apply leavesArgs_onField
    intro v c
    exact ⟨rfl, rfl⟩

theorem sorted_of_findConfig
    {s : CStr} {process : Process} (h : findConfig mbtowc s = some process) :
    Sorted mbtowc s process := by
  obtain ⟨option, hfind, rfl⟩ := Option.map_eq_some_iff.mp h
  have hname : option.1 = s := by simpa using List.find?_some hfind
  rw [← hname]
  exact sorted_configOptions option (List.mem_of_find?_eq_some hfind)

theorem copyStrarr_nil (sd : Option (List CStr)) : copyStrarr sd [] = (sd, 1) := by
  rfl

theorem copyStrarr_of_ne_nil
    (sd : Option (List CStr)) {next : CStr} (h : next ≠ []) :
    ∃ args, copyStrarr sd next = (some args, 0) ∧ args ≠ [] := by
  obtain ⟨b, bs, rfl⟩ := List.exists_cons_of_ne_nil h
  obtain ⟨n, hn⟩ : ∃ n, (lineWords (b :: bs)).length = n + 1 := by
    rw [lineWords, List.length_cons, wordsIn, getLineWord, if_neg h]
    exact ⟨_, List.length_cons⟩
  refine ⟨nulStrings (n + 1) (punch (b :: bs).length (b :: bs)), ?_, List.cons_ne_nil _ _⟩
  rw [copyStrarr, hn]
  rfl

theorem configBindKey_eq
    {g : Globals} (hg : g.handlers = handlerNames) (binds : Bool) (next : CStr) :
    (configBindKey mbtowc binds next g).map Prod.fst =
      match askedOp mbtowc binds next with
      | none => some g
      | some op => (op.run g.keys).map fun keys => { g with keys := keys } := by
  rw [configBindKey, askedOp]
  rcases hv : getLineWord next with - | ⟨v, next⟩
  · rfl
  · cases hkey : mbtowc v with
    | none => simp [hkey]
    | some key =>
        cases binds with
        | false => simp [hkey, KeyOp.run, Function.comp_def]
        | true =>
            rcases hw : getLineWord next with - | ⟨w, rest⟩
            · simp [hkey, hw]
            · cases hh : findHandler handlerNames w with
              | none => simp [hkey, hw, hg, hh]
              | some h => simp [hkey, hw, hg, hh, KeyOp.run, Function.comp_def]

/-- The vectors after a line. -/
structure ArgsAfter (c : NbConfig) (line : CStr × CStr) (c' : NbConfig) : Prop where
  pager : (∀ args, c.pager = some args → args ≠ []) → ∀ args, c'.pager = some args → args ≠ []
  downloader : c'.downloader = none ↔
    c.downloader = none ∧ ¬(line.1 = ascii "downloader" ∧ line.2 ≠ [])

theorem ArgsAfter.same
    {c c' : NbConfig} {line : CStr × CStr} (hpager : c'.pager = c.pager)
    (hdownloader : c'.downloader = c.downloader) (hname : line.1 ≠ ascii "downloader") :
    ArgsAfter c line c' where
  pager h := by rwa [hpager]
  downloader := by
    rw [hdownloader]
    exact (and_iff_left fun h => hname h.1).symm

theorem ArgsAfter.newPager (c : NbConfig) (next : CStr) :
    ArgsAfter c (ascii "pager", next) { c with pager := (copyStrarr c.pager next).1 } where
  pager hargs args := by
    by_cases hnext : next = []
    · rw [hnext, copyStrarr_nil]
      exact hargs args
    · obtain ⟨words, hwords, hne⟩ := copyStrarr_of_ne_nil c.pager hnext
      rw [hwords]
      rintro ⟨⟩
      exact hne
  downloader := by
    have hname : ascii "pager" ≠ ascii "downloader" := by decide
    exact (and_iff_left fun h => hname h.1).symm

theorem ArgsAfter.newDownloader (c : NbConfig) (next : CStr) :
    ArgsAfter c (ascii "downloader", next)
      { c with downloader := (copyStrarr c.downloader next).1 } where
  pager hargs := hargs
  downloader := by
    by_cases hnext : next = []
    · simp [hnext, copyStrarr_nil]
    · obtain ⟨words, hwords, -⟩ := copyStrarr_of_ne_nil c.downloader hnext
      simp [hwords, hnext]

/-- A name without an option is none of those. -/
theorem ne_of_findConfig_eq_none {s : CStr} (h : findConfig mbtowc s = none) :
    s ≠ ascii "bind-key" ∧ s ≠ ascii "unbind-key" ∧ s ≠ ascii "downloader" := by
  have hbind : (findConfig mbtowc (ascii "bind-key")).isSome = true := by rfl
  have hunbind : (findConfig mbtowc (ascii "unbind-key")).isSome = true := by rfl
  have hdownloader : (findConfig mbtowc (ascii "downloader")).isSome = true := by rfl
  refine ⟨?_, ?_, ?_⟩
  · rintro rfl
    rw [h] at hbind
    cases hbind
  · rintro rfl
    rw [h] at hunbind
    cases hunbind
  · rintro rfl
    rw [h] at hdownloader
    cases hdownloader

theorem keyOp_eq_none
    {line : CStr × CStr} (hbind : line.1 ≠ ascii "bind-key")
    (hunbind : line.1 ≠ ascii "unbind-key") :
    keyOp mbtowc line = none := by
  rw [keyOp, if_neg hbind, if_neg hunbind]

theorem step_hashOp (keys : KeyTable) (op : KeyOp) :
    Hash.step keys op.hashOp = op.run keys := by
  cases op <;> rfl

/-- What the calls for a line leave, with the vectors of `config`. -/
def keyed (mbtowc : CStr → Option UInt32) (g : Globals) (line : CStr × CStr) (config : NbConfig) :
    Option Globals :=
  (((keyOp mbtowc line).toList.map KeyOp.hashOp).foldlM Hash.step g.keys).map
    fun keys => ⟨config, keys, handlerNames⟩

theorem keyed_of_bound
    {g : Globals} (hg : g.handlers = handlerNames) (line : CStr × CStr) (binds : Bool)
    (hasked : keyOp mbtowc line = askedOp mbtowc binds line.2) :
    (configBindKey mbtowc binds line.2 g).map Prod.fst = keyed mbtowc g line g.config := by
  rw [keyed, hasked, configBindKey_eq hg]
  cases askedOp mbtowc binds line.2 with
  | none => simp [← hg]
  | some op => simp [← hg, step_hashOp]

theorem keyed_of_kept
    {g : Globals} (hg : g.handlers = handlerNames) {line : CStr × CStr}
    (hop : keyOp mbtowc line = none) (config : NbConfig) :
    some { g with config := config } = keyed mbtowc g line config := by
  rw [keyed, hop, ← hg]
  rfl

variable (mbtowc) in
/-- A line makes at most one call for the key table, and it changes the vectors
as it says. -/
theorem applyOption_spec
    {g : Globals} (hg : g.handlers = handlerNames) (line : CStr × CStr) :
    ∃ config, applyOption mbtowc g line = keyed mbtowc g line config ∧
      ArgsAfter g.config line config := by
  obtain ⟨name, next⟩ := line
  cases hfind : findConfig mbtowc name with
  | none =>
      obtain ⟨hbind, hunbind, hdownloader⟩ := ne_of_findConfig_eq_none hfind
      have happly : applyOption mbtowc g (name, next) = some g := by
        rw [applyOption, hfind]
      exact ⟨g.config, happly.trans (keyed_of_kept hg (keyOp_eq_none hbind hunbind) _),
        .same rfl rfl hdownloader⟩
  | some process =>
      have happly : applyOption mbtowc g (name, next) = (process next g).map Prod.fst := by
        rw [applyOption, hfind]
      cases sorted_of_findConfig hfind with
      | bind =>
          have hname : ascii "bind-key" ≠ ascii "downloader" := by decide
          exact ⟨g.config, happly.trans (keyed_of_bound hg (_, next) true (if_pos rfl)),
            .same rfl rfl hname⟩
      | unbind =>
          have hname : ascii "unbind-key" ≠ ascii "downloader" := by decide
          exact ⟨g.config, happly.trans (keyed_of_bound hg (_, next) false rfl), .same rfl rfl hname⟩
      | plain hbind hunbind hdownloader hleaves =>
          obtain ⟨config, hconfig, hpager, hdown⟩ := hleaves next g
          exact ⟨config,
            (happly.trans hconfig).trans (keyed_of_kept hg (keyOp_eq_none hbind hunbind) _),
            .same hpager hdown hdownloader⟩
      | pager =>
          exact ⟨_, happly.trans (keyed_of_kept hg rfl _), .newPager g.config next⟩
      | downloader =>
          exact ⟨_, happly.trans (keyed_of_kept hg rfl _), .newDownloader g.config next⟩

/-- The names of the operations stay as they are. -/
theorem handlers_of_applyOption
    {g g' : Globals} (hg : g.handlers = handlerNames) {line : CStr × CStr}
    (h : applyOption mbtowc g line = some g') : g'.handlers = handlerNames := by
  obtain ⟨config, happly, -⟩ := applyOption_spec mbtowc hg line
  rw [h, keyed] at happly
  obtain ⟨keys, -, rfl⟩ := Option.map_eq_some_iff.mp happly.symm
  rfl

/-! ## All options -/

theorem handlers_of_readOptions
    {bufs : List CStr} {g g' : Globals} (hg : g.handlers = handlerNames)
    (hread : readOptions mbtowc bufs g = some g') : g'.handlers = handlerNames := by
  rw [readOptions_eq_foldlM] at hread
  generalize optionLines bufs = lines at hread
  induction lines generalizing g with
  | nil =>
      cases hread
      exact hg
  | cons line lines ih =>
      rw [List.foldlM_cons] at hread
      obtain ⟨g₁, hline, hrest⟩ := Option.bind_eq_some_iff.mp hread
      exact ih (handlers_of_applyOption hg hline) hrest

/-- The run lemma: the lines make the calls they ask for, in order, and change
the vectors as they say. -/
theorem applyOptions_spec
    {g : Globals} (hg : g.handlers = handlerNames) (lines : List (CStr × CStr)) :
    (lines.foldlM (applyOption mbtowc) g).map Globals.keys =
        runs Hash.step g.keys ((lines.filterMap (keyOp mbtowc)).map KeyOp.hashOp) ∧
      ∀ g', lines.foldlM (applyOption mbtowc) g = some g' →
        ((∀ args, g.config.pager = some args → args ≠ []) →
          ∀ args, g'.config.pager = some args → args ≠ []) ∧
        (g'.config.downloader = none ↔ g.config.downloader = none ∧
          ¬∃ line ∈ lines, line.1 = ascii "downloader" ∧ line.2 ≠ []) := by
  induction lines generalizing g with
  | nil =>
      refine ⟨rfl, ?_⟩
      rintro g' ⟨⟩
      simp
  | cons line lines ih =>
      obtain ⟨config, hline, hargs⟩ := applyOption_spec mbtowc hg line
      have hops : ((line :: lines).filterMap (keyOp mbtowc)).map KeyOp.hashOp =
          (keyOp mbtowc line).toList.map KeyOp.hashOp ++
            (lines.filterMap (keyOp mbtowc)).map KeyOp.hashOp := by
        rw [List.filterMap_cons]
        cases keyOp mbtowc line <;> rfl
      rw [List.foldlM_cons, hops, runs_append, hline, keyed, runs]
      cases ((keyOp mbtowc line).toList.map KeyOp.hashOp).foldlM Hash.step g.keys with
      | none =>
          refine ⟨rfl, ?_⟩
          rintro g' ⟨⟩
      | some keys =>
          obtain ⟨hkeys, hafter⟩ := ih (g := ⟨config, keys, handlerNames⟩) rfl
          refine ⟨hkeys, ?_⟩
          intro g' hg'
          obtain ⟨hpager, hdownloader⟩ := hafter g' hg'
          refine ⟨fun h => hpager (hargs.pager h), ?_⟩
          rw [hdownloader, hargs.downloader]
          simp only [List.mem_cons, or_and_right, exists_or, exists_eq_left, not_or, and_assoc]

/-! ## The key table -/

theorem changes_hashOp (c : UInt32) (op : KeyOp) :
    op.hashOp.changes (hexText c) = (op.key == c) := by
  have hiff : ∀ d : UInt32, (hexText d == hexText c) = (d == c) := by
    intro d
    rw [Bool.eq_iff_iff, beq_iff_eq, beq_iff_eq]
    exact hexText_injective.eq_iff
  cases op with
  | bind d handler => exact hiff d
  | unbind d => exact hiff d

theorem lastSet_hashOps (c : UInt32) (ops : List KeyOp) :
    Hash.lastSet (hexText c) (ops.map KeyOp.hashOp) = boundTo c ops := by
  have hsame : (fun op : KeyOp => op.hashOp.changes (hexText c)) = fun op => op.key == c :=
    funext (changes_hashOp c)
  rw [Hash.lastSet, boundTo, ← List.map_reverse, List.find?_map, Function.comp_def, hsame]
  cases ops.reverse.find? fun op => op.key == c with
  | none => rfl
  | some op => cases op <;> rfl

/-- A key is dispatched as its last binding says. -/
theorem processKey_eq_some_iff
    {ops : List KeyOp} {keys : KeyTable}
    (hruns : runs Hash.step Hash.initTable (ops.map KeyOp.hashOp) = some keys)
    (c : UInt32) (h : Handler) :
    processKey c keys = some (some h) ↔ boundTo c ops = some h := by
  have hrefines := Hash.refines_of_runs hruns
  rw [← lastSet_hashOps, ← Hash.foldl_apply_join]
  constructor
  · intro hkey
    exact (hrefines.get hkey).symm
  · intro hlast
    apply hrefines.getHashVar_of_some
    exact Option.join_eq_some_iff.mp hlast

theorem foldlM_bindKey (bindings : List (UInt32 × Handler)) (keys : KeyTable) :
    bindings.foldlM (fun keys key => bindKey key.1 key.2 keys) keys =
      runs Hash.step keys
        ((bindings.map fun key => KeyOp.bind key.1 key.2).map KeyOp.hashOp) := by
  rw [runs, List.foldlM_map, List.foldlM_map]
  rfl

theorem bindDefaults_eq :
    bindDefaults = runs Hash.step Hash.initTable (defaultOps.map KeyOp.hashOp) :=
  foldlM_bindKey defaultKeys Hash.initTable

/-! ## The whole file -/

theorem bindDefaults_isSome : bindDefaults.isSome = true := by
  decide

theorem handlers_boundGlobals {g : Globals} (h : boundGlobals = some g) :
    g.handlers = handlerNames := by
  obtain ⟨keys, -, rfl⟩ := Option.map_eq_some_iff.mp h
  rfl

/-- The key table is what the calls of the lines make of the empty one. -/
theorem runs_of_readOptions
    {bufs : List CStr} {g g' : Globals} (hg : boundGlobals = some g)
    (hread : readOptions mbtowc bufs g = some g') :
    runs Hash.step Hash.initTable ((keyOps mbtowc bufs).map KeyOp.hashOp) = some g'.keys := by
  obtain ⟨keys, hkeys, rfl⟩ := Option.map_eq_some_iff.mp hg
  rw [readOptions_eq_foldlM] at hread
  obtain ⟨hruns, -⟩ :=
    applyOptions_spec (g := ⟨defaultConfig, keys, handlerNames⟩) rfl (optionLines bufs)
  rw [keyOps, List.map_append, runs_append, ← bindDefaults_eq, hkeys, Option.bind_some,
    ← hruns, hread, Option.map_some]

/-- After the loop the keys are bound as the lines say, and there is a
downloader just if a line gives one. -/
theorem readOptions_spec
    {bufs : List CStr} {g g' : Globals} (hg : boundGlobals = some g)
    (hread : readOptions mbtowc bufs g = some g') :
    (∀ c h, processKey c g'.keys = some (some h) ↔ boundTo c (keyOps mbtowc bufs) = some h) ∧
      (∀ args, g'.config.pager = some args → args ≠ []) ∧
      (g'.config.downloader = none ↔ ¬GivesDownloader bufs) := by
  have hruns := runs_of_readOptions hg hread
  obtain ⟨keys, hkeys, rfl⟩ := Option.map_eq_some_iff.mp hg
  rw [readOptions_eq_foldlM] at hread
  obtain ⟨-, hafter⟩ :=
    applyOptions_spec (g := ⟨defaultConfig, keys, handlerNames⟩) rfl (optionLines bufs)
  obtain ⟨hpager, hdownloader⟩ := hafter g' hread
  refine ⟨processKey_eq_some_iff hruns, hpager (fun args h => by cases h), ?_⟩
  rw [hdownloader]
  exact and_iff_right rfl

theorem readOptions_isSome_iff
    {bufs : List CStr} {g : Globals} (hg : boundGlobals = some g) :
    (readOptions mbtowc bufs g).isSome ↔
      Meets Hash.step (fun t op => op.Fits t) Hash.initTable
        ((keyOps mbtowc bufs).map KeyOp.hashOp) := by
  obtain ⟨keys, hkeys, rfl⟩ := Option.map_eq_some_iff.mp hg
  have hruns := (applyOptions_spec (g := ⟨defaultConfig, keys, handlerNames⟩) rfl
    (optionLines bufs) : _ ∧ ∀ g', (optionLines bufs).foldlM (applyOption mbtowc) _ = some g' → _).1
  rw [← Hash.runs_isSome_iff_fits, keyOps, List.map_append, runs_append, ← bindDefaults_eq,
    hkeys, Option.bind_some, ← hruns, Option.isSome_map, readOptions_eq_foldlM]

theorem fixUp_pager
    {g : Globals} (h : ∀ args, g.config.pager = some args → args ≠ []) :
    ∃ args, (fixUp g).config.pager = some args ∧ args ≠ [] := by
  rw [fixUp]
  dsimp only
  cases hpager : g.config.pager with
  | none => exact ⟨_, rfl, List.cons_ne_nil _ _⟩
  | some args => exact ⟨args, rfl, h args hpager⟩

/-- The program comes out of the options file ready for every key, just if the
file can be opened, its bindings fit into the table, and it gives a downloader
or leaves no key bound to the download operation. -/
theorem ready_iff_prepares
    (mbtowc : CStr → Option UInt32) (file : Option (List CStr)) :
    (∃ g, readConfigOptionsFile mbtowc file = some g ∧ Ready g) ↔ Prepares mbtowc file := by
  obtain ⟨keys, hkeys⟩ := Option.isSome_iff_exists.mp bindDefaults_isSome
  have hg : boundGlobals = some ⟨defaultConfig, keys, handlerNames⟩ := by
    rw [boundGlobals, hkeys]
    rfl
  rw [readConfigOptionsFile, hg, Option.bind_some]
  cases file with
  | none =>
      refine iff_of_false ?_ ?_
      · rintro ⟨g, ⟨⟩, hready⟩
        obtain ⟨args, ⟨⟩, -⟩ := hready.pager
      · rintro ⟨bufs, ⟨⟩, -⟩
  | some bufs =>
      dsimp only
      constructor
      · rintro ⟨g, hmap, hready⟩
        obtain ⟨g', hread, rfl⟩ := Option.map_eq_some_iff.mp hmap
        obtain ⟨hbound, -, hdownloader⟩ := readOptions_spec hg hread
        refine ⟨bufs, rfl, ?_, ?_⟩
        · rw [← readOptions_isSome_iff hg, hread]
          rfl
        · by_cases hgives : GivesDownloader bufs
          · exact Or.inl hgives
          · right
            intro c hc
            exact hready.download (hdownloader.mpr hgives) c ((hbound c .download).mpr hc)
      · rintro ⟨bufs', ⟨⟩, hfits, hsafe⟩
        obtain ⟨g', hread⟩ :=
          Option.isSome_iff_exists.mp ((readOptions_isSome_iff hg).mpr hfits)
        obtain ⟨hbound, hpager, hdownloader⟩ := readOptions_spec hg hread
        refine ⟨fixUp g', by rw [hread]; rfl, ?_⟩
        apply ready_of_pager_of_download (fixUp_pager hpager)
        intro hnone c hc
        rcases hsafe with hgives | hunbound
        · exact hdownloader.mp hnone hgives
        · exact hunbound c ((hbound c .download).mp hc)

/-! ## Small files -/

/-- `mbtowc` in the C locale. -/
def mbtowcC (v : CStr) : Option UInt32 :=
  (v.head?.filter fun b => b < 128).map UInt8.toUInt32

/-- Without an options file the pager is `NULL`.  With an empty one the download
operation loses its name and keeps its key. -/
theorem default_keys_not_ready :
    (∃ g, readConfigOptionsFile mbtowcC none = some g ∧ g.config.pager = none ∧
      processKey 63 g.keys = some (some .printKeyPairs)) ∧
    ∃ g, readConfigOptionsFile mbtowcC (some []) = some g ∧ g.config.downloader = none ∧
      findHandler g.handlers (ascii "download") = none ∧
      processKey 68 g.keys = some (some .download) := by
  have hmissing : (readConfigOptionsFile mbtowcC none).map (fun g =>
      decide (g.config.pager = none ∧
        processKey 63 g.keys = some (some .printKeyPairs))) = some true := by
    decide
  have hempty : (readConfigOptionsFile mbtowcC (some [])).map (fun g =>
      decide (g.config.downloader = none ∧
        findHandler g.handlers (ascii "download") = none ∧
        processKey 68 g.keys = some (some .download))) = some true := by
    decide
  obtain ⟨g, hg, hg'⟩ := Option.map_eq_some_iff.mp hmissing
  obtain ⟨k, hk, hk'⟩ := Option.map_eq_some_iff.mp hempty
  exact ⟨⟨g, hg, of_decide_eq_true hg'⟩, k, hk, of_decide_eq_true hk'⟩

end Config
end Newsbaoter
