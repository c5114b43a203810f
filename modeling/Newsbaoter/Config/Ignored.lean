import Newsbaoter.Config.Delivery
import Newsbaoter.Config.Ready

/-!
# Lines without effect

Comments, lines that name no option and lines that their option rejects are
passed over.  Every handler finishes parsing before its first write, so none of
these lines leaves a trace in the settings, in the key table, or in what the
reader makes of the lines behind it.
-/

namespace Newsbaoter
namespace Config

variable {mbtowc : CStr → Option UInt32}

/-! ## Ignored lines -/

/-- A comment, a line that names no option, or one whose `process` returns `1`. -/
inductive Ignored (mbtowc : CStr → Option UInt32) (line : CStr) : Prop
  | comment (hhash : line.head? = some 35)
  | unknown {bp next : CStr} (hword : getLineWord line = some (bp, next))
      (hname : findConfig mbtowc bp = none)
  | rejected {bp next : CStr} {process : Process} {g g' : Globals}
      (hword : getLineWord line = some (bp, next))
      (hname : findConfig mbtowc bp = some process) (hg : g.handlers = handlerNames)
      (hrun : process next g = some (g', 1))

/-! ## The handlers -/

/-- A rest of the line that is rejected once is always rejected, and then nothing
is written. -/
def RejectsUntouched (process : Process) : Prop :=
  ∀ next g g', g.handlers = handlerNames → process next g = some (g', 1) →
    ∀ k, k.handlers = handlerNames → process next k = some (k, 1)

theorem rejectsUntouched_onField
    {α : Type} {handler : α → CStr → α × ℤ} {get : NbConfig → α} {put : α → NbConfig → NbConfig}
    (hhandler : ∀ v next, (handler v next).2 = 1 → ∀ w, handler w next = (w, 1))
    (hput : ∀ c, put (get c) c = c) :
    RejectsUntouched (onField handler get put) := by
  intro next g g' _ hrun k _
  have hreturns : (handler (get g.config) next).2 = 1 :=
    congrArg Prod.snd (Option.some.inj hrun)
  simp only [onField, hhandler _ next hreturns, hput]

theorem copyStr_rejects
    (sd : Option CStr) (next : CStr) (h : (copyStr sd next).2 = 1) (sd' : Option CStr) :
    copyStr sd' next = (sd', 1) := by
  rw [copyStr] at h ⊢
  cases hword : getLineWord next with
  | none => rfl
  | some word =>
      rw [hword] at h
      exact absurd h Int.zero_ne_one

theorem copyInt_rejects (id : ℤ) (next : CStr) (h : (copyInt id next).2 = 1) (id' : ℤ) :
    copyInt id' next = (id', 1) := by
  rw [copyInt] at h ⊢
  cases hword : getLineWord next with
  | none => rfl
  | some word =>
      rw [hword] at h
      dsimp only at h
      split_ifs at h
      all_goals exact absurd h Int.zero_ne_one

theorem copyStrarr_rejects
    (sd : Option (List CStr)) (next : CStr) (h : (copyStrarr sd next).2 = 1)
    (sd' : Option (List CStr)) :
    copyStrarr sd' next = (sd', 1) := by
  rw [copyStrarr] at h ⊢
  split_ifs at h ⊢ with hwords
  · rfl
  · exact absurd h Int.zero_ne_one

theorem copyColor_rejects
    (cd : List NbColor) (next : CStr) (h : (copyColor cd next).2 = 1) (cd' : List NbColor) :
    copyColor cd' next = (cd', 1) := by
  unfold copyColor at h ⊢
  dsimp only at h ⊢
  rcases htype : getLineWord next with - | ⟨type, next₁⟩
  · rfl
  simp only [htype] at h ⊢
  split_ifs at h ⊢ with hcti
  · rfl
  rcases hfg : getLineWord next₁ with - | ⟨fg, next₂⟩
  · rfl
  simp only [hfg] at h ⊢
  split_ifs at h ⊢ with hcfi
  · rfl
  rcases hbg : getLineWord next₂ with - | ⟨bg, rest⟩
  · rfl
  simp only [hbg] at h ⊢
  split_ifs at h ⊢ with hcbi
  · rfl
  · exact absurd h Int.zero_ne_one

/-- The operation is looked up in the names, which the lines leave as they are. -/
theorem configBindKey_rejects (binds : Bool) :
    RejectsUntouched (configBindKey mbtowc binds) := by
  intro next g g' hg hrun k hk
  have hwrites : ∀ {keys : Option KeyTable} {after : KeyTable → Globals},
      (keys.map fun keys => (after keys, (0 : ℤ))) ≠ some (g', 1) := by
    intro keys after hmap
    obtain ⟨keys, -, hpair⟩ := Option.map_eq_some_iff.mp hmap
    exact Int.zero_ne_one (congrArg Prod.snd hpair)
  unfold configBindKey at hrun ⊢
  rcases hv : getLineWord next with - | ⟨v, next₁⟩
  · rfl
  cases hkey : mbtowc v with
  | none => simp only [hkey]
  | some key =>
      simp only [hv, hkey] at hrun ⊢
      cases binds with
      | false => exact absurd hrun hwrites
      | true =>
          rcases hw : getLineWord next₁ with - | ⟨w, rest⟩
          · rfl
          · cases hh : findHandler handlerNames w with
            | none => simp only [hk, hh, if_true]
            | some h =>
                simp only [hw, hg, hh, if_true] at hrun
                exact absurd hrun hwrites

theorem rejectsUntouched_configOptions :
    ∀ option ∈ configOptions mbtowc, RejectsUntouched option.2 := by
  have hint : ∀ {get : NbConfig → ℤ} {put : ℤ → NbConfig → NbConfig},
      (∀ c, put (get c) c = c) → RejectsUntouched (onField copyInt get put) :=
    fun hput => rejectsUntouched_onField copyInt_rejects hput
  have hstrarr : ∀ {get : NbConfig → Option (List CStr)}
      {put : Option (List CStr) → NbConfig → NbConfig},
      (∀ c, put (get c) c = c) → RejectsUntouched (onField copyStrarr get put) :=
    fun hput => rejectsUntouched_onField copyStrarr_rejects hput
  simp only [configOptions, List.forall_mem_cons, List.not_mem_nil, IsEmpty.forall_iff,
    implies_true, and_true]
  exact ⟨rejectsUntouched_onField copyStr_rejects fun _ => rfl, hint fun _ => rfl,
    hint fun _ => rfl, hint fun _ => rfl, hint fun _ => rfl, hint fun _ => rfl,
    hint fun _ => rfl, hint fun _ => rfl, hint fun _ => rfl,
    rejectsUntouched_onField copyColor_rejects fun _ => rfl, configBindKey_rejects true,
    configBindKey_rejects false, hint fun _ => rfl, hstrarr fun _ => rfl, hstrarr fun _ => rfl,
    hint fun _ => rfl⟩

theorem rejectsUntouched_of_findConfig
    {s : CStr} {process : Process} (h : findConfig mbtowc s = some process) :
    RejectsUntouched process := by
  obtain ⟨option, hfind, rfl⟩ := Option.map_eq_some_iff.mp h
  exact rejectsUntouched_configOptions option (List.mem_of_find?_eq_some hfind)

/-! ## The loop over the lines -/

/-- A handler leaves the names of the operations alone. -/
theorem handlers_of_process
    {bp next : CStr} {process : Process} {g : Globals} {r : Globals × ℤ}
    (hname : findConfig mbtowc bp = some process) (hg : g.handlers = handlerNames)
    (hrun : process next g = some r) : r.1.handlers = handlerNames := by
  have happly : applyOption mbtowc g (bp, next) = some r.1 := by
    rw [applyOption, hname]
    dsimp only
    rw [hrun, Option.map_some]
  exact handlers_of_applyOption hg happly

theorem readOptions_ignored
    {line : CStr} (h : Ignored mbtowc line) {g : Globals} (hg : g.handlers = handlerNames)
    (after : List CStr) : readOptions mbtowc (line :: after) g = readOptions mbtowc after g := by
  rw [readOptions]
  split_ifs with hhash
  · rfl
  cases h with
  | comment hcomment => exact absurd hcomment hhash
  | unknown hword hname => simp only [hword, hname]
  | rejected hword hname hg' hrun =>
      have huntouched := rejectsUntouched_of_findConfig hname _ _ _ hg' hrun g hg
      simp only [hword, hname, huntouched, Option.bind_some]

/-- The lines before it only matter in that they leave the names of the
operations alone. -/
theorem readOptions_insert
    {line : CStr} (h : Ignored mbtowc line) (before after : List CStr) {g : Globals}
    (hg : g.handlers = handlerNames) :
    readOptions mbtowc (before ++ line :: after) g = readOptions mbtowc (before ++ after) g := by
  induction before generalizing g with
  | nil => exact readOptions_ignored h hg after
  | cons buf before ih =>
      rw [List.cons_append, List.cons_append, readOptions, readOptions]
      split_ifs with hhash
      · exact ih hg
      rcases hword : getLineWord buf with - | ⟨bp, next⟩
      · rfl
      dsimp only
      cases hname : findConfig mbtowc bp with
      | none => exact ih hg
      | some process =>
          cases hrun : process next g with
          | none => simp only [hrun, Option.bind_none]
          | some r =>
              simp only [hrun, Option.bind_some]
              exact ih (handlers_of_process hname hg hrun)

theorem readOptions_append_ignored
    {extra : List CStr} (hextra : ∀ buf ∈ extra, Ignored mbtowc buf) (bufs : List CStr)
    {g : Globals} (hg : g.handlers = handlerNames) :
    readOptions mbtowc (bufs ++ extra) g = readOptions mbtowc bufs g := by
  induction extra with
  | nil => rw [List.append_nil]
  | cons buf extra ih =>
      obtain ⟨hbuf, hrest⟩ := List.forall_mem_cons.mp hextra
      rw [readOptions_insert hbuf bufs extra hg]
      exact ih hrest

/-! ## The file -/

/-- The callers can get these strings from a file that is read in these chunks. -/
def Delivers (chunks : List Chunk) (bufs : List CStr) : Prop :=
  ∃ scribble garbage rounds, readLines scribble rounds 0 (Conf.fresh garbage) chunks = .ok bufs

/-- Where only newlines are left, at most one string comes, and that begins with
a newline. -/
theorem readLines_newlines
    {scribble : ℕ → ℕ → UInt8} {rounds k : ℕ} {c : Conf} {chunks : List Chunk} {skipped : CStr}
    {bufs : List CStr} (hc : Between c) (hskipped : Newlines skipped)
    (hunread : c.pending ++ content chunks = skipped ++ [])
    (hread : readLines scribble (rounds + 1) k c chunks = .ok bufs) :
    ∀ buf ∈ bufs, buf.head? = some 10 := by
  rw [readLines] at hread
  rcases readConfigLine_tail hc hskipped List.not_mem_nil hunread with
    hover | ⟨c', newlines, hcall, hready, heof, hno, hheld, hnewlines, -, -⟩
  · rw [hover] at hread
    cases hread
  rw [hcall, List.append_nil] at hread
  cases newlines with
  | nil =>
      cases hread
      simp
  | cons b newlines =>
      -- one string of newlines, and the call behind it ends the run
      obtain ⟨more, hmore⟩ := hready.string_eq
      have hhead : c'.string.head? = some 10 := by
        rw [hmore, hheld, hnewlines b List.mem_cons_self]
        rfl
      obtain ⟨c'', hend⟩ := readConfigLine_done (hready.overwrite (scribble k)) heof
        (not_mem_pending_overwrite hno (scribble k))
      cases rounds with
      | zero => cases hread
      | succ rounds =>
          simp only [List.isEmpty_cons, Bool.not_false, readLines, hend] at hread
          cases hread
          rw [List.forall_mem_singleton]
          exact hhead

/-- A text of complete lines is delivered line by line; what may come behind them
begins with a newline. -/
theorem readLines_lines
    {scribble : ℕ → ℕ → UInt8} {rounds k : ℕ} {c : Conf} {chunks : List Chunk} {text : CStr}
    {bufs : List CStr} (hc : Between c) (htext : c.pending ++ content chunks = text)
    (hterminated : Terminated text) (hnul : 0 ∉ text)
    (hread : readLines scribble rounds k c chunks = .ok bufs) :
    ∃ extra, bufs = lines text ++ extra ∧ ∀ buf ∈ extra, buf.head? = some 10 := by
  induction rounds generalizing k c chunks text bufs with
  | zero => cases hread
  | succ rounds ih =>
      rcases tail_or_line text with
        ⟨skipped, piece, rfl, hskipped, hpiece⟩ |
          ⟨skipped, line, rest, rfl, hskipped, hline, hne⟩
      · obtain rfl : piece = [] := by
          rw [terminated_append_of_newlines hskipped] at hterminated
          exact eq_nil_of_terminated hterminated hpiece
        rw [lines_tail hskipped hpiece, if_pos rfl]
        exact ⟨bufs, rfl, readLines_newlines hc hskipped htext hread⟩
      · rw [terminated_append_cons] at hterminated
        rw [List.mem_append, List.mem_cons, not_or, not_or] at hnul
        obtain ⟨hfront, -, hnulRest⟩ := hnul
        rcases readLines_line scribble rounds k hc hskipped hline hne htext with
          hover | ⟨c', chunks', hcall, hc', hrest, -⟩
        · rw [hover] at hread
          cases hread
        rw [hcall, cString_of_not_mem fun h0 => hfront (List.mem_append_right _ h0)] at hread
        cases htail : readLines scribble rounds (k + 1) c' chunks' with
        | error stop =>
            rw [htail] at hread
            cases hread
        | ok out =>
            rw [htail] at hread
            cases hread
            obtain ⟨extra, rfl, hextra⟩ := ih hc' hrest hterminated hnulRest htail
            refine ⟨extra, ?_, hextra⟩
            rw [lines_cons rest hskipped hline hne, List.cons_append]

/-- No option has a name that begins with a newline. -/
theorem ignored_of_newline {buf : CStr} (h : buf.head? = some 10) : Ignored mbtowc buf := by
  obtain ⟨more, rfl⟩ := List.head?_eq_some_iff.mp h
  have hword : getLineWord (10 :: more) =
      some (10 :: more.takeWhile fun b => !isBlank b,
        (more.dropWhile fun b => !isBlank b).tail.dropWhile isBlank) := by
    rfl
  refine .unknown hword ?_
  have hnames : ∀ option ∈ configOptions mbtowc, option.1.head? ≠ some 10 := by
    simp only [configOptions, List.forall_mem_cons, List.not_mem_nil, IsEmpty.forall_iff,
      implies_true, and_true]
    decide
  rw [findConfig, Option.map_eq_none_iff, List.find?_eq_none]
  intro option hoption heq
  apply hnames option hoption
  rw [beq_iff_eq.mp heq]
  rfl

/-- Two lists of lines that the loop takes the same way give the same globals. -/
theorem readConfigOptionsFile_congr
    {bufs bufs' : List CStr}
    (h : ∀ g, g.handlers = handlerNames → readOptions mbtowc bufs g = readOptions mbtowc bufs' g) :
    readConfigOptionsFile mbtowc (some bufs) = readConfigOptionsFile mbtowc (some bufs') := by
  rw [readConfigOptionsFile, readConfigOptionsFile]
  cases hg : boundGlobals with
  | none => rfl
  | some g =>
      simp only [Option.bind_some]
      rw [h g (handlers_boundGlobals hg)]

/-- Of a text of complete lines only the lines count, however it is read. -/
theorem readConfigOptionsFile_of_delivers
    {chunks : List Chunk} {bufs : List CStr} (hterminated : Terminated (content chunks))
    (hnul : 0 ∉ content chunks) (hdelivers : Delivers chunks bufs) :
    readConfigOptionsFile mbtowc (some bufs) =
      readConfigOptionsFile mbtowc (some (lines (content chunks))) := by
  obtain ⟨scribble, garbage, rounds, hread⟩ := hdelivers
  have hpending : (Conf.fresh garbage).pending ++ content chunks = content chunks := by
    rfl
  obtain ⟨extra, rfl, hextra⟩ :=
    readLines_lines (between_fresh garbage) hpending hterminated hnul hread
  apply readConfigOptionsFile_congr
  intro g hg
  exact readOptions_append_ignored (fun buf hbuf => ignored_of_newline (hextra buf hbuf)) _ hg

/-- An ignored line may stand anywhere: between any lines, and in any file of
complete lines, however that is cut into reads. -/
theorem insert_ignored_line
    {line : CStr} (h : Ignored mbtowc line) (before after : List CStr) :
    readConfigOptionsFile mbtowc (some (before ++ line :: after)) =
        readConfigOptionsFile mbtowc (some (before ++ after)) ∧
      ∀ chunks chunks' bufs bufs', Terminated (content chunks) → 0 ∉ content chunks →
        Terminated (content chunks') → 0 ∉ content chunks' →
        lines (content chunks) = before ++ line :: after →
        lines (content chunks') = before ++ after →
        Delivers chunks bufs → Delivers chunks' bufs' →
        readConfigOptionsFile mbtowc (some bufs) = readConfigOptionsFile mbtowc (some bufs') := by
  have hinsert : readConfigOptionsFile mbtowc (some (before ++ line :: after)) =
      readConfigOptionsFile mbtowc (some (before ++ after)) :=
    readConfigOptionsFile_congr fun g hg => readOptions_insert h before after hg
  refine ⟨hinsert, ?_⟩
  intro chunks chunks' bufs bufs' hterm hnul hterm' hnul' hlines hlines' hread hread'
  rw [readConfigOptionsFile_of_delivers hterm hnul hread, hlines,
    readConfigOptionsFile_of_delivers hterm' hnul' hread', hlines']
  exact hinsert

/-! ## Small files -/

/-- A line without an operation, and one behind it. -/
def strayChunks : List Chunk := [⟨ascii "bind-key q\nproxy a\n", by decide⟩]

/-- The second line alone, and an empty line that is read by itself. -/
def plainChunks : List Chunk := [⟨ascii "proxy a\n", by decide⟩, newlineChunk]

theorem insert_unfinished_binding :
    readConfigOptionsFile mbtowcC (some [ascii "bind-key q", ascii "proxy a"]) =
        readConfigOptionsFile mbtowcC (some [ascii "proxy a"]) ∧
      readConfigOptionsFile mbtowcC (some [ascii "bind-key q", ascii "proxy a"]) =
        readConfigOptionsFile mbtowcC (some [ascii "proxy a", [10]]) := by
  have hignored : Ignored mbtowcC (ascii "bind-key q") := by
    have hword : getLineWord (ascii "bind-key q") = some (ascii "bind-key", ascii "q") := by
      decide
    have hname : findConfig mbtowcC (ascii "bind-key") = some (configBindKey mbtowcC true) := by
      rfl
    have hrun : configBindKey mbtowcC true (ascii "q")
        ⟨defaultConfig, Hash.initTable, handlerNames⟩ =
          some (⟨defaultConfig, Hash.initTable, handlerNames⟩, 1) := by
      rfl
    exact .rejected hword hname rfl hrun
  obtain ⟨hinsert, hfiles⟩ := insert_ignored_line hignored [] [ascii "proxy a"]
  have hstray : Terminated (content strayChunks) := terminated_of_getLast (by decide)
  have hplain : Terminated (content plainChunks) := terminated_of_getLast (by decide)
  refine ⟨hinsert, hfiles strayChunks plainChunks _ _ hstray (by decide) hplain (by decide)
    (by decide) (by decide) ?_ ?_⟩
  · exact ⟨fun _ _ => 0, fun _ => 0, 30, by rfl⟩
  · exact ⟨fun _ _ => 0, fun _ => 0, 30, by rfl⟩

end Config
end Newsbaoter
