import Newsbaoter.Config.Bindings
import Newsbaoter.Config.Colors

/-!
# The options file

`read_config_options_file` with the table `config_options`.  The file is given
by the strings that `read_config_line` delivers, or by nothing if it cannot be
opened; `mbtowc` is that of the C library, for the locale of the program.
-/

namespace Newsbaoter
namespace Config

/-! ## The settings -/

/-- `struct nb_config`. -/
structure NbConfig where
  proxy : Option CStr
  dlRetries : ℤ
  autoReload : ℤ
  reloadTime : ℤ
  showReadFeeds : ℤ
  showReadEntries : ℤ
  parallelReload : ℤ
  confirmExit : ℤ
  notifyBeep : ℤ
  entryRetention : ℤ
  pager : Option (List CStr)
  downloader : Option (List CStr)
  htmlPager : ℤ
  colors : List NbColor

/-- `global_config` at the start of the program. -/
def defaultConfig : NbConfig where
  proxy := none
  dlRetries := 1
  autoReload := 1
  reloadTime := 30
  showReadFeeds := 1
  showReadEntries := 1
  parallelReload := 5
  confirmExit := 0
  notifyBeep := 0
  entryRetention := 3 * 24 * 60 * 60
  pager := none
  downloader := none
  htmlPager := 0
  colors := List.replicate 8 .unset

/-- The globals that the options file sets up. -/
structure Globals where
  config : NbConfig
  keys : KeyTable
  handlers : List (CStr × Option Handler)

/-! ## The handlers of the options -/

def copyStr (sd : Option CStr) (next : CStr) : Option CStr × ℤ :=
  match getLineWord next with
  | none => (sd, 1)
  | some (v, _) => (some v, 0)

/-- The buffer after the loop that counts the words: it has put a NUL in place
of the first blank of each gap. -/
def punch : ℕ → CStr → List UInt8
  | 0, buf => buf
  | rounds + 1, buf =>
      match getLineWord buf with
      | none => []
      | some (v, next) =>
          match buf.drop v.length with
          | [] => v
          | _ :: after => v ++ 0 :: (after.takeWhile isBlank ++ punch rounds next)

/-- The loop that walks over the NULs. -/
def nulStrings : ℕ → List UInt8 → List CStr
  | 0, _ => []
  | n + 1, buf =>
      buf.takeWhile (fun b => b ≠ 0) :: nulStrings n (buf.dropWhile fun b => b ≠ 0).tail

def copyStrarr (sd : Option (List CStr)) (next : CStr) : Option (List CStr) × ℤ :=
  let n := (lineWords next).length
  if n < 1 then (sd, 1)
  else (some (nulStrings n (punch next.length next)), 0)

/-- `config_bind_key`; `binds` is the address that tells the two options apart. -/
def configBindKey (mbtowc : CStr → Option UInt32) (binds : Bool) (next : CStr)
    (g : Globals) : Option (Globals × ℤ) :=
  match getLineWord next with
  | none => some (g, 1)
  | some (v, next) =>
      match mbtowc v with
      | none => some (g, 1)
      | some key =>
          if binds then
            match getLineWord next with
            | none => some (g, 1)
            | some (v, _) =>
                match findHandler g.handlers v with
                | none => some (g, 1)
                | some h => (bindKey key h g.keys).map fun keys => ({ g with keys := keys }, 0)
          else (unbindKey key g.keys).map fun keys => ({ g with keys := keys }, 0)

/-- `process` of one option, applied to the rest of the line. -/
abbrev Process := CStr → Globals → Option (Globals × ℤ)

/-- A handler that writes one field of `global_config`. -/
def onField {α : Type} (handler : α → CStr → α × ℤ) (get : NbConfig → α)
    (put : α → NbConfig → NbConfig) : Process := fun next g =>
  let r := handler (get g.config) next
  some ({ g with config := put r.1 g.config }, r.2)

def configOptions (mbtowc : CStr → Option UInt32) : List (CStr × Process) :=
  [(ascii "proxy", onField copyStr NbConfig.proxy fun v c => { c with proxy := v }),
    (ascii "download-retries",
      onField copyInt NbConfig.dlRetries fun v c => { c with dlRetries := v }),
    (ascii "auto-reload",
      onField copyInt NbConfig.autoReload fun v c => { c with autoReload := v }),
    (ascii "reload-time",
      onField copyInt NbConfig.reloadTime fun v c => { c with reloadTime := v }),
    (ascii "show-read-feeds",
      onField copyInt NbConfig.showReadFeeds fun v c => { c with showReadFeeds := v }),
    (ascii "show-read-articles",
      onField copyInt NbConfig.showReadEntries fun v c => { c with showReadEntries := v }),
    (ascii "reload-threads",
      onField copyInt NbConfig.parallelReload fun v c => { c with parallelReload := v }),
    (ascii "confirm-exit",
      onField copyInt NbConfig.confirmExit fun v c => { c with confirmExit := v }),
    (ascii "notify-beep",
      onField copyInt NbConfig.notifyBeep fun v c => { c with notifyBeep := v }),
    (ascii "color", onField copyColor NbConfig.colors fun v c => { c with colors := v }),
    (ascii "bind-key", configBindKey mbtowc true),
    (ascii "unbind-key", configBindKey mbtowc false),
    (ascii "cache-retention",
      onField copyInt NbConfig.entryRetention fun v c => { c with entryRetention := v }),
    (ascii "pager", onField copyStrarr NbConfig.pager fun v c => { c with pager := v }),
    (ascii "downloader",
      onField copyStrarr NbConfig.downloader fun v c => { c with downloader := v }),
    (ascii "html-pager",
      onField copyInt NbConfig.htmlPager fun v c => { c with htmlPager := v })]

/-- `find_config_index`, and the handler at that index. -/
def findConfig (mbtowc : CStr → Option UInt32) (s : CStr) : Option Process :=
  ((configOptions mbtowc).find? fun option => option.1 == s).map Prod.snd

/-! ## The file -/

/-- The loop of `read_config_options_file`; an empty string ends it. -/
def readOptions (mbtowc : CStr → Option UInt32) : List CStr → Globals → Option Globals
  | [], g => some g
  | buf :: rest, g =>
      if buf.head? = some 35 then readOptions mbtowc rest g
      else match getLineWord buf with
        | none => some g
        | some (bp, next) =>
            match findConfig mbtowc bp with
            | none => readOptions mbtowc rest g
            | some process =>
                (process next g).bind fun r => readOptions mbtowc rest r.1

/-- What stands between the loop and the label `done`. -/
def fixUp (g : Globals) : Globals :=
  { g with
    config :=
      { g.config with
        pager := match g.config.pager with
          | none => some [ascii "/usr/bin/less"]
          | some args => some args }
    handlers :=
      if g.config.downloader.isNone then unsetHandler (ascii "download") g.handlers
      else g.handlers }

/-- The globals with the default bindings. -/
def boundGlobals : Option Globals :=
  bindDefaults.map fun keys => ⟨defaultConfig, keys, handlerNames⟩

def readConfigOptionsFile (mbtowc : CStr → Option UInt32) (file : Option (List CStr)) :
    Option Globals :=
  boundGlobals.bind fun g =>
    match file with
    | none => some g
    | some bufs => (readOptions mbtowc bufs g).map fixUp

example :
    (copyStrarr none (ascii "less  -R -X ")).1 =
      some [ascii "less", ascii " -R", ascii "-X"] := by
  decide

end Config
end Newsbaoter
