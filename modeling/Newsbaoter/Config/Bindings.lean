import Newsbaoter.Core.Hex
import Newsbaoter.Hash.Table

/-!
# The key bindings

The key table of `keys.c`: an operation is bound to the hexadecimal text of a
key.  `none` stands for an access outside the table's array.
-/

namespace Newsbaoter
namespace Config

/-- The functions of type `handler_t`. -/
inductive Handler
  | exit | next | prev | lowItem | midItem | highItem | select | download | refreshAll
  | catchupFeed | catchupAll | toggleRead | redrawScreen | printKeyPairs
deriving DecidableEq

/-- `default_keys`. -/
def defaultKeys : List (UInt32 × Handler) :=
  [(113, .exit), -- q
    (106, .next), -- j
    (107, .prev), -- k
    (76, .lowItem), -- L
    (77, .midItem), -- M
    (72, .highItem), -- H
    (111, .select), -- o
    (68, .download), -- D
    (82, .refreshAll), -- R
    (65, .catchupFeed), -- A
    (67, .catchupAll), -- C
    (78, .toggleRead), -- N
    (87, .redrawScreen), -- W
    (63, .printKeyPairs)] -- ?

/-- `handler_names` at the start of the program. -/
def handlerNames : List (CStr × Option Handler) :=
  [(ascii "exit", some .exit),
    (ascii "next", some .next),
    (ascii "prev", some .prev),
    (ascii "select", some .select),
    (ascii "download", some .download),
    (ascii "high-item", some .highItem),
    (ascii "mid-item", some .midItem),
    (ascii "low-item", some .lowItem),
    (ascii "reload-all", some .refreshAll),
    (ascii "mark-feed-read", some .catchupFeed),
    (ascii "mark-all-feeds-read", some .catchupAll),
    (ascii "toggle-article-read", some .toggleRead),
    (ascii "redraw-screen", some .redrawScreen),
    (ascii "help", some .printKeyPairs)]

def findHandler (names : List (CStr × Option Handler)) (s : CStr) : Option Handler :=
  (names.find? fun entry => entry.1 == s).bind Prod.snd

def unsetHandler (s : CStr) (names : List (CStr × Option Handler)) :
    List (CStr × Option Handler) :=
  names.map fun entry => if entry.1 = s then (entry.1, none) else entry

abbrev KeyTable := Hash.Table Handler

def bindKey (c : UInt32) (handler : Handler) (keys : KeyTable) : Option KeyTable :=
  Hash.setHashVar (hexText c) (some handler) keys

def unbindKey (c : UInt32) (keys : KeyTable) : Option KeyTable :=
  Hash.unsetHashVar (hexText c) keys

/-- The handler `process_key` calls; the inner `none` is `KH_RET_NO_HANDLER`. -/
def processKey (c : UInt32) (keys : KeyTable) : Option (Option Handler) :=
  Hash.getHashVar (some (hexText c)) keys

def bindDefaults : Option KeyTable :=
  defaultKeys.foldlM (fun keys key => bindKey key.1 key.2 keys) Hash.initTable

/-! ## What lines do to the table -/

/-- One call of `bind_key` or `unbind_key`. -/
inductive KeyOp
  | bind (c : UInt32) (handler : Handler)
  | unbind (c : UInt32)

def KeyOp.run (keys : KeyTable) : KeyOp → Option KeyTable
  | .bind c handler => bindKey c handler keys
  | .unbind c => unbindKey c keys

def KeyOp.key : KeyOp → UInt32
  | .bind c _ => c
  | .unbind c => c

/-- What the last call about a key made of it. -/
def boundTo (c : UInt32) (ops : List KeyOp) : Option Handler :=
  match ops.reverse.find? fun op => op.key == c with
  | some (.bind _ handler) => some handler
  | _ => none

def defaultOps : List KeyOp :=
  defaultKeys.map fun key => .bind key.1 key.2

/-- The calls as operations of the hash table. -/
def KeyOp.hashOp : KeyOp → Hash.Op Handler
  | .bind c handler => .set (hexText c) (some handler)
  | .unbind c => .unset (hexText c)

end Config
end Newsbaoter
