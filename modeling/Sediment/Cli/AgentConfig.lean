import Sediment.Base.Dict
import Sediment.Base.Json
import Sediment.Core.TextMethods

namespace Sediment.Cli.AgentConfig
open Sediment.Base Sediment.Core Sediment.Core.TextMethods

variable {φ : Type}

abbrev Value (φ : Type) := Json (List Char) φ

/-- A JSON object as `json.loads` leaves it. -/
abbrev Fields (φ : Type) := List (List Char × Value φ)

/-- Rebind one key in its place, or bind it at the end when it is new. -/
def setField (key : List Char) (value : Value φ) (fields : Fields φ) : Fields φ :=
  Dict.alterEntries key (fun _ => value) fields

def getField (key : List Char) : Fields φ → Option (Value φ)
  | [] => none
  | field :: fields => if field.1 = key then some field.2 else getField key fields

/-- The fields besides one key. -/
def dropField (key : List Char) (fields : Fields φ) : Fields φ :=
  fields.eraseP (·.1 = key)

def hooksKey : List Char := "hooks".toList
def commandKey : List Char := "command".toList
def typeKey : List Char := "type".toList
def matcherKey : List Char := "matcher".toList

/-- Which characters a pattern takes for one another when it ignores case. -/
class CaseFolding where
  sameLetter : Char → Char → Bool

section
variable [CaseFolding]

/-- What stands behind a word that the text starts with, whatever its case. -/
def caselessRest : List Char → List Char → Option (List Char)
  | [], text => some text
  | _ :: _, [] => none
  | c :: word, d :: text => if CaseFolding.sameLetter c d then caselessRest word text else none

def caselessEnds (word text : List Char) : Bool := (caselessRest word.reverse text.reverse).isSome

def executables : List (List Char) := ["/sediment".toList, "/sediment.exe".toList]

def subcommands : List (List Char) :=
  ["cursor-hook".toList, "mark".toList, "transcript".toList]

/-- `(?:cursor-hook|mark|transcript)(?:\s|$)` -/
def startsSubcommand (text : List Char) : Bool :=
  subcommands.any fun word => (caselessRest word text).any fun rest => rest.head?.all isSpace

/-- `_SEDIMENT_EXE_RE.match` -/
def matchesExecutable (text : List Char) : Bool :=
  match text with
  | '"' :: quoted =>
    match quoted.dropWhile (· ≠ '"') with
    | '"' :: ' ' :: rest =>
      executables.any (fun executable => caselessEnds executable (before '"' quoted)) &&
        startsSubcommand rest
    | _ => false
  | _ => false

/-- `_HOOK_COMMAND_TAGS` -/
def hookCommandTags : List (List Char) :=
  ["sediment_attribution.py".toList, "attribution.py".toList, "sediment_transcript.py".toList,
   "sediment_cli/transcript.py".toList]

/-- `_is_sediment_command` -/
def isSedimentCommand (command : List Char) : Bool :=
  let normalized := command.map (fun c => if c = '\\' then '/' else c)
  hookCommandTags.any (fun tag => decide (tag <:+: normalized)) || matchesExecutable normalized

/-- `_is_our_hook` -/
def isOurHook (hook : Fields φ) : Bool :=
  match (getField commandKey hook).getD (.str []) with
  | .str command => isSedimentCommand command
  | _ => false

def isOurItem (item : Value φ) : Bool :=
  match item with
  | .obj hook => isOurHook hook
  | _ => false

/-- What `for hook in block.get("hooks", [])` runs over. `none` stands for the `TypeError` of a
value that nothing can run over; a text and an object give no hooks. -/
def hooksIn (block : Fields φ) : Option (List (Value φ)) :=
  match getField hooksKey block with
  | none => some []
  | some (.arr items) => some items
  | some (.str text) => some (text.map fun c => .str [c])
  | some (.obj fields) => some (fields.map fun field => .str field.1)
  | some _ => none

def asObject (value : Value φ) : Option (Fields φ) :=
  match value with
  | .obj fields => some fields
  | _ => none

/-- How many containers inside each other the JSON library follows before it raises
`RecursionError`. It follows the six of a config that holds nothing but our entry. -/
class JsonDepth where
  loads : Nat
  dumps : Nat
  loads_entry : 6 ≤ loads
  dumps_entry : 6 ≤ dumps

variable [JsonDepth]

/-- A file of an agent: missing, not a JSON text, or one. -/
inductive ConfigFile (φ : Type) where
  | missing
  | unreadable
  | document (value : Value φ)

/-- `_load_json`, which catches `OSError` and `ValueError` only. `none` stands for the
`RecursionError`, `some none` for a file that must not be touched. -/
def loadJson (file : ConfigFile φ) : Option (Option (Fields φ)) :=
  match file with
  | .missing => some (some [])
  | .unreadable => some none
  | .document value => if value.nesting ≤ JsonDepth.loads then some (asObject value) else none

/-- The block of an agent's hook. -/
structure HookBlock where
  matcher : Option (List Char)
  command : List Char

def HookBlock.value (block : HookBlock) : Value φ :=
  .obj (block.matcher.toList.map (fun matcher => (matcherKey, .str matcher)) ++
    [(hooksKey, .arr [.obj [(typeKey, .str commandKey), (commandKey, .str block.command)]])])

inductive Status where
  | skipped | alreadyPresent | updated | added
deriving DecidableEq

end
end Sediment.Cli.AgentConfig
