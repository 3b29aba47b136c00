import Sediment.Base.Difflib
import Sediment.Base.Lines
import Sediment.Base.Dict
import Sediment.Derive.Rollout

namespace Sediment.Cli
open Sediment.Base Sediment.Core
open Json (asStr strField)
open Sediment.Derive (FloatValue)

abbrev Fields := List (String × Value)

structure Edit where
  toolUseId : String
  toolName : String
  filePath : String
  appliedText : String
  timeUnixNano : Int
  deriving DecidableEq

inductive CallOutcome where
  | ok | reject | error
  deriving DecidableEq, Repr

/-- What the standard library makes of an ISO timestamp: its nanoseconds, rounded as the
double is. `none` stands for the `ValueError`. -/
class Timestamps where
  fromisoformat : String → Option Int

/-- `bool(value)`. -/
def truthy [FloatValue] : Value → Bool
  | .null => false
  | .bool b => b
  | .int n => n ≠ 0
  | .float x => !x.finite || decide (FloatValue.exact x ≠ 0)
  | .str s => s ≠ ""
  | .arr items => !items.isEmpty
  | .obj fields => !fields.isEmpty

def asObj : Value → Option Fields
  | .obj fields => some fields
  | _ => none

def asArr : Value → Option (List Value)
  | .arr items => some items
  | _ => none

def nanos [Timestamps] (timestamp : Option Value) : Option Int := do
  let text ← timestamp.bind asStr
  let text := if text.toList.getLast? = some 'Z' then
    String.ofList text.toList.dropLast ++ "+00:00" else text
  Timestamps.fromisoformat text

def editTools : String → Option String
  | "Edit" => some "new_string"
  | "Write" => some "content"
  | _ => none

def rejectResult : String := "User rejected tool use"

def rejectPhrase : String := "The user doesn't want to proceed with this tool use."

/-- The text that the model saw of a result, however it is shaped. -/
def resultText (block : Fields) : String :=
  match block.lookup "content" with
  | some (.str text) => text
  | some (.arr parts) =>
    " ".intercalate (parts.filterMap (fun part => (asObj part).bind (strField · "text")))
  | _ => ""

def isUserReject (entry block : Fields) : Bool :=
  strField entry "toolUseResult" = some rejectResult ||
    rejectPhrase.toList.isPrefixOf (resultText block).toList

section
variable [Timestamps]

/-- An Edit or Write call, unless one of its fields is missing or junk. -/
def editCall (entry block : Fields) : Option Edit := do
  let name ← strField block "name"
  let textField ← editTools name
  let input ← (block.lookup "input").bind asObj
  let filePath ← strField input "file_path"
  let text ← strField input textField
  let toolUseId ← strField block "id"
  let time ← nanos (entry.lookup "timestamp")
  guard (filePath ≠ "" ∧ toolUseId ≠ "" ∧ time ≠ 0)
  pure ⟨toolUseId, name, filePath, text, time⟩

/-- Looking up a list or an object among the tool names raises. -/
def unhashable : Option Value → Bool
  | some (.arr _) => true
  | some (.obj _) => true
  | _ => false

variable [FloatValue]

structure ClaudeCalls where
  calls : List Edit
  outcome : Dict String CallOutcome

/-- One content block of an entry, or `none` where reading it raises. -/
def claudeBlock (entry : Fields) (seen : ClaudeCalls) (block : Value) : Option ClaudeCalls :=
  match asObj block with
  | none => some seen
  | some block =>
    if strField entry "type" = some "assistant" ∧ strField block "type" = some "tool_use" then
      if unhashable (block.lookup "name") then none
      else some { seen with calls := seen.calls ++ (editCall entry block).toList }
    else if strField entry "type" = some "user" ∧ strField block "type" = some "tool_result" then
      match strField block "tool_use_id" with
      | none => some seen
      | some toolUseId =>
        let result :=
          if !((block.lookup "is_error").any truthy) then CallOutcome.ok
          else if isUserReject entry block then .reject
          else .error
        some { seen with outcome := seen.outcome.set toolUseId result }
    else some seen

/-- Lines of other Sessions are skipped: a resumed transcript embeds them. -/
def claudeCalls (entries : List Fields) (sessionId : Option String) : Option ClaudeCalls :=
  entries.foldlM (fun seen entry =>
    let foreign := match sessionId, strField entry "sessionId" with
      | some own, some other => decide (other ≠ own)
      | _, _ => false
    if foreign then some seen
    else
      match ((entry.lookup "message").bind asObj).bind (fun message =>
          (message.lookup "content").bind asArr) with
      | none => some seen
      | some content => content.foldlM (claudeBlock entry) seen) ⟨[], Dict.empty⟩

/-- Applied edits: those whose result arrived without an error. -/
def extractEdits (entries : List Fields) (sessionId : Option String) : Option (List Edit) := do
  let seen ← claudeCalls entries sessionId
  pure (seen.calls.filter (fun call => decide (seen.outcome.get? call.toolUseId = some .ok)))

end

/-- What the hook before an edit stored of the file, as line hashes. -/
structure Snapshot where
  callId : String
  filePath : String
  ts : Int
  pre : List String
  post : Option (List String)
  deriving DecidableEq

class LineDigest where
  blake2b : List Char → String

def lineHashes [LineDigest] (text : String) : List String :=
  (Lines.splitlines [] text.toList).map LineDigest.blake2b

/-- Lines added and lines removed. -/
abbrev LineCounts := Nat × Nat

def opcodeDelta (op : Difflib.Opcode) : LineCounts :=
  (if op.tag = .replace ∨ op.tag = .insert then op.j2 - op.j1 else 0,
    if op.tag = .replace ∨ op.tag = .delete then op.i2 - op.i1 else 0)

def lineDelta (before after : List String) : LineCounts :=
  (Difflib.getOpcodes before after).foldl (fun total op => total + opcodeDelta op) 0

/-- The window that an edit opens closes at the next edit, the last one at the Session end. -/
def closedLines (atEnd : Option (List String)) (rest : List Snapshot) : Option (List String) :=
  match rest with
  | next :: _ => some next.pre
  | [] => atEnd

def fileWindows (atEnd : Option (List String)) : List Snapshot → List (String × LineCounts)
  | [] => []
  | snap :: rest =>
    let window := do
      let opened ← snap.post
      let closed ← closedLines atEnd rest
      some (snap.callId, lineDelta opened closed)
    window.toList ++ fileWindows atEnd rest

def snapshotOrder (snap : Snapshot) : Int ×ₗ String := toLex (snap.ts, snap.callId)

/-- Windows are delimited by applied edits only. -/
def externalDeltas [LineDigest] (snapshots : List Snapshot)
    (observedFileStates : Dict String (Option String)) (applied : List String) :
    Dict String LineCounts :=
  let byFile := Dict.empty.gather (((sortedBy snapshotOrder snapshots).filter
    (fun snap => snap.callId ∈ applied)).map (fun snap => (snap.filePath, snap)))
  byFile.entries.foldl (fun out group =>
    let atEnd := (observedFileStates.get? group.1).join.map lineHashes
    (fileWindows atEnd group.2).foldl (fun out window => out.set window.1 window.2) out) Dict.empty

inductive FileRead where
  | text (content : String)
  | missing (resolved : Bool)
  | unreadable

/-- A missing file reads as an empty one, unless its path leads nowhere. -/
def observedText : FileRead → Option String
  | .text content => some content
  | .missing true => some ""
  | .missing false => none
  | .unreadable => none

def observedFileStates (disk : String → FileRead) (edits : List Edit) :
    Dict String (Option String) :=
  edits.foldl (fun states edit => states.set edit.filePath (observedText (disk edit.filePath)))
    Dict.empty

structure Pair where
  edit : Edit
  observedFileText : String
  externalLines : Option LineCounts
  deriving DecidableEq

def maxTextBytes : Nat := 256 * 1024

/-- The text an edit ships with, unless its file is unobservable or a side is too large. -/
def shippable (states : Dict String (Option String)) (edit : Edit) : Option String := do
  let text ← (states.get? edit.filePath).join
  if maxTextBytes < edit.appliedText.utf8ByteSize ∨ maxTextBytes < text.utf8ByteSize then none
  else some text

section
variable [LineDigest]

/-- A file is holed once an applied edit of it ships no pair or has no window. -/
def holed (states : Dict String (Option String)) (deltas : Dict String LineCounts)
    (edits : List Edit) (path : String) : Bool :=
  edits.any (fun edit => decide (edit.filePath = path) &&
    ((shippable states edit).isNone || !deltas.contains edit.toolUseId))

def sessionDeltas (sessionId : Option String) (snapshots : List Snapshot)
    (disk : String → FileRead) (edits : List Edit) : Dict String LineCounts :=
  if sessionId.any (· ≠ "") then
    externalDeltas snapshots (observedFileStates disk edits) (edits.map Edit.toolUseId)
  else Dict.empty

/-- `build_pairs`, from the edits that the parser of the harness extracted. -/
def buildPairs (sessionId : Option String) (snapshots : List Snapshot) (disk : String → FileRead)
    (edits : List Edit) : List Pair :=
  let states := observedFileStates disk edits
  let deltas := sessionDeltas sessionId snapshots disk edits
  edits.filterMap (fun edit => (shippable states edit).map (fun text =>
    ⟨edit, text, if holed states deltas edits edit.filePath then none
      else deltas.get? edit.toolUseId⟩))

end

end Sediment.Cli
