import Sediment.Base.JsonDumps
import Sediment.Base.JsonStream
import Sediment.Core.Models

namespace Sediment.Cli
open Base Sediment.Core
open Base.JsonScan (Text JsonValue codePoints dumps scanOnce stream)

def schemaVersion : Int := 1

def noteLimitBytes : Nat := 64 * 1024

/-- A decoded object, as `session` is one in the source. -/
abbrev Record := List (Text × JsonValue)

def keySet (r : Record) : Finset Text := (r.map Prod.fst).toFinset

def isStr : JsonValue → Bool
  | .str _ => true
  | _ => false

/-- `r[name]` for a record whose values are all strings. -/
def textAt (r : Record) (name : String) : Text :=
  match r.lookup (codePoints name) with
  | some (.str text) => text
  | _ => []

def isVersion : Option JsonValue → Bool
  | some (.int n) => decide (n = schemaVersion)
  | _ => false

def sessionWellFormed (r : Record) : Bool :=
  decide (keySet r = {codePoints "tool", codePoints "session_id", codePoints "stamped_at"}) &&
    r.all (fun p => isStr p.2)

def sessionKey (r : Record) : Text × Text := (textAt r "tool", textAt r "session_id")

def addSession (sessions : Dict (Text × Text) Record) (session : JsonValue) :
    Option (Dict (Text × Text) Record) :=
  match session with
  | .obj r => if sessionWellFormed r then some (sessions.setdefault (sessionKey r) r) else none
  | _ => none

def addPayload (sessions : Dict (Text × Text) Record) (payload : JsonValue) :
    Option (Dict (Text × Text) Record) :=
  match payload with
  | .obj r =>
    if keySet r = {codePoints "v", codePoints "sessions"} ∧ isVersion (r.lookup (codePoints "v"))
    then
      match r.lookup (codePoints "sessions") with
      | some (.arr items) => items.foldlM addSession sessions
      | _ => none
    else none
  | _ => none

/-- `none` stands for the capture failure `note_invalid`. -/
def parseNoteSessions (limit : Nat) (raw : String) : Option (List Record) :=
  if strip raw = "" ∨ noteLimitBytes < raw.utf8ByteSize then none
  else
    (stream isSpace (scanOnce limit) addPayload Dict.empty raw.toList).map Dict.values

def noteValue (sessions : List Record) : JsonValue :=
  .obj [(codePoints "v", .int schemaVersion), (codePoints "sessions", .arr (sessions.map .obj))]

/-- The payload of `cmd_stamp`. -/
def stampPayload (sessions : List Record) : List Char := dumps (noteValue sessions)

def noteLines (body : String) : List (List Char) := body.toList.splitOn '\n'

/-- `git notes merge -s cat_sort_uniq`. -/
def catSortUniq (a b : String) : String :=
  let lines := (noteLines a ++ noteLines b).filter (fun line => !line.isEmpty)
  String.ofList ((sortedBy id lines).dedup.flatMap (fun line => line ++ ['\n']))

end Sediment.Cli
