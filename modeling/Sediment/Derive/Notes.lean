import Sediment.Base.JsonStream
import Sediment.Core.Models

namespace Sediment.Derive
open Base Sediment.Core
open Base.JsonScan (Text JsonValue codePoints scanOnce stream strField)

structure AttributionSession where
  tool : Text
  sessionId : Text
  stampedAt : Text
  deriving DecidableEq

namespace AttributionSession

def key (s : AttributionSession) : Text × Text := (s.tool, s.sessionId)

def names : List Text := [codePoints "tool", codePoints "session_id", codePoints "stamped_at"]

end AttributionSession

/-- One note of a commit. The version is pinned to 1. -/
structure AttributionNote where
  v : Int
  pinned : v = 1
  sessions : List AttributionSession

namespace AttributionNote

def names : List Text := [codePoints "v", codePoints "sessions"]

end AttributionNote

/-- `extra="forbid"`: no field beside the declared ones. -/
def noExtra (declared : List Text) (fields : List (Text × JsonValue)) : Bool :=
  fields.all (fun p => declared.contains p.1)

def validateSession : JsonValue → Option AttributionSession
  | .obj fields => do
    let tool ← strField fields "tool"
    let sessionId ← strField fields "session_id"
    let stampedAt ← strField fields "stamped_at"
    if noExtra AttributionSession.names fields then some ⟨tool, sessionId, stampedAt⟩ else none
  | _ => none

def requireSchemaVersionOne : JsonValue → Option { n : Int // n = 1 }
  | .int n => if h : n = 1 then some ⟨n, h⟩ else none
  | _ => none

def validateSessions : JsonValue → Option (List AttributionSession)
  | .arr items => items.mapM validateSession
  | _ => none

def modelValidate : JsonValue → Option AttributionNote
  | .obj fields => do
    let v ← (fields.lookup (codePoints "v")).bind requireSchemaVersionOne
    let sessions ← (fields.lookup (codePoints "sessions")).bind validateSessions
    if noExtra AttributionNote.names fields then some ⟨v, v.2, sessions⟩ else none
  | _ => none

def appendNote (notes : List AttributionNote) (payload : JsonValue) :
    Option (List AttributionNote) := do
  let note ← modelValidate payload
  some (notes ++ [note])

/-- What was seen, and the sessions merged so far. -/
structure Merge where
  seen : Finset (Text × Text)
  merged : List AttributionSession

def mergeSession (m : Merge) (session : AttributionSession) : Merge :=
  if session.key ∈ m.seen then m
  else ⟨insert session.key m.seen, m.merged ++ [session]⟩

def mergeNotes (notes : List AttributionNote) : List AttributionSession :=
  (notes.foldl (fun (m : Merge) note => note.sessions.foldl mergeSession m) ⟨∅, []⟩).merged

/-- `none` stands for any exception: a note that raises is dropped whole. The
interpreter allows `limit` containers inside each other. -/
def parseNoteBody (limit : Nat) (raw : String) : Option AttributionNote := do
  let notes ← stream isSpace (scanOnce limit) appendNote [] raw.toList
  if notes.isEmpty then none else some ⟨1, rfl, mergeNotes notes⟩

def maxNoteBytes : Nat := 64 * 1024

/-- What `read_commit_note` makes of the text that `git notes show` prints. -/
def readCommitNote (limit : Nat) (shown : Option String) : Option AttributionNote := do
  let raw ← shown
  if maxNoteBytes < raw.utf8ByteSize then none else parseNoteBody limit raw

end Sediment.Derive
