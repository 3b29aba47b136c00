import Sediment.Base.Json
import Sediment.Core.Models

namespace Sediment.Core
open Sediment.Base

/-- A captured float: whether it is finite, and how JSON spells it. -/
structure JsonFloat where
  finite : Bool
  repr : String

abbrev Value := Json String JsonFloat

inductive EvidenceSide where
  | input | output
  deriving DecidableEq

def EvidenceSide.value : EvidenceSide → String
  | .input => "input"
  | .output => "output"

/-- One immutable occurrence, independent of tool or provider call aliases. -/
structure EvidenceReference where
  inferenceCallId : String
  side : EvidenceSide
  messageIndex : Nat
  partIndex : Nat
  deriving DecidableEq

inductive MessagePart where
  | text (content : String)
  | reasoning (content : String)
  | toolCall (id name : String) (arguments : List (String × Value))
  | toolCallResponse (id : String) (result : Value)

structure EvidenceReadItem where
  reference : EvidenceReference
  observedAt : AwareDatetime
  role : String
  finishReason : Option String
  part : MessagePart

/-- Complete bounded visible Session content, owned by one read snapshot. -/
structure EvidenceContextSource where
  sessionId : String
  quarantineRevision : Nat
  visibleInferenceCalls : Nat
  quarantinedInferenceCalls : Nat
  items : List EvidenceReadItem

structure ContextCommitAnchor where
  repositoryProvider : ForgeProvider
  repositoryHost : String
  repositoryId : String
  commitSha : String

structure ContextCommitMatch where
  observationId : String
  sourcePushId : String
  capturedAt : AwareDatetime

structure ContextDiscoverySession where
  sessionId : String
  items : List EvidenceReadItem
  commitMatch : Option ContextCommitMatch

/-- Complete bounded authorized population, owned by one read snapshot, with
each found Session once. -/
structure ContextDiscoverySource where
  authorizedSessions : Nat
  quarantineRevision : Nat
  visibleInferenceCalls : Nat
  quarantinedInferenceCalls : Nat
  sessions : List ContextDiscoverySession
  commit : Option ContextCommitAnchor
  distinct : (sessions.map ContextDiscoverySession.sessionId).Nodup

structure ContextScanSession where
  sessionId : String
  commitMatch : Option ContextCommitMatch

/-- Content-free scope for one complete keyword stream. -/
structure ContextScanMetadata where
  authorizedSessions : Nat
  quarantineRevision : Nat
  visibleInferenceCalls : Nat
  quarantinedInferenceCalls : Nat
  sessions : List ContextScanSession
  commit : Option ContextCommitAnchor

def contextScanPartLimit : Nat := 16384

inductive EvidenceReadError where
  | nonFiniteNumber
  | evidenceResponseLimit (limit : Int)
  | retrievalStateLimit (limitBytes : Nat)
  deriving DecidableEq

def validateEvidenceNumbers (value : Value) : Except EvidenceReadError Unit :=
  if value.allFloats JsonFloat.finite then .ok () else .error .nonFiniteNumber

/-- How the JSON writer spells an instant. -/
class DatetimeJson where
  text : AwareDatetime → String

def optionalStr : Option String → Value
  | some s => .str s
  | none => .null

def EvidenceReference.payload (r : EvidenceReference) : Value :=
  .obj [("inference_call_id", .str r.inferenceCallId), ("side", .str r.side.value),
    ("message_index", .int r.messageIndex), ("part_index", .int r.partIndex)]

def MessagePart.payload : MessagePart → Value
  | .text content => .obj [("type", .str "text"), ("content", .str content)]
  | .reasoning content => .obj [("type", .str "reasoning"), ("content", .str content)]
  | .toolCall id name arguments =>
    .obj [("type", .str "tool_call"), ("id", .str id), ("name", .str name),
      ("arguments", .obj arguments)]
  | .toolCallResponse id result =>
    .obj [("type", .str "tool_call_response"), ("id", .str id), ("result", result)]

def ContextCommitAnchor.payload (c : ContextCommitAnchor) : Value :=
  .obj [("repository_provider", .str c.repositoryProvider.value),
    ("repository_host", .str c.repositoryHost), ("repository_id", .str c.repositoryId),
    ("commit_sha", .str c.commitSha)]

section
variable [DatetimeJson]

def EvidenceReadItem.payload (item : EvidenceReadItem) : Value :=
  .obj [("reference", item.reference.payload),
    ("observed_at", .str (DatetimeJson.text item.observedAt)), ("role", .str item.role),
    ("finish_reason", optionalStr item.finishReason), ("part", item.part.payload)]

def ContextCommitMatch.payload (m : ContextCommitMatch) : Value :=
  .obj [("observation_id", .str m.observationId), ("source_push_id", .str m.sourcePushId),
    ("captured_at", .str (DatetimeJson.text m.capturedAt))]

end

/-- Fields in the order they were captured. -/
def compactWriter : Json.Writer String JsonFloat :=
  ⟨quoteAscii, fun x => x.repr.toList, id⟩

def sortedWriter : Json.Writer String JsonFloat :=
  ⟨quoteAscii, fun x => x.repr.toList, fun fields => sortedBy Prod.fst fields⟩

/-- Emit exact bounded strict ASCII JSON. A typed value already meets its
contract, so only a number or the length can be refused. -/
def encodeEvidenceJson (payload : Value) (maxBytes : Int) :
    Except EvidenceReadError (List Char) := do
  validateEvidenceNumbers payload
  let encoded := payload.write compactWriter
  if maxBytes < encoded.length then throw (.evidenceResponseLimit maxBytes)
  pure encoded

end Sediment.Core
