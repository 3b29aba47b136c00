import Sediment.Base.Dict
import Sediment.Base.JsonDumps
import Sediment.Cli.DeliveryRequest

namespace Sediment.Cli.TranscriptRequests
open Sediment.Base Sediment.Base.JsonScan

def maxEntryBytes : Nat := 8 * 1024 * 1024

inductive DeliveryError where
  | invalidRequest | entryTooLarge
  deriving DecidableEq, Repr

/-- `_destination("otlp", value)`; `none` stands for the error it raises. -/
class Destinations where
  destination : String → Option String

/-- `_destination`, of the channel `_prepare_requests` asks for. -/
@[reducible] def otlpDestinations [Core.Urls.UnicodeText] [Core.Urls.IpAddresses] :
    Destinations where
  destination value := (Delivery.destination "otlp" value.toList).toOption.map String.ofList

/-- A prepared request, whose body is bounded. -/
structure DeliveryRequest where
  destination : String
  body : List Char
  bounded : body.length ≤ maxEntryBytes

def prepareRequest [Destinations] (destination : String) (body : List Char) :
    Except DeliveryError DeliveryRequest :=
  if h : body.length ≤ maxEntryBytes then
    match Destinations.destination destination with
    | none => .error .invalidRequest
    | some destination => .ok ⟨destination, body, h⟩
  else .error .entryTooLarge

inductive AttributeValue where
  | int (n : Int)
  | string (t : Text)

/-- OTLP/JSON encodes an int64 as a string. -/
def AttributeValue.json : AttributeValue → JsonValue
  | .int n => .obj [(codePoints "intValue", .str (codePoints (toString n)))]
  | .string t => .obj [(codePoints "stringValue", .str t)]

def attrs (mapping : List (Text × AttributeValue)) : JsonValue :=
  .arr (mapping.map (fun p => .obj [(codePoints "key", .str p.1),
    (codePoints "value", p.2.json)]))

structure TranscriptRecord where
  body : Text
  timeUnixNano : Int
  attributes : List (Text × AttributeValue)

def TranscriptRecord.json (record : TranscriptRecord) : JsonValue :=
  .obj [(codePoints "body", .obj [(codePoints "stringValue", .str record.body)]),
    (codePoints "timeUnixNano", .str (codePoints (toString record.timeUnixNano))),
    (codePoints "attributes", attrs record.attributes)]

/-- What `build_payload` builds: the resource of the user and the ordered records. -/
structure TranscriptPayload where
  userId : Option Text
  logRecords : List TranscriptRecord

def TranscriptPayload.resource (payload : TranscriptPayload) : JsonValue :=
  match payload.userId with
  | some userId => .obj [(codePoints "attributes", attrs [(codePoints "user.id", .string userId)])]
  | none => .obj []

/-- The nesting of records in a request. -/
def envelope (resource : JsonValue) (logRecords : List JsonValue) : JsonValue :=
  .obj [(codePoints "resourceLogs", .arr [.obj [(codePoints "resource", resource),
    (codePoints "scopeLogs", .arr [.obj [(codePoints "logRecords", .arr logRecords)]])]])]

section
variable [Destinations] (url : String) (resource : JsonValue)

def prefixText : List Char :=
  "\x7b\"resourceLogs\": [\x7b\"resource\": ".toList ++ dumps resource ++
    ", \"scopeLogs\": [\x7b\"logRecords\": [".toList

def suffixText : List Char := "]\x7d]\x7d]\x7d".toList

def envelopeBytes : Nat := (prefixText resource).length + suffixText.length

structure Packing where
  prepared : List (DeliveryRequest × Nat) := []
  chunk : List (List Char) := []
  chunkBytes : Nat
  oversized : Nat := 0

def finish (s : Packing) : Except DeliveryError Packing := do
  let request ← prepareRequest url (prefixText resource ++ spaced s.chunk ++ suffixText)
  pure { s with prepared := s.prepared ++ [(request, s.chunk.length)] }

/-- A full chunk is finished before the next record opens another. -/
def makeRoom (s : Packing) (size : Nat) : Except DeliveryError Packing :=
  if s.chunk ≠ [] ∧ maxEntryBytes < s.chunkBytes + 2 + size then do
    let s ← finish url resource s
    pure { s with chunk := [], chunkBytes := envelopeBytes resource }
  else pure s

def packRecord (s : Packing) (record : JsonValue) : Except DeliveryError Packing := do
  let encoded := dumps record
  if maxEntryBytes < envelopeBytes resource + encoded.length then
    pure { s with oversized := s.oversized + 1 }
  else
    let s ← makeRoom url resource s encoded.length
    pure { s with
      chunkBytes := s.chunkBytes + (encoded.length + if s.chunk = [] then 0 else 2)
      chunk := s.chunk ++ [encoded] }

/-- `_prepare_requests`: the requests with their record counts, and the oversized records. -/
def prepareRequests (logRecords : List JsonValue) :
    Except DeliveryError (List (DeliveryRequest × Nat) × Nat) := do
  let s ← logRecords.foldlM (packRecord url resource) { chunkBytes := envelopeBytes resource }
  let s ← if s.chunk = [] then pure s else finish url resource s
  pure (s.prepared, s.oversized)

end

/-- What one call of `deliver` does. -/
inductive Attempt where
  | returned (status : String)
  | osError
  | otherError

structure UnitTotals where
  requests : Nat := 0
  records : Nat := 0
  deriving DecidableEq

def UnitTotals.add (u : UnitTotals) (records : Nat) : UnitTotals :=
  ⟨u.requests + 1, u.records + records⟩

structure CandidateRecords where
  editObservations : Nat
  rejectedEdits : Nat
  retryLinkages : Nat

/-- The emission summary, without its delivery mode. -/
structure Summary where
  candidates : CandidateRecords
  prepared : UnitTotals
  queued : UnitTotals := {}
  acknowledged : UnitTotals := {}
  unsuccessfulRequests : Dict String Nat := Dict.empty
  unsuccessfulRecords : Dict String Nat := Dict.empty
  recordTooLarge : Nat
  unsubmitted : UnitTotals := {}

def knownStatuses : List String := ["queued", "acknowledged", "pending", "blocked", "declined"]

/-- The status that an attempt is counted under, and whether it ends the loop. -/
def attemptStatus : Attempt → String × Bool
  | .returned status => (if knownStatuses.contains status then status else "invalid_disposition",
      false)
  | .osError => ("io_error", true)
  | .otherError => ("publication_error", true)

def Summary.count (s : Summary) (status : String) (records : Nat) : Summary :=
  if status = "queued" then { s with queued := s.queued.add records }
  else if status = "acknowledged" then { s with acknowledged := s.acknowledged.add records }
  else { s with
    unsuccessfulRequests := s.unsuccessfulRequests.alter status (fun n => n.getD 0 + 1)
    unsuccessfulRecords := s.unsuccessfulRecords.alter status (fun n => n.getD 0 + records) }

def unitsOf (prepared : List (DeliveryRequest × Nat)) : UnitTotals :=
  ⟨prepared.length, (prepared.map Prod.snd).sum⟩

/-- Each prepared request is attempted once, until an attempt raises. -/
def publishLoop (deliver : Nat → DeliveryRequest → Attempt) (index : Nat) (s : Summary) :
    List (DeliveryRequest × Nat) → Summary
  | [] => s
  | (request, records) :: suffix =>
    let status := attemptStatus (deliver index request)
    let s := s.count status.1 records
    if status.2 then { s with unsubmitted := unitsOf suffix }
    else publishLoop deliver (index + 1) s suffix

def eventCount (payload : TranscriptPayload) (event : String) : Nat :=
  payload.logRecords.countP (fun record => record.body = codePoints event)

def candidateRecords (payload : TranscriptPayload) : CandidateRecords where
  editObservations := eventCount payload "sediment.edit_observation"
  rejectedEdits := eventCount payload "sediment.rejected_edit"
  retryLinkages := eventCount payload "sediment.retry_linkage"

def Summary.complete (s : Summary) : Bool :=
  s.recordTooLarge = 0 ∧ s.unsuccessfulRequests.keys = []

/-- `_publish`: the summary, and whether the publication was complete. -/
def publish [Destinations] (deliver : Nat → DeliveryRequest → Attempt) (url : String)
    (payload : TranscriptPayload) : Except DeliveryError (Summary × Bool) := do
  let (prepared, oversized) ← prepareRequests url payload.resource
    (payload.logRecords.map TranscriptRecord.json)
  let summary := publishLoop deliver 0
    { candidates := candidateRecords payload, prepared := unitsOf prepared,
      recordTooLarge := oversized } prepared
  pure (summary, summary.complete)

end Sediment.Cli.TranscriptRequests
