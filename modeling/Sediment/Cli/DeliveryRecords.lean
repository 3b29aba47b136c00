import Mathlib.Data.Rat.Defs
import Mathlib.Algebra.Order.Ring.Rat
import Sediment.Cli.DeliveryEntry
import Sediment.Core.Captured

namespace Sediment.Cli.Delivery
open Sediment.Base Decimals JsonScan
open Sediment.Core TextMethods Urls

inductive Status where
  | queued | acknowledged | skipped | declined | pending | blocked
  deriving DecidableEq

def Status.all : List Status := [.queued, .acknowledged, .skipped, .declined, .pending, .blocked]

def Status.text : Status → String
  | .queued => "queued"
  | .acknowledged => "acknowledged"
  | .skipped => "skipped"
  | .declined => "declined"
  | .pending => "pending"
  | .blocked => "blocked"

/-- `_TERMINAL` -/
def Status.terminal : Status → Bool
  | .acknowledged | .skipped | .declined => true
  | .queued | .pending | .blocked => false

def Status.ofText (t : Text) : Option Status := Status.all.find? (fun s => codePoints s.text = t)

def Reason.all : List Reason :=
  [.buffered, .alreadyBuffered, .gatewayStored, .gatewayDuplicate, .otlpDelivered, .noSession,
    .invalidAcknowledgment, .transportFailure, .retryableHttp, .authenticationRejected,
    .clientRejected, .redirectRejected, .configurationMissing, .configurationInvalid,
    .destinationChanged, .credentialsMissing, .credentialsInvalid, .bufferFull, .entryTooLarge,
    .unsafeStorage, .storageUnavailable, .storageBusy, .workerBusy, .expired, .identityConflict,
    .invalidRecord, .invalidRequest, .bufferDisabled]

def Reason.text : Reason → String
  | .buffered => "buffered"
  | .alreadyBuffered => "already_buffered"
  | .gatewayStored => "gateway_stored"
  | .gatewayDuplicate => "gateway_duplicate"
  | .otlpDelivered => "otlp_delivered"
  | .noSession => "no_session"
  | .invalidAcknowledgment => "invalid_acknowledgment"
  | .transportFailure => "transport_failure"
  | .retryableHttp => "retryable_http"
  | .authenticationRejected => "authentication_rejected"
  | .clientRejected => "client_rejected"
  | .redirectRejected => "redirect_rejected"
  | .configurationMissing => "configuration_missing"
  | .configurationInvalid => "configuration_invalid"
  | .destinationChanged => "destination_changed"
  | .credentialsMissing => "credentials_missing"
  | .credentialsInvalid => "credentials_invalid"
  | .bufferFull => "buffer_full"
  | .entryTooLarge => "entry_too_large"
  | .unsafeStorage => "unsafe_storage"
  | .storageUnavailable => "storage_unavailable"
  | .storageBusy => "storage_busy"
  | .workerBusy => "worker_busy"
  | .expired => "expired"
  | .identityConflict => "identity_conflict"
  | .invalidRecord => "invalid_record"
  | .invalidRequest => "invalid_request"
  | .bufferDisabled => "buffer_disabled"

def Reason.ofText (t : Text) : Option Reason := Reason.all.find? (fun r => codePoints r.text = t)

structure Disposition where
  deliveryId : List Char
  status : Status
  reason : Reason
  factId : Option Text
  stored : Option Bool
  deriving DecidableEq

/-- A disposition without a fact. -/
def disposed (deliveryId : List Char) (status : Status) (reason : Reason) : Disposition :=
  ⟨deliveryId, status, reason, none, none⟩

/-- The clock: its order, the seconds from one time to another, and a time so many seconds later. -/
class Clock (τ : Type) extends ClockText τ, LinearOrder τ where
  zero : τ
  elapsed : τ → τ → ℚ
  later : τ → ℚ → τ

structure Receipt (τ : Type) where
  disposition : Disposition
  completedAt : τ
  deriving DecidableEq

def receiptName (deliveryId : List Char) : List Char := deliveryId ++ ".receipt".toList

def storedText : Option Bool → List Char
  | some true => "true".toList
  | some false => "false".toList
  | none => "null".toList

section
variable {τ : Type} [ClockText τ]

/-- `{**disposition.as_dict(), "completed_at": now}`, in the order of the keys. -/
def Receipt.fields (r : Receipt τ) : List (Text × List Char) :=
  [(codePoints "completed_at", ClockText.repr r.completedAt),
   (codePoints "delivery_id", quoteText (codes r.disposition.deliveryId))] ++
  r.disposition.factId.toList.map (fun factId => (codePoints "fact_id", quoteText factId)) ++
  [(codePoints "format_version", Nat.toDigits 10 formatVersion),
   (codePoints "reason", quoteText (codePoints r.disposition.reason.text)),
   (codePoints "status", quoteText (codePoints r.disposition.status.text))] ++
  r.disposition.factId.toList.map (fun _ =>
    (codePoints "stored", storedText r.disposition.stored))

def Receipt.encoded (r : Receipt τ) : Bytes := (flatText r.fields).flatMap String.utf8EncodeChar

structure AttemptState (τ : Type) where
  status : Status
  attempts : Nat
  nextAttempt : τ
  reason : Reason
  deriving DecidableEq

def AttemptState.fields (s : AttemptState τ) : List (Text × List Char) :=
  [(codePoints "attempts", Nat.toDigits 10 s.attempts),
   (codePoints "next_attempt", ClockText.repr s.nextAttempt),
   (codePoints "reason", quoteText (codePoints s.reason.text)),
   (codePoints "status", quoteText (codePoints s.status.text))]

def AttemptState.encoded (s : AttemptState τ) : Bytes :=
  (flatText s.fields).flatMap String.utf8EncodeChar

def receiptKeys : List Text :=
  ["completed_at", "delivery_id", "format_version", "reason", "status"].map codePoints

def factKeys : List Text := ["fact_id", "stored"].map codePoints

def boolField (fields : List (Text × JsonValue)) (key : String) : Option Bool :=
  match fields.lookup (codePoints key) with
  | some (.bool b) => some b
  | _ => none

/-- What a fact may be called. -/
def isFactId (t : Text) : Bool :=
  Captured.strip t == t && t ≠ [] && t.length ≤ 1024 && t.all (32 ≤ ·)

/-- The reasons of a receipt without a fact. -/
def plainReason (status : Status) (reason : Reason) : Bool :=
  match status with
  | .acknowledged => reason == .otlpDelivered
  | .skipped => reason == .noSession
  | .declined => reason == .bufferFull || reason == .expired || reason == .invalidRecord
  | .queued | .pending | .blocked => true

variable [JsonBytes]

/-- What `_read_receipt` asks of a file; `none` stands for an invalid record. -/
def receiptOf (table : DigitTable) (limit : Nat) (name : List Char) (data : Bytes) :
    Option (Receipt τ) := do
  guard (data.length ≤ maxHeaderBytes)
  let .obj fields ← decoded limit data | none
  let keys := (fields.map Prod.fst).toFinset
  guard (keys = receiptKeys.toFinset ∨ keys = (receiptKeys ++ factKeys).toFinset)
  guard (natField fields "format_version" = some formatVersion)
  let deliveryId ← charsField fields "delivery_id"
  guard ((uuid table deliveryId).toOption.map receiptName = some name)
  let completedAt ← (fields.lookup (codePoints "completed_at")).bind number
  let status ← (strField fields "status").bind Status.ofText
  guard status.terminal
  let reason ← (strField fields "reason").bind Reason.ofText
  if status = .acknowledged ∧ (reason = .gatewayStored ∨ reason = .gatewayDuplicate) then do
    let factId ← strField fields "fact_id"
    guard (isFactId factId)
    let stored ← boolField fields "stored"
    guard (stored = decide (reason = .gatewayStored))
    pure ⟨⟨deliveryId, status, reason, some factId, some stored⟩, completedAt⟩
  else do
    guard (keys = receiptKeys.toFinset)
    guard (plainReason status reason)
    pure ⟨disposed deliveryId status reason, completedAt⟩

def stateKeys : List Text := ["attempts", "next_attempt", "reason", "status"].map codePoints

/-- What `_state` asks of a file. -/
def stateOf (limit : Nat) (data : Bytes) : Option (AttemptState τ) := do
  guard (data.length ≤ maxHeaderBytes)
  let .obj fields ← decoded limit data | none
  guard ((fields.map Prod.fst).toFinset = stateKeys.toFinset)
  let status ← (strField fields "status").bind Status.ofText
  guard (status = .pending ∨ status = .blocked)
  let attempts ← natField fields "attempts"
  let nextAttempt ← (fields.lookup (codePoints "next_attempt")).bind number
  let reason ← (strField fields "reason").bind Reason.ofText
  pure { status, attempts, nextAttempt, reason }

/-- `MAX_RESPONSE_BYTES` -/
def maxResponseBytes : Nat := 65536

/-- What becomes of a request that is to be sent: it is held back before or in `send_once`, the
exchange fails, or an answer comes, with the body as far as it is read. -/
inductive Reply where
  | unconfigured (reason : Reason)
  | unsent (reason : Reason)
  | failed
  | answered (code : Nat) (body : Bytes)

/-- The fact that a gateway answers with. -/
def answeredFact (fields : List (Text × JsonValue)) : Option (Text × Bool) := do
  guard ((fields.map Prod.fst).toFinset = factKeys.toFinset)
  let factId ← strField fields "fact_id"
  guard (isFactId factId)
  let stored ← boolField fields "stored"
  pure (factId, stored)

def answeredSkip (fields : List (Text × JsonValue)) : Bool :=
  (fields.map Prod.fst).toFinset = (["skipped", "reason"].map codePoints).toFinset ∧
    boolField fields "skipped" = some true ∧
    strField fields "reason" = some (codePoints "no_session")

/-- What `_acknowledgment` makes of an object. -/
def answerOf (request : DeliveryRequest) (fields : List (Text × JsonValue)) : Disposition :=
  if request.channel = "otlp" then
    if fields = [] then disposed request.deliveryId .acknowledged .otlpDelivered
    else disposed request.deliveryId .pending .invalidAcknowledgment
  else
    match answeredFact fields with
    | some fact =>
      ⟨request.deliveryId, .acknowledged, if fact.2 then .gatewayStored else .gatewayDuplicate,
        some fact.1, some fact.2⟩
    | none =>
      if answeredSkip fields then disposed request.deliveryId .skipped .noSession
      else disposed request.deliveryId .pending .invalidAcknowledgment

/-- `_acknowledgment` -/
def acknowledgment (limit : Nat) (request : DeliveryRequest) (body : Bytes) : Disposition :=
  match decoded limit body with
  | some (.obj fields) => answerOf request fields
  | _ => disposed request.deliveryId .pending .invalidAcknowledgment

/-- What `_batch` makes of a request, with `send_once`. -/
def attempted (limit : Nat) (request : DeliveryRequest) : Reply → Disposition
  | .unconfigured reason | .unsent reason => disposed request.deliveryId .blocked reason
  | .failed => disposed request.deliveryId .pending .transportFailure
  | .answered code body =>
    if code = 408 ∨ code = 429 ∨ (500 ≤ code ∧ code ≤ 599) then
      disposed request.deliveryId .pending .retryableHttp
    else if code = 401 ∨ code = 403 then
      disposed request.deliveryId .blocked .authenticationRejected
    else if 300 ≤ code ∧ code ≤ 399 then disposed request.deliveryId .blocked .redirectRejected
    else if 400 ≤ code ∧ code ≤ 499 then disposed request.deliveryId .blocked .clientRejected
    else if code ≠ 200 then disposed request.deliveryId .pending .invalidAcknowledgment
    else if body.length ≤ maxResponseBytes then acknowledgment limit request body
    else disposed request.deliveryId .pending .invalidAcknowledgment

end

end Sediment.Cli.Delivery
