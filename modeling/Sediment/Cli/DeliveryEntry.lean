import Sediment.Base.JsonFlat
import Sediment.Cli.DeliveryRequest

namespace Sediment.Cli.Delivery
open Sediment.Base Decimals JsonScan
open Sediment.Core TextMethods Urls

/-- `FORMAT_VERSION` -/
def formatVersion : Nat := 1

/-- `_MAX_HEADER_BYTES` -/
def maxHeaderBytes : Nat := 16384

/-- The times of the clock: the text that `json.dumps` gives one, and the times that `_number`
accepts, from an integer or from the text of a float. -/
class ClockText (τ : Type) where
  repr : τ → List Char
  ofNat : Nat → Option τ
  ofFloat : List Char → Option τ

/-- `hashlib.sha256(body).hexdigest()` -/
class Sha256 where
  hexdigest : Bytes → List Char

/-- `json.loads` of bytes that are not all of ASCII, with every pair of an object and every constant;
a text may hold lone surrogates. -/
class JsonBytes where
  loads : Nat → Bytes → Option JsonValue

structure Header (τ : Type) where
  channel : String
  destination : List Char
  capturedAt : Text
  deliveryId : List Char
  enqueuedAt : τ
  bytes : Nat
  sha256 : Text
  deriving DecidableEq

/-- What a call of the queue raises: a `DeliveryError`, or a `FileNotFoundError`. -/
inductive Failure where
  | delivery (reason : Reason)
  | notFound
  deriving DecidableEq

def entryName (deliveryId : List Char) : List Char := deliveryId ++ ".entry".toList

def codes (s : List Char) : Text := s.map Char.toNat

section
variable {τ : Type} [ClockText τ]

/-- The fields of a header, each value as it is written, in the order of the keys. -/
def Header.fields (h : Header τ) : List (Text × List Char) :=
  [(codePoints "bytes", Nat.toDigits 10 h.bytes),
   (codePoints "captured_at", quoteText h.capturedAt),
   (codePoints "channel", quoteText (codePoints h.channel)),
   (codePoints "delivery_id", quoteText (codes h.deliveryId)),
   (codePoints "destination", quoteText (codes h.destination)),
   (codePoints "enqueued_at", ClockText.repr h.enqueuedAt),
   (codePoints "format_version", Nat.toDigits 10 formatVersion),
   (codePoints "sha256", quoteText h.sha256)]

/-- `_encoded(header)` -/
def Header.encoded (h : Header τ) : Bytes := (flatText h.fields).flatMap String.utf8EncodeChar

/-- What `enqueue` publishes. -/
def entryFile (h : Header τ) (body : Bytes) : Bytes := h.encoded ++ 10 :: body

/-- The header that `enqueue` writes for a request. -/
def headerFor [Sha256] (request : DeliveryRequest) (now : τ) : Header τ where
  channel := request.channel
  destination := request.destination
  capturedAt := request.capturedAt
  deliveryId := request.deliveryId
  enqueuedAt := now
  bytes := request.body.length
  sha256 := codes (Sha256.hexdigest request.body)

/-- `stream.readline(limit)` -/
def readLine (limit : Nat) (file : Bytes) : Bytes :=
  (file.takeWhile (· ≠ 10) ++ (file.dropWhile (· ≠ 10)).take 1).take limit

/-- `json.loads(data)` with both hooks; `none` stands for every error. -/
def decoded [JsonBytes] (limit : Nat) (data : Bytes) : Option JsonValue :=
  if data.all (fun b => 0 < b && b < 128) then
    strictLoads limit (data.map (fun b => Char.ofNat b.toNat))
  else (JsonBytes.loads limit data).filter hooked

/-- The characters of a text without surrogates. -/
def textChars (t : Text) : Option (List Char) :=
  if t.all (fun n => decide n.isValidChar) then some (t.map Char.ofNat) else none

/-- `_number`, with the time it accepts. -/
def number : JsonValue → Option τ
  | .int n => if 0 ≤ n then ClockText.ofNat n.toNat else none
  | .float text => ClockText.ofFloat text
  | _ => none

def charsField (fields : List (Text × JsonValue)) (key : String) : Option (List Char) :=
  (strField fields key).bind textChars

def natField (fields : List (Text × JsonValue)) (key : String) : Option Nat :=
  match fields.lookup (codePoints key) with
  | some (.int n) => if 0 ≤ n then some n.toNat else none
  | _ => none

def headerKeys : List Text :=
  ["bytes", "captured_at", "channel", "delivery_id", "destination", "enqueued_at",
    "format_version", "sha256"].map codePoints

def isLowerHex (n : Nat) : Bool := (48 ≤ n && n ≤ 57) || (97 ≤ n && n ≤ 102)

/-- `[0-9a-f]{64}` -/
def isDigest (t : Text) : Bool := t.length == 64 && t.all isLowerHex

section
variable [UnicodeText] [IpAddresses] [DatetimeReader] [JsonBytes]

/-- What `_header` asks of the line of a file; `none` stands for an invalid record. -/
def headerOf (table : DigitTable) (limit : Nat) (name : List Char) (size : Nat) (line : Bytes) :
    Option (Header τ) := do
  let .obj fields ← decoded limit line | none
  guard (line.getLast? = some 10 ∧ line.length ≤ maxHeaderBytes)
  guard ((fields.map Prod.fst).toFinset = headerKeys.toFinset)
  guard (natField fields "format_version" = some formatVersion)
  let deliveryId ← charsField fields "delivery_id"
  guard ((uuid table deliveryId).toOption.map entryName = some name)
  let channel ← charsField fields "channel"
  let dest ← charsField fields "destination"
  guard ((destination (String.ofList channel) dest).toOption = some dest)
  let capturedAt ← strField fields "captured_at"
  guard ((instant capturedAt).toOption ≠ none)
  let enqueuedAt ← (fields.lookup (codePoints "enqueued_at")).bind number
  let bytes ← natField fields "bytes"
  guard (bytes ≤ maxEntryBytes)
  guard (size = line.length + bytes)
  let sha256 ← strField fields "sha256"
  guard (isDigest sha256)
  pure { channel := String.ofList channel, destination := dest, capturedAt, deliveryId,
         enqueuedAt, bytes, sha256 }

/-- `_header` -/
def header (table : DigitTable) (limit : Nat) (files : List Char → Option Bytes)
    (name : List Char) : Except Failure (Header τ) :=
  match files name with
  | none => .error .notFound
  | some file =>
    match headerOf table limit name file.length (readLine (maxHeaderBytes + 1) file) with
    | none => .error (.delivery .invalidRecord)
    | some h => .ok h

/-- `_request` -/
def request [Sha256] (table : DigitTable) (files : List Char → Option Bytes) (h : Header τ) :
    Except Failure DeliveryRequest :=
  match files (entryName h.deliveryId) with
  | none => .error .notFound
  | some file =>
    if maxEntryBytes + maxHeaderBytes < file.length then .error (.delivery .invalidRecord)
    else
      let body := (file.dropWhile (· ≠ 10)).tail
      if body.length ≠ h.bytes ∨ codes (Sha256.hexdigest body) ≠ h.sha256 then
        .error (.delivery .invalidRecord)
      else
        (prepareRequest table h.channel h.destination body h.capturedAt h.deliveryId).mapError
          Failure.delivery

end
end

end Sediment.Cli.Delivery
