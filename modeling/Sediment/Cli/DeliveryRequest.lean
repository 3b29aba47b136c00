import Sediment.Base.JsonScan
import Sediment.Core.IsoFormat
import Sediment.Core.Urls

namespace Sediment.Cli.Delivery
open Sediment.Base Decimals JsonScan
open Sediment.Core TextMethods Urls

/-- `_REASONS` -/
inductive Reason where
  | buffered | alreadyBuffered | gatewayStored | gatewayDuplicate | otlpDelivered | noSession
  | invalidAcknowledgment | transportFailure | retryableHttp | authenticationRejected
  | clientRejected | redirectRejected | configurationMissing | configurationInvalid
  | destinationChanged | credentialsMissing | credentialsInvalid | bufferFull | entryTooLarge
  | unsafeStorage | storageUnavailable | storageBusy | workerBusy | expired | identityConflict
  | invalidRecord | invalidRequest | bufferDisabled
  deriving DecidableEq, Repr

/-- `MAX_ENTRY_BYTES` -/
def maxEntryBytes : Nat := 8 * 1024 * 1024

abbrev Bytes := List UInt8

/-- `text.replace(word, "")`, with the number of characters of a found word still to leave out. -/
def removeWord (word : List Char) : Nat → List Char → List Char
  | _, [] => []
  | k + 1, _ :: rest => removeWord word k rest
  | 0, c :: rest =>
    if word <+: c :: rest then removeWord word (word.length - 1) rest
    else c :: removeWord word 0 rest

def isBrace (c : Char) : Bool := c == '\x7b' || c == '\x7d'

/-- `text.strip("{}")` -/
def stripBraces (text : List Char) : List Char :=
  ((text.dropWhile isBrace).reverse.dropWhile isBrace).reverse

/-- The blanks that `int` allows around a number. -/
def isAsciiSpace (c : Char) : Bool := c == ' ' || (9 ≤ c.toNat && c.toNat ≤ 13)

/-- A digit or a blank of any script becomes the one of ASCII. -/
def toAscii (table : DigitTable) (c : Char) : Char :=
  if c.toNat < 127 then c
  else if isSpace c then ' '
  else
    match table.value c with
    | some d => Nat.digitChar d
    | none => '?'

def numberMark : List Char → Bool × List Char
  | '-' :: rest => (true, rest)
  | '+' :: rest => (false, rest)
  | s => (false, s)

def hexMark : List Char → List Char
  | '0' :: x :: '_' :: rest => if x = 'x' ∨ x = 'X' then rest else '0' :: x :: '_' :: rest
  | '0' :: x :: rest => if x = 'x' ∨ x = 'X' then rest else '0' :: x :: rest
  | s => s

def inHexNumber (c : Char) : Bool := (hexValue c).isSome || c == '_'

def hexNumber (digits : List Char) : Nat :=
  digits.foldl (fun n c => n * 16 + (hexValue c).getD 0) 0

/-- `int(text, 16)`; `none` stands for the `ValueError`. -/
def hexInt (table : DigitTable) (text : List Char) : Option Int :=
  let (negative, s) := numberMark ((text.map (toAscii table)).dropWhile isAsciiSpace)
  let s := hexMark s
  let runs := (s.takeWhile inHexNumber).splitOn '_'
  if runs.all (· ≠ []) && (s.dropWhile inHexNumber).all isAsciiSpace then
    some (if negative then -(hexNumber runs.flatten : Int) else hexNumber runs.flatten)
  else none

/-- `uuid.UUID(text).int` -/
def uuidInt (table : DigitTable) (text : List Char) : Option Nat :=
  let hex := removeWord "uuid:".toList 0 (removeWord "urn:".toList 0 text)
  let hex := (stripBraces hex).filter (· ≠ '-')
  if hex.length ≠ 32 then none
  else
    match hexInt table hex with
    | none => none
    | some n => if 0 ≤ n ∧ n < 2 ^ 128 then some n.toNat else none

/-- The last digits of a number in base 16, as many as asked for. -/
def hexText : Nat → Nat → List Char
  | 0, _ => []
  | k + 1, n => hexText k (n / 16) ++ [hexDigit (n % 16)]

/-- `str(uuid)` -/
def uuidText (n : Nat) : List Char :=
  hexText 8 (n / 16 ^ 24) ++ '-' :: hexText 4 (n / 16 ^ 20) ++ '-' :: hexText 4 (n / 16 ^ 16) ++
    '-' :: hexText 4 (n / 16 ^ 12) ++ '-' :: hexText 12 n

/-- `_uuid` -/
def uuid (table : DigitTable) (value : List Char) : Except Reason (List Char) :=
  match uuidInt table value with
  | none => .error .invalidRequest
  | some n => .ok (uuidText n)

/-- `_instant` -/
def instant [DatetimeReader] (value : Text) : Except Reason Text :=
  match DatetimeReader.fromisoformat value with
  | some (.aware d) =>
    match d.astimezone with
    | none => .error .invalidRequest
    | some d => .ok d.isoText
  | _ => .error .invalidRequest

def gatewayPath : List Char := "/ingest/gateway".toList

def logsPath : List Char := "/v1/logs".toList

def ingestPath (channel : String) : List Char :=
  if channel = "gateway" then gatewayPath else logsPath

/-- The longest destination that is read. -/
def maxDestination : Nat := 2048

def refused (c : Char) : Bool := c.toNat < 33 || c.toNat == 127

/-- `text.rstrip("/")` -/
def stripSlashes (text : List Char) : List Char := text.rdropWhile (· == '/')

def portText : Option Nat → List Char
  | none => []
  | some port => ':' :: Nat.toDigits 10 port

def authority (host : List Char) (port : Option Nat) : List Char :=
  (if ':' ∈ host then '[' :: host ++ [']'] else host) ++ portText port

/-- `urllib.parse.urlunsplit((scheme, authority, path, "", ""))` -/
def unsplit (scheme authority path : List Char) : List Char :=
  scheme ++ "://".toList ++ authority ++ path

section
variable [UnicodeText] [IpAddresses]
open IpAddresses

/-- A plain OTLP endpoint is on this machine. -/
def isLocal (host : List Char) : Bool :=
  host = "localhost".toList || (ipAddress host).any isLoopback

/-- `_destination` -/
def destination (channel : String) (value : List Char) : Except Reason (List Char) :=
  if channel ≠ "gateway" ∧ channel ≠ "otlp" then .error .invalidRequest
  else if maxDestination < value.length then .error .invalidRequest
  else
    let value := stripSlashes (stripBlanks value)
    if value = [] ∨ value.any refused then .error .invalidRequest
    else
      match urlsplit value with
      | none => .error .invalidRequest
      | some parsed =>
        match parsed.port, parsed.hostname with
        | some port, some host =>
          if (parsed.scheme ≠ "http".toList ∧ parsed.scheme ≠ "https".toList) ∨ host = [] ∨
              parsed.hasUsername ∨ parsed.hasPassword ∨ '?' ∈ value ∨ '#' ∈ value ∨
              parsed.netloc.getLast? = some ':' ∨ '\\' ∈ value ∨ port = some 0 ∨
              (parsed.path ≠ [] ∧ parsed.path ≠ ['/'] ∧ parsed.path ≠ ingestPath channel) ∨
              (channel = "otlp" ∧ parsed.scheme = "http".toList ∧ ¬isLocal host) ∨
              ¬host.all (fun c => c.toNat < 128) then .error .invalidRequest
          else .ok (unsplit parsed.scheme (authority host port) (ingestPath channel))
        | _, _ => .error .invalidRequest

end

structure DeliveryRequest where
  channel : String
  destination : List Char
  body : Bytes
  capturedAt : Text
  deliveryId : List Char
  deriving DecidableEq

section
variable [UnicodeText] [IpAddresses] [DatetimeReader]

/-- `prepare_request`, with the identity and the instant its caller gives or makes. -/
def prepareRequest (table : DigitTable) (channel : String) (dest : List Char) (body : Bytes)
    (capturedAt : Text) (deliveryId : List Char) : Except Reason DeliveryRequest :=
  if maxEntryBytes < body.length then .error .entryTooLarge
  else do
    let dest ← destination channel dest
    let capturedAt ← instant capturedAt
    let deliveryId ← uuid table deliveryId
    pure { channel, destination := dest, body, capturedAt, deliveryId }

/-- `_validated` -/
def validated (table : DigitTable) (request : DeliveryRequest) : Except Reason DeliveryRequest :=
  prepareRequest table request.channel request.destination request.body request.capturedAt
    request.deliveryId

end

end Sediment.Cli.Delivery
