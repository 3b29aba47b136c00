import Sediment.Base.Shapes
import Sediment.Capture.Payload

namespace Sediment.Capture.Identity
open Sediment.Base Base.JsonScan Base.Shapes Sediment.Core

/-- The session sources, in resolution order. -/
inductive Source where
  | metadata | identityJson | identitySuffix | codexHeader | sedimentHeader
  deriving DecidableEq, Repr

/-- Resolved identity for one gateway inference call. -/
structure SessionIdentity where
  sessionId : Text
  userId : Option Text
  source : Source
  deriving DecidableEq, Repr

def isHex (c : Nat) : Bool := (48 ≤ c && c ≤ 57) || (65 ≤ c && c ≤ 70) || (97 ≤ c && c ≤ 102)

def isDash (c : Nat) : Bool := c == 45

def hexRun (n : Nat) : List (Nat → Bool) := List.replicate n isHex

def uuidShape : List (Nat → Bool) :=
  hexRun 8 ++ isDash :: hexRun 4 ++ isDash :: hexRun 4 ++ isDash :: hexRun 4 ++ isDash :: hexRun 12

def isUuid (t : Text) : Bool := fits uuidShape t

/-- A pattern's `$` stands at the end of the text or before the line feed that ends it. -/
def beforeEnd (t : Text) : Text × Text :=
  if t.getLast? = some 10 then (t.dropLast, [10]) else (t, [])

/-- `_UUID.match`. -/
def uuidMatch (t : Text) : Bool := isUuid (beforeEnd t).1

/-- `_SESSION_SUFFIX.search`: the text before the match, and the session that it captures. -/
def sessionSuffix (t : Text) : Option (Text × Text) :=
  let body := (beforeEnd t).1
  let session := body.drop (body.length - 36)
  let front := body.take (body.length - 36)
  let stem := front.take (front.length - 8)
  if isUuid session ∧ front.drop (front.length - 8) = codePoints "session_" ∧
      (stem = [] ∨ stem.getLast? = some 95) then
    some (stem.dropLast, session)
  else none

/-- `_SESSION_SUFFIX.sub("", t)`. -/
def withoutSuffix (t : Text) : Text :=
  match sessionSuffix t with
  | some (stem, _) => stem ++ (beforeEnd t).2
  | none => t

section
variable {φ : Type}

/-- Identity carriers contain strings; malformed shapes supply no evidence. -/
def identityText : Payload φ → Text
  | .str s => Captured.strip s
  | _ => []

/-- The trailing session of the first candidate carrying one. -/
def sessionFromIdentity (candidates : List Text) : Text :=
  (candidates.findSome? (fun candidate =>
    (sessionSuffix (Captured.strip candidate)).map Prod.snd)).getD []

/-- The UUID `session_id` of a decoded object. -/
def sessionOf (d : Fields φ) : Text :=
  if uuidMatch (identityText (field d "session_id")) then identityText (field d "session_id")
  else []

def customHeaders (metas : List (Payload φ)) : List (Fields φ) :=
  metas.filterMap (fun metadata =>
    (asObject metadata).bind (fun d => asObject (field d "requester_custom_headers")))

/-- The first non-empty value of a header. -/
def sedimentHeader (metas : List (Payload φ)) (name : String) : Text :=
  ((customHeaders metas).findSome? (fun headers =>
    let value := identityText (field headers name)
    if value ≠ [] then some value else none)).getD []

def sessionFromSedimentHeaders (metas : List (Payload φ)) : Text :=
  let session := sedimentHeader metas "x-sediment-session"
  if uuidMatch session then session else []

def agentFromSedimentHeaders (metas : List (Payload φ)) : Text :=
  let agent := sedimentHeader metas "x-sediment-agent"
  if agent ≠ [] then codePoints "agent:" ++ agent else []

/-- Pull an identity field from request metadata, tolerant of nesting. -/
def metaValue (metadata : Payload φ) (key : String) (default : Text) : Text :=
  match metadata with
  | .obj d =>
    let value := identityText (field d key)
    if value ≠ [] then value
    else
      match field d "requester_metadata" with
      | .obj requester =>
        let value := identityText (field requester key)
        if value ≠ [] then value else default
      | _ => default
  | _ => default

def identityLabelFields : List (String × String) :=
  [("device_id", "device_"), ("account_uuid", "account_")]

def identityLabelLen : Nat := 12

/-- The label of a decoded identity; `session_id` is deliberately not one of its fields. -/
def labelOf (parsed : Fields φ) : Text :=
  (identityLabelFields.findSome? (fun (name, kind) =>
    let value := identityText (field parsed name)
    if value ≠ [] then some (codePoints kind ++ value.take identityLabelLen) else none)).getD []

section
variable [JsonDecoder φ]

/-- The object that a text decodes to; another value, or none, contributes nothing. -/
def loadedObject (t : Text) : Loads (Option (Fields φ)) :=
  match JsonDecoder.loads t with
  | .ok v => .ok (asObject v)
  | .error .valueError => .ok none
  | .error .recursionError => .error .recursionError

/-- The first session that the carriers decode to. -/
def firstSession {α : Type} (load : α → Loads (Option (Fields φ))) : List α → Loads Text
  | [] => .ok []
  | carrier :: rest => do
    let identity ← load carrier
    let session := (identity.map sessionOf).getD []
    if session ≠ [] then .ok session else firstSession load rest

variable (φ) in
def sessionFromIdentityJson (candidates : List Text) : Loads Text :=
  firstSession (φ := φ) loadedObject candidates

/-- The decoded turn metadata of a request; a header that is no string decodes to nothing. -/
def turnMeta (headers : Fields φ) : Loads (Option (Fields φ)) :=
  match field headers "x-codex-turn-metadata" with
  | .str s => loadedObject s
  | _ => .ok none

def sessionFromCodexHeaders (metas : List (Payload φ)) : Loads Text :=
  firstSession turnMeta (customHeaders metas)

variable (φ) in
/-- A short label for an identity that is really a JSON object; another text is left alone. -/
def identityLabel (identity : Text) : Loads Text := do
  let parsed ← loadedObject (φ := φ) identity
  .ok ((parsed.map labelOf).getD identity)

def resolveSession (metadata : Payload φ) (endUser : Text) : Loads (Option (Text × Source)) := do
  let session := metaValue metadata "session_id" []
  if session ≠ [] then .ok (some (session, .metadata)) else
  let identities := [endUser, metaValue metadata "user_id" []]
  let session ← sessionFromIdentityJson φ identities
  if session ≠ [] then .ok (some (session, .identityJson)) else
  let session := sessionFromIdentity identities
  if session ≠ [] then .ok (some (session, .identitySuffix)) else
  let session ← sessionFromCodexHeaders [metadata]
  if session ≠ [] then .ok (some (session, .codexHeader)) else
  let session := sessionFromSedimentHeaders [metadata]
  if session ≠ [] then .ok (some (session, .sedimentHeader)) else .ok none

def firstNonEmpty (texts : List Text) : Text := (texts.find? (fun t => t ≠ [])).getD []

def resolveUser (metadata : Payload φ) (endUser : Text) : Loads (Option Text) := do
  let identity := firstNonEmpty
    [metaValue metadata "user_id" [], endUser, agentFromSedimentHeaders [metadata]]
  let label ← identityLabel φ identity
  let userId := Captured.strip (withoutSuffix label)
  .ok (if userId ≠ [] then some userId else none)

/-- Session and user identity of a forwarded payload; `none` when no source yields a session. -/
def resolveIdentity (payload : Payload φ) : Loads (Option SessionIdentity) :=
  match payload with
  | .obj payload => do
    let metadata := field payload "metadata"
    let endUser := identityText (field payload "end_user")
    match ← resolveSession metadata endUser with
    | none => .ok none
    | some (sessionId, source) => do
      let userId ← resolveUser metadata endUser
      .ok (some ⟨sessionId, userId, source⟩)
  | _ => .ok none

end

end

end Sediment.Capture.Identity
