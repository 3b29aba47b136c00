import Sediment.Capture.Payload

namespace Sediment.Capture.Gateway
open Sediment.Base Base.JsonScan Sediment.Core Sediment.Core.Captured

/-- What `normalize` may raise; `validationError` is the one that the ingest route answers. -/
inductive NormalizeError where
  | validationError | valueError | overflowError | recursionError
  deriving DecidableEq, Repr

abbrev Normalize (α : Type) := Except NormalizeError α

def orValidationError {α : Type} : Option α → Normalize α
  | some a => .ok a
  | none => .error .validationError

section
variable {φ : Type}

/-- A tool-call id that can join something: a non-blank string. -/
def usableId : Payload φ → Option Text
  | .str s => if Captured.strip s = [] then none else some s
  | _ => none

def optionalText : Payload φ → Option Text
  | .str s => if Captured.strip s = [] then none else some (Captured.strip s)
  | _ => none

end

section
variable {φ : Type} [PyFloat φ]

/-- An `int` or a `float`, which a `bool` does not count as. -/
inductive Number (φ : Type) where
  | int (n : Int)
  | float (x : φ)

def asNumber : Payload φ → Option (Number φ)
  | .int n => some (.int n)
  | .float x => some (.float x)
  | _ => none

def Number.intInBounds : Number φ → Option Int
  | .int n => boundedCount n
  | .float x => if PyFloat.isfinite x then boundedCount (PyFloat.trunc x) else none

def intInBounds (value : Payload φ) : Option Int := (asNumber value).bind Number.intInBounds

def firstInt (values : List (Payload φ)) : Option Int := values.findSome? intInBounds

def asFloat : Number φ → Normalize φ
  | .float x => .ok x
  | .int n =>
    match PyFloat.ofInt n with
    | some x => .ok x
    | none => .error .overflowError

/-- Arithmetic is exact on two integers, and on floats as soon as one operand is a float. -/
def arithmetic (ints : Int → Int → Int) (floats : φ → φ → φ) :
    Number φ → Number φ → Normalize (Number φ)
  | .int m, .int n => .ok (.int (ints m n))
  | a, b => do
    let x ← asFloat a
    let y ← asFloat b
    .ok (.float (floats x y))

def Number.sub : Number φ → Number φ → Normalize (Number φ) := arithmetic (· - ·) PyFloat.sub

def Number.mul : Number φ → Number φ → Normalize (Number φ) := arithmetic (· * ·) PyFloat.mul

def secondsMs (seconds : Payload φ) : Normalize (Option Int) :=
  match asNumber seconds with
  | some seconds => do
    let ms ← seconds.mul (.int 1000)
    .ok ms.intInBounds
  | none => .ok none

def intervalMs (start stop : Payload φ) : Normalize (Option Int) :=
  match asNumber start, asNumber stop with
  | some start, some stop => do
    let seconds ← stop.sub start
    let ms ← seconds.mul (.int 1000)
    .ok ms.intInBounds
  | _, _ => .ok none

/-- Latency in ms, across the shapes LiteLLM emits. -/
def latencyMs (payload : Fields φ) : Normalize (Option Int) :=
  match intInBounds (field payload "response_time_ms") with
  | some ms => .ok (some ms)
  | none => do
    match ← secondsMs (field payload "response_time") with
    | some ms => .ok (some ms)
    | none => intervalMs (field payload "startTime") (field payload "endTime")

end

section
variable {φ : Type}

def reasoningPart (content : Payload φ) : Option (MessagePart φ) :=
  match content with
  | .str s => if Captured.strip s = [] then none else some (.reasoning s)
  | _ => none

def isReasoning : MessagePart φ → Bool
  | .reasoning _ => true
  | _ => false

/-- `[part for item in items if (part := f(item)) is not None]`. -/
def collect {α β : Type} (f : α → Normalize (Option β)) : List α → Normalize (List β)
  | [] => .ok []
  | item :: rest => do
    let part ← f item
    let parts ← collect f rest
    .ok (part.toList ++ parts)

/-- The blocks of the message itself, or else of its provider's fields. -/
def thinkingBlocks (item : Fields φ) : List (Payload φ) :=
  match field item "thinking_blocks" with
  | .arr blocks => blocks
  | _ => asList (field (asDict (field item "provider_specific_fields")) "thinking_blocks")

def firstChoice (payload : Fields φ) : Fields φ :=
  match asList (field (asDict (field payload "response")) "choices") with
  | [] => []
  | choice :: _ => asDict choice

def usageOf (payload : Fields φ) : Fields φ :=
  match asDict (field payload "usage") with
  | [] => asDict (field (asDict (field payload "response")) "usage")
  | usage => usage

def modelCallIdOf (payload : Fields φ) : Option Text :=
  (usableId (field payload "litellm_call_id")).or
    (usableId (field (asDict (field payload "response")) "id"))

/-- `_text`: a string passes through, another shape degrades to its JSON form. -/
def textOf [PyFloat φ] : Payload φ → Text
  | .str s => s
  | .null => []
  | v => (dumps (v.map id PyFloat.repr)).map Char.toNat

variable [JsonDecoder φ]

/-- `json.loads`, whose `ValueError` the caller handles. -/
def loaded (s : Text) : Normalize (Option (Payload φ)) :=
  match JsonDecoder.loads s with
  | .ok v => .ok (some v)
  | .error .valueError => .ok none
  | .error .recursionError => .error .recursionError

/-- The parsed argument object, or `none` when malformed. -/
def toolCallInput (arguments : Payload φ) : Normalize (Option (List (Text × Json Text φ))) := do
  let parsed ← match arguments with
    | .str s => loaded s
    | v => .ok (some v)
  .ok (parsed.bind asObject)

def decodedJson (value : Payload φ) : Normalize (Json Text φ) :=
  match value with
  | .str s => do
    let parsed ← loaded s
    .ok (parsed.getD (.str s))
  | v => .ok v

def responsePart (callId : Text) (result : Payload φ) : Normalize (Option (MessagePart φ)) := do
  let result ← decodedJson result
  let id ← orValidationError (nonEmptyId callId)
  .ok (some (.toolCallResponse id result))

variable [PyFloat φ]

def toolPart (callId name arguments : Payload φ) : Normalize (Option (MessagePart φ)) :=
  match usableId callId with
  | none => .ok none
  | some callId => do
    let parsed ← toolCallInput arguments
    let id ← orValidationError (nonEmptyId callId)
    .ok (some (.toolCall id (textOf name) (parsed.getD [])))

def messagePart (block : Payload φ) : Normalize (Option (MessagePart φ)) :=
  match block with
  | .str s => .ok (some (.text s))
  | .obj block =>
    match asText (field block "type") with
    | none => .ok none
    | some type =>
      if oneOfTexts type ["thinking", "reasoning"] then
        .ok (reasoningPart (fieldOr block "thinking" (fieldOr block "text" (field block "content"))))
      else if type = codePoints "redacted_thinking" then .ok none
      else if oneOfTexts type ["text", "input_text", "output_text"] then
        match asText (fieldOr block "text" (field block "content")) with
        | some text => .ok (some (.text text))
        | none => .ok none
      else if oneOfTexts type ["tool_use", "tool_call"] then
        toolPart (field block "id") (field block "name")
          (fieldOr block "input" (field block "arguments"))
      else if oneOfTexts type ["tool_result", "tool_call_response"] then
        match usableId (fieldOr block "tool_use_id" (field block "id")) with
        | none => .ok none
        | some callId => responsePart callId (fieldOr block "result" (field block "content"))
      else .ok none
  | _ => .ok none

def thinkingPart (block : Payload φ) : Normalize (Option (MessagePart φ)) :=
  match block with
  | .obj fields =>
    match asText (field fields "type") with
    | none => .ok none
    | some type =>
      if oneOfTexts type ["thinking", "reasoning", "redacted_thinking"] then do
        let part ← messagePart block
        .ok (part.filter isReasoning)
      else .ok none
  | _ => .ok none

def messageReasoningParts (item : Fields φ) : Normalize (List (MessagePart φ)) := do
  let parts ← collect (thinkingPart) (thinkingBlocks item)
  if parts ≠ [] then .ok parts
  else
    match field item "reasoning_content" with
    | .null => .ok []
    | content => .ok (reasoningPart content).toList

def callPart (call : Payload φ) : Normalize (Option (MessagePart φ)) :=
  match call with
  | .obj call =>
    match field call "type" with
    | .null => functionPart call
    | .str type => if type = codePoints "function" then functionPart call else .ok none
    | _ => .ok none
  | _ => .ok none
where
  functionPart (call : Fields φ) : Normalize (Option (MessagePart φ)) :=
    let function := asDict (field call "function")
    toolPart (field call "id") (field function "name") (field function "arguments")

/-- Only an assistant's reasoning stands beside its content. -/
def siblingParts (role : Text) (item : Fields φ) : Normalize (List (MessagePart φ)) :=
  if role = codePoints "assistant" then messageReasoningParts item else .ok []

def messageParts (role : Text) (item : Fields φ) : Normalize (List (MessagePart φ)) := do
  let blocks := match field item "content" with
    | .arr blocks => blocks
    | content => [content]
  let contentParts ← collect (messagePart) blocks
  let siblingReasoning ← siblingParts role item
  let reasoning := if contentParts.any isReasoning then [] else siblingReasoning
  let calls ← collect (callPart) (asList (field item "tool_calls"))
  .ok (reasoning ++ contentParts ++ calls)

def inferenceMessage (finishReason : Payload φ) (item : Fields φ) :
    Normalize (Option (InferenceMessage φ)) :=
  match field item "type" with
  | .null => plain
  | .str type =>
    if type = codePoints "message" then plain
    else if type = codePoints "function_call" then do
      let callId := match usableId (field item "call_id") with
        | some _ => field item "call_id"
        | none => field item "id"
      let part ← toolPart callId (field item "name") (field item "arguments")
      .ok (part.map (fun part => ⟨codePoints "assistant", [part], none⟩))
    else if type = codePoints "function_call_output" then
      match usableId (field item "call_id") with
      | none => .ok none
      | some callId => do
        let part ← responsePart callId (field item "output")
        .ok (part.map (fun part => ⟨codePoints "tool", [part], none⟩))
    else .ok none
  | _ => .ok none
where
  plain : Normalize (Option (InferenceMessage φ)) :=
    match optionalText (field item "role") with
    | none => .ok none
    | some role => do
      let parts ←
        match (if role = codePoints "tool" then usableId (field item "tool_call_id") else none) with
        | some callId => do
          let part ← responsePart callId (field item "content")
          .ok part.toList
        | none => messageParts role item
      .ok (some ⟨role, parts, optionalText finishReason⟩)

def messageOf (finishReason item : Payload φ) : Normalize (Option (InferenceMessage φ)) :=
  match item with
  | .obj item => inferenceMessage finishReason item
  | _ => .ok none

def messages (finishReason : Payload φ) (items : List (Payload φ)) :
    Normalize (List (InferenceMessage φ)) :=
  collect (messageOf finishReason) items

def outputMessages (payload : Fields φ) : Normalize (List (InferenceMessage φ)) :=
  let response := asDict (field payload "response")
  let choice := firstChoice payload
  match asDict (field choice "message") with
  | entry :: fields => messages (field choice "finish_reason") [.obj (entry :: fields)]
  | [] =>
    match asText (field choice "text") with
    | some text => .ok [⟨codePoints "assistant", [.text text],
        optionalText (field choice "finish_reason")⟩]
    | none =>
      match asList (field response "output") with
      | item :: items => messages .null (item :: items)
      | [] =>
        match field payload "response" with
        | .str text =>
          if text = [] then .ok [] else .ok [⟨codePoints "assistant", [.text text], none⟩]
        | _ => .ok []

/-- Who the call belongs to, as the ingest route binds it. -/
structure CallIdentity where
  sessionId : Text
  userId : Option Text
  orgId : String

/-- An identity that the callback has prepared: a canonical UUID and the observation instant. -/
structure GatewayCapture where
  id : String
  observedAt : Datetime

/-- `uuid5` under the namespace of prepared captures. -/
class CaptureNamespace where
  uuid5 : List Char → Text

/-- The id and the instant that an `InferenceCall` has by default. -/
structure Defaults where
  uuid : Text
  now : Datetime

variable [Interpreter] [CaptureNamespace]

/-- A prepared identity, or the defaults; here an invalid org raises a plain `ValueError`. -/
def captureFields (defaults : Defaults) (orgId : String) :
    Option GatewayCapture → Normalize (Text × Datetime)
  | none => .ok (defaults.uuid, defaults.now)
  | some capture =>
    match normalizeOrgId orgId with
    | none => .error .valueError
    | some orgId =>
      .ok (CaptureNamespace.uuid5 ((Json.arr [.str orgId, .str capture.id]).write compactWriter),
        capture.observedAt)

/-- The arguments of `InferenceCall(...)`, its messages and its latency having been read. -/
def callOf (identity : CallIdentity) (orgId : String)
    (captured : Text × Datetime) (payload : Fields φ)
    (inputMessages outputMessages : List (InferenceMessage φ)) (durationMs : Option Int) :
    InferenceCall φ where
  inferenceCallId := captured.1
  orgId := codePoints orgId
  sessionId := identity.sessionId
  userId := identity.userId
  gatewayProvider := .litellm
  modelProvider := optionalText (field payload "custom_llm_provider")
  model := (optionalText (field payload "model")).or
    (optionalText (field (asDict (field payload "response")) "model"))
  inputMessages := inputMessages
  outputMessages := outputMessages
  inputTokens := firstInt [field (usageOf payload) "prompt_tokens", field payload "prompt_tokens"]
  outputTokens :=
    firstInt [field (usageOf payload) "completion_tokens", field payload "completion_tokens"]
  durationMs := durationMs
  modelCallId := modelCallIdOf payload
  observedAt := captured.2
  raw := payload

/-- `LiteLLMAdapter.normalize`. -/
def normalize (defaults : Defaults) (identity : CallIdentity) (capture : Option GatewayCapture)
    (payload : Fields φ) : Normalize (InferenceCall φ) := do
  let captured ← captureFields defaults identity.orgId capture
  let inputMessages ← messages .null (asList (field payload "messages"))
  let outputs ← outputMessages payload
  let durationMs ← latencyMs payload
  let orgId ← orValidationError (normalizeOrgId identity.orgId)
  orValidationError
    (callOf identity orgId captured payload inputMessages outputs durationMs).validate

end

end Sediment.Capture.Gateway
