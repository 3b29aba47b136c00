import Sediment.Base.JsonSorted
import Sediment.Capture.Payload

namespace Sediment.Export
open Sediment.Base Base.JsonScan Sediment.Core Sediment.Core.Captured

inductive TrainerSkipReason where
  | nonFiniteNumber | unrepresentableUnicode | completionless | duplicateToolCallId
  | emptyMessage | nonStringToolResult | unrepresentablePartOrder | unresolvedToolCall
  | unsupportedCompletionRole | unsupportedMessageRole | unsupportedRolePart
  deriving DecidableEq, Repr

/-- What raises a `TrainerMappingError` raises its reason. -/
abbrev Mapped (α : Type) := Except TrainerSkipReason α

section
variable {φ : Type}

structure TrainerToolCall (φ : Type) where
  id : Text
  name : Text
  arguments : List (Text × Json Text φ)

/-- A prompt or completion message; an absent text or an empty list of calls is no key of it. -/
inductive TrainerMessage (φ : Type) where
  | text (role content : Text)
  | assistant (thinking content : Option Text) (toolCalls : List (TrainerToolCall φ))
  | tool (name toolCallId content : Text)

structure TrainerConversation (φ : Type) where
  prompt : List (TrainerMessage φ)
  completion : List (TrainerMessage φ)

def entry (key : String) (value : Json Text φ) : Text × Json Text φ := (codePoints key, value)

def TrainerToolCall.dump (call : TrainerToolCall φ) : Json Text φ :=
  .obj [entry "id" (.str call.id), entry "type" (.str (codePoints "function")),
    entry "function" (.obj [entry "name" (.str call.name), entry "arguments" (.obj call.arguments)])]

def TrainerMessage.dump : TrainerMessage φ → Json Text φ
  | .text role content => .obj [entry "role" (.str role), entry "content" (.str content)]
  | .assistant thinking content toolCalls =>
    .obj (entry "role" (.str (codePoints "assistant")) ::
      (thinking.map (fun t => entry "thinking" (.str t))).toList ++
      (content.map (fun t => entry "content" (.str t))).toList ++
      (if toolCalls = [] then [] else
        [entry "tool_calls" (.arr (toolCalls.map TrainerToolCall.dump))]))
  | .tool name toolCallId content =>
    .obj [entry "role" (.str (codePoints "tool")), entry "name" (.str name),
      entry "tool_call_id" (.str toolCallId), entry "content" (.str content)]

end

section
variable {φ : Type} [PyFloat φ]

def validateText (t : Text) : Mapped Unit :=
  if t.any isSurrogate then .error .unrepresentableUnicode else .ok ()

/-- Decline exceptional scalars, in the order of a walk over the value. -/
def validateTrainingRepresentation : Json Text φ → Mapped Unit
  | .float x => if PyFloat.isfinite x then .ok () else .error .nonFiniteNumber
  | .str t => validateText t
  | .arr items => validateItems items
  | .obj fields => validateFields fields
  | _ => .ok ()
where
  validateItems : List (Json Text φ) → Mapped Unit
    | [] => .ok ()
    | item :: rest => do
      validateTrainingRepresentation item
      validateItems rest
  validateFields : List (Text × Json Text φ) → Mapped Unit
    | [] => .ok ()
    | (key, value) :: rest => do
      validateText key
      validateTrainingRepresentation value
      validateFields rest

/-- Every integer of the value has a text. -/
def spellable : Json Text φ → Bool
  | .int n => n.natAbs < 10 ^ intMaxStrDigits
  | .arr items => spellableItems items
  | .obj fields => spellableFields fields
  | _ => true
where
  spellableItems : List (Json Text φ) → Bool
    | [] => true
    | item :: rest => spellable item && spellableItems rest
  spellableFields : List (Text × Json Text φ) → Bool
    | [] => true
    | (_, value) :: rest => spellable value && spellableFields rest

def floatText (x : φ) : Text := (PyFloat.repr x).map Char.toNat

/-- `json.dumps` with sorted keys and no blanks. -/
def strictJson (value : Json Text φ) : Text :=
  canonical (codePoints ",") (codePoints ":") floatText value

/-- Strings verbatim, structured results as strict JSON, which reads back as the same value. -/
def toolResultText (result : Json Text φ) : Mapped Text := do
  validateTrainingRepresentation result
  match result with
  | .str t => .ok t
  | value => if spellable value then .ok (strictJson value) else .error .nonStringToolResult

abbrev ToolNames := Dict Text Text

def flushText (text : List Text) : List (TrainerMessage φ) :=
  if text = [] then [] else [.text (codePoints "user") text.flatten]

/-- Responses to earlier calls, between texts of the user. -/
def mapResponses (names : ToolNames) (user : Bool) :
    List (MessagePart φ) → List Text → Mapped (List (TrainerMessage φ))
  | [], text => .ok (flushText text)
  | .text content :: rest, text =>
    if user then mapResponses names user rest (text ++ [content])
    else .error .unrepresentablePartOrder
  | .toolCallResponse id result :: rest, text => do
    match names.get? id with
    | none => .error .unresolvedToolCall
    | some name => do
      let content ← toolResultText result
      let mapped ← mapResponses names user rest []
      .ok (flushText text ++ .tool name id content :: mapped)
  | _ :: _, _ => .error .unrepresentablePartOrder

/-- What an assistant message has gathered: thinking, then text, then calls. -/
structure AssistantParts (φ : Type) where
  phase : Int := -1
  thinking : List Text := []
  text : List Text := []
  toolCalls : List (TrainerToolCall φ) := []
  names : ToolNames

def AssistantParts.enter (s : AssistantParts φ) (phase : Int) : Mapped (AssistantParts φ) :=
  if phase < s.phase then .error .unrepresentablePartOrder else .ok { s with phase }

def AssistantParts.add (s : AssistantParts φ) : MessagePart φ → Mapped (AssistantParts φ)
  | .reasoning content => { s with thinking := s.thinking ++ [content] }.enter 0
  | .text content => { s with text := s.text ++ [content] }.enter 1
  | .toolCall id name arguments =>
    if s.names.contains id then .error .duplicateToolCallId
    else
      let call : TrainerToolCall φ := ⟨id, name, arguments⟩
      { s with names := s.names.set id name, toolCalls := s.toolCalls ++ [call] }.enter 2
  | .toolCallResponse _ _ => .error .unsupportedRolePart

def joined (texts : List Text) : Option Text := if texts = [] then none else some texts.flatten

def AssistantParts.message (s : AssistantParts φ) : TrainerMessage φ :=
  .assistant (joined s.thinking) (joined s.text) s.toolCalls

def isResponse : MessagePart φ → Bool
  | .toolCallResponse _ _ => true
  | _ => false

/-- The text of a part that is text. -/
def textOfPart : MessagePart φ → Option Text
  | .text content => some content
  | _ => none

def mapMessage (completion : Bool) (names : ToolNames) (message : InferenceMessage φ) :
    Mapped (List (TrainerMessage φ) × ToolNames) :=
  let role (name : String) : Bool := message.role = codePoints name
  if message.parts.isEmpty then .error .emptyMessage
  else if completion && !role "assistant" then .error .unsupportedCompletionRole
  else if message.parts.any isResponse then
    if role "tool" || role "user" then do
      let mapped ← mapResponses names (role "user") message.parts []
      .ok (mapped, names)
    else .error .unsupportedRolePart
  else if !(role "developer" || role "system" || role "user" || role "assistant") then
    .error .unsupportedMessageRole
  else if !role "assistant" then
    match message.parts.mapM textOfPart with
    | none => .error .unsupportedRolePart
    | some texts => .ok ([.text message.role texts.flatten], names)
  else do
    let s ← message.parts.foldlM AssistantParts.add { names }
    .ok ([s.message], s.names)

def mapMessages (completion : Bool) :
    List (InferenceMessage φ) → ToolNames → Mapped (List (TrainerMessage φ) × ToolNames)
  | [], names => .ok ([], names)
  | message :: rest, names => do
    let (mapped, names) ← mapMessage completion names message
    let (others, names) ← mapMessages completion rest names
    .ok (mapped ++ others, names)

def validateMessages (messages : List (TrainerMessage φ)) : Mapped Unit :=
  validateTrainingRepresentation (.arr (messages.map TrainerMessage.dump))

/-- Map one canonical call without flattening or fabricating message content. -/
def mapInferenceCall (call : InferenceCall φ) : Mapped (TrainerConversation φ) := do
  let (prompt, names) ← mapMessages false call.inputMessages Dict.empty
  let (completion, _) ← mapMessages true call.outputMessages names
  if completion.isEmpty then .error .completionless
  else do
    validateMessages prompt
    validateMessages completion
    .ok ⟨prompt, completion⟩

end

end Sediment.Export
