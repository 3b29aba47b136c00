import Sediment.Derive.Attachment

namespace Sediment.Derive
open Sediment.Base Sediment.Core

/-- The strings of a value, the fields of an object in key order. -/
def stringLeaves : Value → List String
  | .str text => [text]
  | .arr items => itemLeaves items
  | .obj fields => ((sortedBy Prod.fst (fieldLeaves fields)).map Prod.snd).flatten
  | _ => []
where
  itemLeaves : List Value → List String
    | [] => []
    | item :: rest => stringLeaves item ++ itemLeaves rest
  fieldLeaves : List (String × Value) → List (String × List String)
    | [] => []
    | (key, value) :: rest => (key, stringLeaves value) :: fieldLeaves rest

def scoringText : MessagePart → List String
  | .text content => [content]
  | .reasoning _ => []
  | .toolCall _ _ arguments => stringLeaves (.obj arguments)
  | .toolCallResponse _ _ => []

/-- Model-produced text for similarity scoring: no reasoning, no tool results. -/
def renderScoringText (call : InferenceCall) : String :=
  "\n".intercalate ((call.outputMessages.flatMap (fun message =>
    message.parts.flatMap scoringText)).filter (· ≠ ""))

/-- The exact number that a finite float denotes. -/
class FloatValue where
  exact : JsonFloat → ℚ

/-- A number as Python compares it: an int equals a float of the same value,
and the non-finite floats form categories. -/
inductive SemanticNumber where
  | finite (q : ℚ)
  | nonFinite (category : String)
  deriving DecidableEq

abbrev SemanticValue := Json String SemanticNumber

section
variable [FloatValue]

/-- `_semantic_value`. Fields are put in key order, which makes the equality of
dictionaries that of the values. -/
def semanticValue : Value → SemanticValue
  | .null => .null
  | .bool b => .bool b
  | .int n => .float (.finite n)
  | .float x => .float (if x.finite then .finite (FloatValue.exact x) else .nonFinite x.repr)
  | .str s => .str s
  | .arr items => .arr (semanticItems items)
  | .obj fields => .obj (sortedBy Prod.fst (semanticFields fields))
where
  semanticItems : List Value → List SemanticValue
    | [] => []
    | item :: rest => semanticValue item :: semanticItems rest
  semanticFields : List (String × Value) → List (String × SemanticValue)
    | [] => []
    | (key, value) :: rest => (key, semanticValue value) :: semanticFields rest

/-- Roles and ordered semantic parts, without `finish_reason`. -/
def canonicalHistory (messages : List InferenceMessage) : List (String × List SemanticValue) :=
  messages.map (fun message =>
    (message.role, message.parts.map (fun part => semanticValue part.payload)))

inductive RolloutFragmentReason where
  | priorOutputAbsent | inputHistoryChanged | priorOutputNotReplayed
  deriving DecidableEq, Repr

def rolloutFragmentReasons : List RolloutFragmentReason :=
  [.priorOutputAbsent, .inputHistoryChanged, .priorOutputNotReplayed]

/-- Whether a part of a response is something that a later prompt can replay. -/
def partPresent : MessagePart → Bool
  | .text content => content ≠ ""
  | .reasoning content => content ≠ ""
  | _ => true

def outputPresent (call : InferenceCall) : Bool :=
  call.outputMessages.any (fun message => message.parts.any partPresent)

/-- Classify one unproven adjacent pair in the closed precedence order. -/
def fragmentReason (previous current : InferenceCall) : Option RolloutFragmentReason :=
  if ¬ outputPresent previous then some .priorOutputAbsent
  else
    let before := canonicalHistory previous.inputMessages
    let after := canonicalHistory current.inputMessages
    if after.take before.length ≠ before then some .inputHistoryChanged
    else
      let expected := before ++ canonicalHistory previous.outputMessages
      if after.take expected.length ≠ expected then some .priorOutputNotReplayed else none

/-- One agent turn: the messages this call added, its output, and the human
decisions bound to it. -/
structure Turn where
  newMessages : List InferenceMessage
  completion : String
  decisions : List DeveloperDecision
  inferenceCallId : String
  toolCalls : List ToolCallPart

/-- The loop over the ordered calls, with the segment of every entry. -/
structure Projection where
  entries : List (InferenceCall × List InferenceMessage × Nat) := []
  segment : Nat := 0
  prev : Option InferenceCall := none
  fragmented : RolloutFragmentReason → Nat := fun _ => 0

def projectCall (st : Projection) (c : InferenceCall) : Projection :=
  match st.prev with
  | none => { st with entries := st.entries ++ [(c, c.inputMessages, st.segment)], prev := some c }
  | some previous =>
    match fragmentReason previous c with
    | some reason =>
      { entries := st.entries ++ [(c, c.inputMessages, st.segment + 1)]
        segment := st.segment + 1
        prev := some c
        fragmented := bump st.fragmented reason 1 }
    | none =>
      { st with
        entries := st.entries ++
          [(c, c.inputMessages.drop previous.inputMessages.length, st.segment)]
        prev := some c }

def callOrder (call : InferenceCall) : Int ×ₗ String :=
  toLex (call.observedAt.utc, call.inferenceCallId)

def turnOf (decisionsFor : Dict String (List DeveloperDecision)) (c : InferenceCall)
    (newMessages : List InferenceMessage) : Turn where
  newMessages
  completion := renderScoringText c
  decisions := (decisionsFor.get? c.inferenceCallId).getD []
  inferenceCallId := c.inferenceCallId
  toolCalls := c.toolCalls

structure SessionTurns where
  segments : List (List Turn)
  skipped : DecisionAttachmentSkipReason → Nat
  fragmented : RolloutFragmentReason → Nat

/-- Continue only when typed prior input and output are replayed exactly. -/
def projectSessionTurns (completions : List InferenceCall) (decisions : List DeveloperDecision) :
    SessionTurns :=
  let projection := (sortedBy callOrder completions).foldl projectCall {}
  let attachment := joinDecisionsByCallIdResult
    (projection.entries.map (fun entry => entry.1.identity)) decisions
  let bySegment := Dict.empty.gather (projection.entries.map (fun entry =>
    (entry.2.2, turnOf attachment.decisionsByCompletion entry.1 entry.2.1)))
  { segments := (sortedBy id bySegment.keys).map bySegment.listed
    skipped := attachment.skipped
    fragmented := projection.fragmented }

end

end Sediment.Derive
