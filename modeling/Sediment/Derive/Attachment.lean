import Sediment.Core.Decisions
import Sediment.Core.Inference
import Sediment.Derive.CiResolution

namespace Sediment.Derive
open Sediment.Base Sediment.Core

inductive DecisionAttachmentSkipReason where
  | missingDecisionCallId | unmatchedDecisionCallId | ambiguousDecisionCallId
  | decisionOrgMismatch | decisionSessionMismatch
  deriving DecidableEq, Repr

/-- Decision attachments plus counted unique-or-drop losses. -/
structure DecisionAttachmentResult where
  decisionsByCompletion : Dict String (List DeveloperDecision) := Dict.empty
  skipped : DecisionAttachmentSkipReason → Nat := fun _ => 0

/-- What two spellings of one decision record agree on: all but the file. -/
structure SubsumptionKey where
  orgId : String
  sessionId : String
  accepted : Bool
  explicit : Bool
  interactionMode : InteractionMode
  occurredAt : Int
  callId : Option String
  deriving DecidableEq

def subsumptionKey (d : DeveloperDecision) : SubsumptionKey :=
  ⟨d.orgId, d.sessionId, d.accepted, d.explicit, d.interactionMode, d.occurredAt.utc, d.callId⟩

def dropSubsumedCodexDecisions (decisions : List DeveloperDecision) : List DeveloperDecision :=
  let keyedGroups := (decisions.filter (fun d =>
    d.agentHarness = .codex ∧ d.callId ≠ none ∧ d.filePath ≠ "")).map subsumptionKey
  decisions.filter (fun d => ¬ (d.agentHarness = .codex ∧ d.filePath = "" ∧ d.callId ≠ none ∧
    subsumptionKey d ∈ keyedGroups))

def completionsByCallId (completions : List InferenceCallIdentity) :
    Dict String (List InferenceCallIdentity) :=
  Dict.empty.gather (completions.flatMap (fun c =>
    c.modelCallIds.map (fun callId => (callId, c))))

/-- The completion a decision attaches to, given all that its call id found. -/
def attachedCompletion (d : DeveloperDecision) :
    List InferenceCallIdentity → Except DecisionAttachmentSkipReason String
  | [] => .error .unmatchedDecisionCallId
  | [c] =>
    if c.orgId ≠ d.orgId then .error .decisionOrgMismatch
    else if c.sessionId ≠ d.sessionId then .error .decisionSessionMismatch
    else .ok c.inferenceCallId
  | _ :: _ :: _ => .error .ambiguousDecisionCallId

def attachDecision (index : Dict String (List InferenceCallIdentity))
    (result : DecisionAttachmentResult) (d : DeveloperDecision) : DecisionAttachmentResult :=
  let attached : Except DecisionAttachmentSkipReason String := match d.callId with
    | none => .error .missingDecisionCallId
    | some callId => attachedCompletion d (index.listed callId)
  match attached with
  | .ok completion =>
    { result with decisionsByCompletion := result.decisionsByCompletion.push completion d }
  | .error reason => { result with skipped := bump result.skipped reason 1 }

def decisionOrder (d : DeveloperDecision) : Int ×ₗ String :=
  toLex (d.occurredAt.utc, d.decisionId)

def joinDecisionsByCallIdResult (completions : List InferenceCallIdentity)
    (decisions : List DeveloperDecision) : DecisionAttachmentResult :=
  let result := (dropSubsumedCodexDecisions decisions).foldl
    (attachDecision (completionsByCallId completions)) {}
  { result with
    decisionsByCompletion :=
      result.decisionsByCompletion.mapValues (fun _ attached => sortedBy decisionOrder attached) }

end Sediment.Derive
