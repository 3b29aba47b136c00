import Sediment.Core.Captured
import Sediment.Core.Datetime
import Sediment.Core.Decisions

namespace Sediment.Core.Captured
open Sediment.Base Base.JsonScan

/-- How a float compares with an integer; a NaN does not. -/
class FloatOrder (φ : Type) where
  compareInt : φ → Int → Option Ordering

def agentHarnesses : List (Text × AgentHarness) :=
  [(codePoints "claude-code", .claudeCode), (codePoints "copilot", .copilot),
    (codePoints "codex", .codex), (codePoints "cursor", .cursor), (codePoints "pi", .pi)]

/-- `AgentHarness(value)`; `none` stands for `ValueError`. -/
def agentHarness (value : Text) : Option AgentHarness := agentHarnesses.lookup value

/-- The characters of a text without surrogates. -/
def scalars (t : Text) : String := String.ofList (t.map Char.ofNat)

def isHexDigit (c : Char) : Bool := ('0' ≤ c && c ≤ '9') || ('a' ≤ c && c ≤ 'f')

section
variable [Interpreter]

def validOrgId (value : Text) : Option Text := do
  let value ← scalarIdentity value
  (normalizeOrgId (scalars value)).map codePoints

/-- A surrogate is no hex digit, however the text is lowered. -/
def normalizeCommitSha (v : Text) : Option Text :=
  if v.any isSurrogate then none
  else
    let v := (Interpreter.lower (scalars (strip v))).toList
    if v.length ∈ [40, 64] ∧ v.all isHexDigit then some (v.map Char.toNat) else none

end

section
variable (φ : Type)

structure DeveloperDecision where
  decisionId : Option Text
  orgId : Text
  sessionId : Text
  userId : Option Text
  agentHarness : AgentHarness
  filePath : Text
  accepted : Bool
  explicit : Bool
  interactionMode : InteractionMode
  commitSha : Option Text
  callId : Option Text
  editRetentionScore : Option φ
  observationDelayMs : Option Int
  occurredAt : Datetime
  raw : List (Text × Json Text φ)

structure EditObservation where
  orgId : Text
  sessionId : Text
  userId : Option Text
  agentHarness : AgentHarness
  filePath : Text
  callId : Text
  appliedText : Text
  observedFileText : Text
  externalLinesAdded : Option Int
  externalLinesRemoved : Option Int
  occurredAt : Datetime
  raw : List (Text × Json Text φ)

structure RejectedEdit where
  orgId : Text
  sessionId : Text
  userId : Option Text
  agentHarness : AgentHarness
  filePath : Text
  callId : Text
  proposed : Text
  occurredAt : Datetime
  raw : List (Text × Json Text φ)

end

inductive RetryTool where
  | edit | write
  deriving DecidableEq, Repr

structure RetryLinkage where
  orgId : Text
  sessionId : Text
  userId : Option Text
  agentHarness : AgentHarness
  filePath : Text
  toolName : RetryTool
  rejectedCallId : Text
  acceptedCallId : Text
  occurredAt : Datetime

section
variable {φ : Type} [Interpreter]

/-- `Field(ge=0.0, le=1.0)`. -/
def boundedScore [FloatOrder φ] (score : φ) : Option φ :=
  let low := FloatOrder.compareInt score 0
  let high := FloatOrder.compareInt score 1
  if (low = some .gt ∨ low = some .eq) ∧ (high = some .lt ∨ high = some .eq) then some score
  else none

def DeveloperDecision.validate [FloatOrder φ] (decision : DeveloperDecision φ) :
    Option (DeveloperDecision φ) := do
  let orgId ← validOrgId decision.orgId
  let sessionId ← nonEmptyId decision.sessionId
  let userId ← optional nonEmptyId decision.userId
  let filePath ← scalarIdentity decision.filePath
  let commitSha ← optional normalizeCommitSha decision.commitSha
  let callId ← optional nonEmptyId decision.callId
  let editRetentionScore ← optional boundedScore decision.editRetentionScore
  let observationDelayMs ← optional boundedCount decision.observationDelayMs
  some { decision with orgId, sessionId, userId, filePath, commitSha, callId,
                       editRetentionScore, observationDelayMs }

def EditObservation.validate (observation : EditObservation φ) : Option (EditObservation φ) := do
  let orgId ← validOrgId observation.orgId
  let sessionId ← nonEmptyId observation.sessionId
  let userId ← optional nonEmptyId observation.userId
  let filePath ← scalarIdentity observation.filePath
  let callId ← nonEmptyId observation.callId
  let externalLinesAdded ← optional boundedCount observation.externalLinesAdded
  let externalLinesRemoved ← optional boundedCount observation.externalLinesRemoved
  some { observation with orgId, sessionId, userId, filePath, callId, externalLinesAdded,
                          externalLinesRemoved }

def RejectedEdit.validate (edit : RejectedEdit φ) : Option (RejectedEdit φ) := do
  let orgId ← validOrgId edit.orgId
  let sessionId ← nonEmptyId edit.sessionId
  let userId ← optional nonEmptyId edit.userId
  let filePath ← scalarIdentity edit.filePath
  let callId ← nonEmptyId edit.callId
  some { edit with orgId, sessionId, userId, filePath, callId }

def RetryLinkage.validate (linkage : RetryLinkage) : Option RetryLinkage := do
  let orgId ← validOrgId linkage.orgId
  let sessionId ← nonEmptyId linkage.sessionId
  let userId ← optional nonEmptyId linkage.userId
  let filePath ← nonEmptyId linkage.filePath
  let rejectedCallId ← nonEmptyId linkage.rejectedCallId
  let acceptedCallId ← nonEmptyId linkage.acceptedCallId
  if rejectedCallId = acceptedCallId then none
  else some { linkage with orgId, sessionId, userId, filePath, rejectedCallId, acceptedCallId }

end

end Sediment.Core.Captured
