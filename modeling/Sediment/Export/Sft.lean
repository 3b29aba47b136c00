import Sediment.Base.Best
import Sediment.Export.LabelConfidence
import Sediment.Export.Trainer

namespace Sediment.Export
open Sediment.Base Base.JsonScan Sediment.Core Sediment.Derive

inductive SFTRecipe where
  | curated | verified
  deriving DecidableEq, Repr

inductive SFTEligibilitySource where
  | explicitAccept | editRetention | resolvedCiPass
  deriving DecidableEq, Repr

/-- The reasons a row is declined for. -/
inductive SFTSkipReason where
  | trainer (reason : TrainerSkipReason)
  | abandoned | explicitReject | resolvedCiFailure | noEligibilitySource
  | unreliableCiResolution | noRewardSignal | belowConfidenceFloor | inferenceCallNotFound
  | modelAbsent
  deriving DecidableEq, Repr

/-- What a projection counts: declined and duplicate rows, the calls with conflicting evidence,
and the skips of the CI resolutions that it asked for. -/
inductive SFTCount where
  | declined (reason : SFTSkipReason)
  | duplicateCompletion | conflictingEvidence
  | ci (reason : CIResolutionSkipReason)
  deriving DecidableEq

structure SFTPolicy where
  labelConfidence : LabelConfidencePolicy := {}
  minConfidence : ℚ := 6 / 10
  recipe : SFTRecipe := .curated
  floor : 0 ≤ minConfidence ∧ minConfidence ≤ 1 := by norm_num

structure SFTMetadata where
  orgId : String
  sourceModel : Text
  completionId : String
  recipe : SFTRecipe
  eligibilitySource : SFTEligibilitySource
  labelConfidence : ℚ
  ciReliability : Option ℚ
  provenance : Provenance
  split : Split
  repositoryIdentity : Option RepositoryIdentity
  attributionSource : Option AttributionSource
  sessionCommitObservationIds : List String

/-- One training row; its list of tools is always empty. -/
structure SFTSample (φ : Type) where
  prompt : List (TrainerMessage φ)
  completion : List (TrainerMessage φ)
  metadata : SFTMetadata

/-- The retention score from which an accepted edit counts as retained. -/
def strongRetentionThreshold : ℚ := 8 / 10

def explicitAccept (row : CompletionFields) : Bool :=
  row.decisions.any (fun d => d.explicit && d.accepted)

def explicitReject (row : CompletionFields) : Bool :=
  row.decisions.any (fun d => d.explicit && !d.accepted)

def retainedEdit (row : CompletionFields) : Bool :=
  row.decisions.any (fun d =>
    d.accepted && d.editRetentionScore.any (fun score => strongRetentionThreshold ≤ score))

/-- Instants are compared, not their spellings. -/
def instantOf (time : AwareDatetime) : AwareDatetime := ⟨time.utc, "", "", 0⟩

def decisionPayload (d : DeveloperDecision) : DeveloperDecision :=
  { d with occurredAt := instantOf d.occurredAt, capturedAt := instantOf d.capturedAt }

def outcomePayload (o : CIOutcome) : CIOutcome := { o with capturedAt := instantOf o.capturedAt }

def observationPayload (o : SessionCommitObservation) : SessionCommitObservation :=
  { o with capturedAt := instantOf o.capturedAt }

def abandonmentPayload (a : SessionAbandonment) : SessionAbandonment :=
  { a with lastDecisionAt := instantOf a.lastDecisionAt, asOf := instantOf a.asOf }

/-- A row with every field that a comparison of payloads reads. -/
def CompletionFields.payload (row : CompletionFields) : CompletionFields :=
  { row with
    decisions := row.decisions.map decisionPayload
    ciOutcomes := row.ciOutcomes.map outcomePayload
    abandonment := row.abandonment.map abandonmentPayload
    sessionCommitObservations :=
      row.sessionCommitObservations.map observationPayload }

def sameEvidencePayload (left right : CompletionFields) : Bool := left.payload = right.payload

def evidenceIdentity (row : CompletionFields) : String × EvidenceKey :=
  (row.orgId, evidenceSortKey row)

/-- The first row held for each identity, and the calls with a copy that differs from it. -/
structure ConflictScan where
  identities : Dict (String × EvidenceKey) CompletionFields := Dict.empty
  conflictingCalls : Finset String := ∅

def ConflictScan.add (s : ConflictScan) (evidence : CompletionFields) : ConflictScan :=
  match s.identities.get? (evidenceIdentity evidence) with
  | none => { s with identities := s.identities.set (evidenceIdentity evidence) evidence }
  | some held =>
    if sameEvidencePayload held evidence then s
    else { s with conflictingCalls := insert evidence.inferenceCallId s.conflictingCalls }

def conflictingCalls (rows : List CompletionFields) : Finset String :=
  (rows.foldl ConflictScan.add {}).conflictingCalls

section
variable [Interpreter] (digest : CIResolutionPolicy → String)
  (repositoryContext : Option RepositoryContext)

/-- Resolve one recipe source or its closed ineligibility reason. -/
def eligibilitySource (policy : SFTPolicy) (row : CompletionFields) :
    Resolve (Except SFTSkipReason SFTEligibilitySource) :=
  if row.abandonment.isSome then .ok (.error .abandoned)
  else if explicitReject row then .ok (.error .explicitReject)
  else do
    let resolution ← resolveCiResolution digest repositoryContext row
      policy.labelConfidence.ciResolution
    if resolution.any (fun r => r.workflowResolutions.any (fun w => w.verdict = some .failed)) then
      .ok (.error .resolvedCiFailure)
    else
      match policy.recipe with
      | .verified =>
        match resolution with
        | some r =>
          if r.verdict ≠ some .passed then .ok (.error .noEligibilitySource)
          else if r.suspectedFlake then .ok (.error .unreliableCiResolution)
          else .ok (.ok .resolvedCiPass)
        | none => .ok (.error .noEligibilitySource)
      | .curated =>
        if explicitAccept row then .ok (.ok .explicitAccept)
        else if retainedEdit row then .ok (.ok .editRetention)
        else .ok (.error .noEligibilitySource)

variable {φ : Type} [Captured.PyFloat φ]

abbrev Calls (φ : Type) := String → Option (Captured.InferenceCall φ)

def ofMapping {α : Type} : Mapped α → Except SFTSkipReason α := Except.mapError .trainer

/-- The mapped call of a row, with the model that it names. -/
def mappedCall (calls : Calls φ) (row : CompletionFields) :
    Except SFTSkipReason (Text × TrainerConversation φ) := do
  match calls row.inferenceCallId with
  | none => .error .inferenceCallNotFound
  | some call =>
    match call.model with
    | none => .error .modelAbsent
    | some model => do
      let conversation ← ofMapping (mapInferenceCall call)
      .ok (model, conversation)

/-- The sample of an eligible row. Only the messages and the model's name can hold a scalar that
training declines: the other texts are validated, and the numbers finite. -/
def sampleOf (policy : SFTPolicy) (row : CompletionFields) (source : SFTEligibilitySource)
    (confidence : ℚ) (resolution : Option CIResolution) (model : Text)
    (conversation : TrainerConversation φ) : Except SFTSkipReason (SFTSample φ) := do
  ofMapping (validateMessages conversation.prompt)
  ofMapping (validateMessages conversation.completion)
  ofMapping (validateText model)
  .ok
    { prompt := conversation.prompt
      completion := conversation.completion
      metadata :=
        { orgId := row.orgId
          sourceModel := model
          completionId := row.inferenceCallId
          recipe := policy.recipe
          eligibilitySource := source
          labelConfidence := confidence
          ciReliability := resolution.bind CIResolution.reliability
          provenance := row.provenance
          split := row.split
          repositoryIdentity := row.repositoryIdentity
          attributionSource := row.attributionSource
          sessionCommitObservationIds := sessionCommitObservationIds repositoryContext row } }

abbrev SFTRank := ℚ ×ₗ EvidenceKey

/-- What one row contributes: the skips of its CI resolution, and a ranked sample or a reason. -/
structure Assessment (φ : Type) where
  ciSkipped : CIResolutionSkipReason → Nat := fun _ => 0
  outcome : Except SFTSkipReason (SFTRank × SFTSample φ)

/-- What follows the eligibility of a row. -/
def rankedSample (policy : SFTPolicy) (calls : Calls φ) (row : CompletionFields)
    (source : SFTEligibilitySource) :
    Resolve (Except SFTSkipReason (SFTRank × SFTSample φ)) := do
  match ← resolveConfidence digest repositoryContext policy.labelConfidence row with
  | none => .ok (.error .noRewardSignal)
  | some confidence =>
    if confidence < policy.minConfidence then .ok (.error .belowConfidenceFloor)
    else
      match mappedCall calls row with
      | .error reason => .ok (.error reason)
      | .ok (model, conversation) => do
        let resolution ← resolveCiResolution digest repositoryContext row
          policy.labelConfidence.ciResolution
        .ok ((sampleOf repositoryContext policy row source confidence resolution model
          conversation).map (fun sample => (toLex (confidence, evidenceSortKey row), sample)))

def assess (policy : SFTPolicy) (calls : Calls φ) (row : CompletionFields) :
    Resolve (Assessment φ) :=
  if row.abandonment.isSome then .ok { outcome := .error .abandoned }
  else if explicitReject row then .ok { outcome := .error .explicitReject }
  else do
    let result ← resolveCiResolutionResult digest repositoryContext row
      policy.labelConfidence.ciResolution
    match ← eligibilitySource digest repositoryContext policy row with
    | .error reason => .ok { ciSkipped := result.skipped, outcome := .error reason }
    | .ok source => do
      let outcome ← rankedSample digest repositoryContext policy calls row source
      .ok { ciSkipped := result.skipped, outcome }

structure SFTState (φ : Type) where
  skipped : SFTCount → Nat
  best : Dict String (SFTRank × SFTSample φ) := Dict.empty

/-- Count a row, or admit its sample if it outranks the one held for its call. -/
def SFTState.settle (s : SFTState φ) (row : CompletionFields) (a : Assessment φ) : SFTState φ :=
  let skipped : SFTCount → Nat := fun
    | .ci reason => s.skipped (.ci reason) + a.ciSkipped reason
    | count => s.skipped count
  match a.outcome with
  | .error reason => { s with skipped := bump skipped (.declined reason) 1 }
  | .ok ranked =>
    { skipped :=
        if (s.best.get? row.inferenceCallId).isSome then bump skipped .duplicateCompletion 1
        else skipped
      best := Best.offer s.best row.inferenceCallId ranked }

def SFTState.step (policy : SFTPolicy) (calls : Calls φ) (conflicting : Finset String)
    (s : SFTState φ) (row : CompletionFields) : Resolve (SFTState φ) :=
  if row.inferenceCallId ∈ conflicting then .ok s
  else do
    let a ← assess digest repositoryContext policy calls row
    .ok (s.settle row a)

structure SFTProjection (φ : Type) where
  rows : List (SFTSample φ)
  skipped : SFTCount → Nat

def SFTState.rows (s : SFTState φ) : List (SFTSample φ) :=
  (sortedBy id s.best.keys).filterMap (fun id => (s.best.get? id).map Prod.snd)

def projectSft (policy : SFTPolicy) (calls : Calls φ) (rows : List AttributedCompletion) :
    Resolve (SFTProjection φ) := do
  let rows := rows.map AttributedCompletion.toCompletionFields
  let conflicting := conflictingCalls rows
  let start : SFTState φ :=
    { skipped := fun count => if count = .conflictingEvidence then conflicting.card else 0 }
  let s ← rows.foldlM (SFTState.step digest repositoryContext policy calls conflicting) start
  .ok { rows := s.rows, skipped := s.skipped }

end

end Sediment.Export
