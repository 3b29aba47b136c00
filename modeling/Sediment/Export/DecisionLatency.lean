import Sediment.Core.Inference
import Sediment.Export.LabelConfidence

namespace Sediment.Export.DecisionLatency
open Sediment.Base Sediment.Core Sediment.Derive Sediment.Export

inductive SkipReason where
  | noDecision | missingInferenceCall | missingTimestamp | invalidTimestamp | negativeLatency
  | observationDelay
  deriving DecidableEq, Repr

def skipReasons : List SkipReason :=
  [.noDecision, .missingInferenceCall, .missingTimestamp, .invalidTimestamp, .negativeLatency,
    .observationDelay]

structure DecisionLatencyBucket where
  bucket : String
  decisions : Nat
  accepts : Nat
  rejects : Nat
  acceptRate : ℚ
  minLatencyMs : ℚ
  maxLatencyMs : ℚ
  meanLatencyMs : ℚ
  confidenceCount : Nat
  meanConfidence : Option ℚ
  deriving DecidableEq, Repr

structure DecisionLatencyReport where
  bucketsRequested : Int
  bucketsReturned : Nat
  totalDecisions : Nat
  includedDecisions : Nat
  skippedDecisions : List (SkipReason × Nat)
  acceptRateDelta : Option ℚ
  meanConfidenceDelta : Option ℚ
  buckets : List DecisionLatencyBucket
  deriving DecidableEq, Repr

structure Observation where
  decisionId : String
  latencyMs : ℚ
  accepted : Bool
  confidence : Option ℚ
  deriving DecidableEq, Repr

def millisecondsBetween (start stop : AwareDatetime) : ℚ :=
  ((stop.utc - start.utc : Int) : ℚ) / 1000

/-- What the pass over the completions has seen. -/
structure Seen where
  noDecisionCompletions : Nat := 0
  observations : Dict String Observation := Dict.empty
  skipReasons : Dict String SkipReason := Dict.empty

/-- The lower of the confidence held and the one just resolved. -/
def lower (existing confidence : Option ℚ) : Option ℚ :=
  match confidence, existing with
  | none, existing => existing
  | some c, none => some c
  | some c, some held => if c < held then some c else some held

/-- Both timestamps are there and aware, so that the two timestamp reasons never come up. -/
def latencyOf (inferenceCall : Option InferenceCall) (decision : DeveloperDecision) :
    Except SkipReason ℚ :=
  if decision.observationDelayMs.isSome then .error .observationDelay
  else
    match inferenceCall with
    | none => .error .missingInferenceCall
    | some call =>
      let latencyMs := millisecondsBetween call.observedAt decision.capturedAt
      if latencyMs < 0 then .error .negativeLatency else .ok latencyMs

/-- One decision of one completion. -/
def visit (inferenceCall : Option InferenceCall) (confidence : Option ℚ) (seen : Seen)
    (decision : DeveloperDecision) : Seen :=
  match seen.observations.get? decision.decisionId with
  | some existing =>
    let observation := { existing with confidence := lower existing.confidence confidence }
    { seen with observations := seen.observations.set decision.decisionId observation }
  | none =>
    match latencyOf inferenceCall decision with
    | .error reason =>
      { seen with skipReasons := seen.skipReasons.setdefault decision.decisionId reason }
    | .ok latencyMs =>
      let observation : Observation :=
        { decisionId := decision.decisionId, latencyMs, accepted := decision.accepted,
          confidence }
      { seen with
        observations := seen.observations.set decision.decisionId observation
        skipReasons := seen.skipReasons.filter fun id _ => id ≠ decision.decisionId }

def orderedDecisions (row : CompletionFields) : List DeveloperDecision :=
  sortedBy (fun d => toLex (d.capturedAt.utc, d.decisionId)) row.decisions

def orderedCompletions (rows : List AttributedCompletion) : List AttributedCompletion :=
  sortedBy (fun row => evidenceSortKey row.toCompletionFields) rows

def callsById (inferenceCalls : List InferenceCall) : Dict String InferenceCall :=
  inferenceCalls.foldl (fun calls call => calls.set call.inferenceCallId call) Dict.empty

inductive LatencyError where
  | value (message : String)
  | confidence (e : ConfidenceError)

section
variable [Interpreter] (digest : CIResolutionPolicy → String)
  (repositoryContext : Option RepositoryContext)

def visitCompletion (policy : LabelConfidencePolicy) (calls : Dict String InferenceCall)
    (seen : Seen) (row : AttributedCompletion) : Except LatencyError Seen :=
  if row.decisions = [] then
    .ok { seen with noDecisionCompletions := seen.noDecisionCompletions + 1 }
  else do
    let confidence ← (resolveConfidence digest repositoryContext policy
      row.toCompletionFields).mapError .confidence
    let inferenceCall := calls.get? row.inferenceCallId
    .ok ((orderedDecisions row.toCompletionFields).foldl (visit inferenceCall confidence) seen)

/-- The pass over the completions, in the order of their evidence. -/
def collect (policy : LabelConfidencePolicy) (inferenceCalls : List InferenceCall)
    (rows : List AttributedCompletion) : Except LatencyError Seen :=
  (orderedCompletions rows).foldlM
    (visitCompletion digest repositoryContext policy (callsById inferenceCalls)) {}

end

def mean (values : List ℚ) : ℚ := values.sum / values.length

/-- One bucket; it is never asked for without observations. -/
def bucket (label : String) (observations : List Observation) : DecisionLatencyBucket :=
  let accepts := observations.countP fun o => o.accepted
  let confidenceValues := observations.filterMap fun o => o.confidence
  let latencies := observations.map fun o => o.latencyMs
  { bucket := label
    decisions := observations.length
    accepts
    rejects := observations.length - accepts
    acceptRate := accepts / observations.length
    minLatencyMs := latencies.min?.getD 0
    maxLatencyMs := latencies.max?.getD 0
    meanLatencyMs := mean latencies
    confidenceCount := confidenceValues.length
    meanConfidence := if confidenceValues = [] then none else some (mean confidenceValues) }

def byLatency (observations : List Observation) : List Observation :=
  sortedBy (fun o => toLex (o.latencyMs, o.decisionId)) observations

/-- All latencies are the same. -/
def flat (ordered : List Observation) : Bool :=
  ordered.head?.map (fun o => o.latencyMs) = ordered.getLast?.map (fun o => o.latencyMs)

def quantileBuckets (observations : List Observation) (bucketsRequested : Int) :
    List DecisionLatencyBucket :=
  if observations = [] then []
  else
    let ordered := byLatency observations
    if bucketsRequested ≤ 1 ∨ flat ordered then [bucket "all" ordered]
    else
      let bucketCount := min bucketsRequested.toNat ordered.length
      (List.range bucketCount).map fun index =>
        let start := index * ordered.length / bucketCount
        let stop := (index + 1) * ordered.length / bucketCount
        bucket ("q" ++ toString (index + 1)) ((ordered.drop start).take (stop - start))

/-- `dict(skips)`: every reason with its count. -/
def skips (seen : Seen) : List (SkipReason × Nat) :=
  skipReasons.map fun reason =>
    (reason, (if reason = .noDecision then seen.noDecisionCompletions else 0) +
      seen.skipReasons.entries.countP fun e => e.2 = reason ∧ ¬seen.observations.contains e.1)

def deltas (buckets : List DecisionLatencyBucket) : Option ℚ × Option ℚ :=
  match buckets.head?, buckets.getLast? with
  | some first, some last =>
    if 2 ≤ buckets.length then
      (some (last.acceptRate - first.acceptRate),
        match first.meanConfidence, last.meanConfidence with
        | some fast, some slow => some (slow - fast)
        | _, _ => none)
    else (none, none)
  | _, _ => (none, none)

/-- The report on what the pass has seen. -/
def summarize (latencyBuckets : Int) (seen : Seen) : DecisionLatencyReport :=
  let counts := skips seen
  let buckets := quantileBuckets seen.observations.values latencyBuckets
  { bucketsRequested := latencyBuckets
    bucketsReturned := buckets.length
    totalDecisions := seen.observations.keys.length +
      ((counts.filter fun e => e.1 ≠ .noDecision).map Prod.snd).sum
    includedDecisions := seen.observations.keys.length
    skippedDecisions := counts
    acceptRateDelta := (deltas buckets).1
    meanConfidenceDelta := (deltas buckets).2
    buckets }

/-- Bucket unique decisions by completion-to-decision latency. -/
def buildDecisionLatencyReport [Interpreter] (digest : CIResolutionPolicy → String)
    (repositoryContext : Option RepositoryContext) (policy : LabelConfidencePolicy)
    (inferenceCalls : List InferenceCall) (rows : List AttributedCompletion)
    (latencyBuckets : Int) : Except LatencyError DecisionLatencyReport :=
  if latencyBuckets ≤ 0 then .error (.value "latency_buckets must be a positive integer")
  else do
    let seen ← collect digest repositoryContext policy inferenceCalls rows
    .ok (summarize latencyBuckets seen)

end Sediment.Export.DecisionLatency
