import Sediment.Export.AttributedCompletions

namespace Sediment.Export
open Sediment.Base Sediment.Core Sediment.Derive

/-- The tunable knobs of the confidence ladder, as `__post_init__` accepts them. -/
structure LabelConfidencePolicy where
  explicitAcceptConfidence : ℚ := 1
  explicitRejectConfidence : ℚ := 0
  baselineConfidence : ℚ := 6 / 10
  implicitAcceptMultiplier : ℚ := 11 / 10
  implicitRejectMultiplier : ℚ := 9 / 10
  ciPassMultiplier : ℚ := 11 / 10
  ciFailMultiplier : ℚ := 7 / 10
  ciResolution : CIResolutionPolicy := {}
  policyVersion : String := "4"
  confidences : ∀ c ∈ [explicitAcceptConfidence, explicitRejectConfidence, baselineConfidence],
    0 ≤ c ∧ c ≤ 1 := by norm_num
  multipliers : ∀ m ∈ [implicitAcceptMultiplier, implicitRejectMultiplier, ciPassMultiplier,
    ciFailMultiplier], 0 ≤ m := by norm_num

def lerp (low high t : ℚ) : ℚ := low + (high - low) * t

inductive DecisionBranch where
  | abandoned | noDecision | explicitReject | explicitAccept | implicitReject
  | implicitAcceptCodexNeutral | implicitAccept
  deriving DecidableEq, Repr

/-- Which decision branch a completion falls into. -/
def decisionBranch (row : CompletionFields) : DecisionBranch :=
  let explicit := row.decisions.filter (fun d => d.explicit)
  if row.abandonment.isSome then .abandoned
  else if row.decisions = [] then .noDecision
  else if explicit ≠ [] then
    -- Reject wins under several explicit decisions.
    if explicit.any (fun d => !d.accepted) then .explicitReject else .explicitAccept
  else if row.decisions.any (fun d => !d.accepted) then .implicitReject
  else if row.decisions.all (fun d => d.agentHarness = .codex) then .implicitAcceptCodexNeutral
  else .implicitAccept

/-- The grades of a row's decisions. -/
def editRetentionScores (row : CompletionFields) : List ℚ :=
  row.decisions.filterMap (fun d => d.editRetentionScore)

/-- The least grade interpolates between the two multipliers. -/
def implicitAcceptFactor (row : CompletionFields) (policy : LabelConfidencePolicy) : ℚ :=
  match (editRetentionScores row).min? with
  | some score => policy.baselineConfidence *
      lerp policy.implicitRejectMultiplier policy.implicitAcceptMultiplier score
  | none => policy.baselineConfidence * policy.implicitAcceptMultiplier

def decisionFactor (row : CompletionFields) (policy : LabelConfidencePolicy) : Option ℚ :=
  if row.decisions = [] then none
  else
    match decisionBranch row with
    | .abandoned => some policy.explicitRejectConfidence
    | .explicitReject => some policy.explicitRejectConfidence
    | .explicitAccept => some policy.explicitAcceptConfidence
    | .implicitReject => some (policy.baselineConfidence * policy.implicitRejectMultiplier)
    | .implicitAcceptCodexNeutral => some policy.baselineConfidence
    | _ => some (implicitAcceptFactor row policy)

inductive ConfidenceError where
  | ci (e : CIError)
  | assertion
  | typeError

abbrev Resolve (α : Type) := Except ConfidenceError α

structure ConfidenceBreakdown where
  decisionFactor : ℚ
  ciFactor : ℚ
  ciReliability : ℚ
  similarityDiscount : ℚ
  final : ℚ
  deriving DecidableEq

/-- `repo`'s own resolution, or a legacy one of its name. -/
def ofCommit (row : CompletionFields) (resolution : CIResolution) : Bool :=
  resolution.repositoryIdentity = row.repositoryIdentity ∧
    (resolution.repositoryIdentity.isSome ∨ some resolution.repo = row.repo) ∧
    some resolution.commitSha = row.commitSha

section
variable [Interpreter] (digest : CIResolutionPolicy → String)
  (repositoryContext : Option RepositoryContext)

/-- Resolve CI evidence and retain its closed skip tally. -/
def resolveCiResolutionResult (row : CompletionFields) (policy : CIResolutionPolicy) :
    Resolve CIResolutionResult :=
  (deriveCiResolutionResult row.ciOutcomes policy digest row.provenance.quarantineRevision
    repositoryContext).mapError .ci

/-- Resolve one attributed completion's commit-level CI evidence. -/
def resolveCiResolution (row : CompletionFields) (policy : CIResolutionPolicy) :
    Resolve (Option CIResolution) := do
  let result ← resolveCiResolutionResult digest repositoryContext row policy
  if row.repo = none ∨ row.commitSha = none then .ok none
  else .ok (result.resolutions.find? (ofCommit row))

/-- The factor of a verdict, and the reliability that it must carry. -/
def ciFactors (policy : LabelConfidencePolicy) (resolution : Option CIResolution) :
    Resolve (ℚ × ℚ) :=
  let reliable (factor : ℚ) (reliability : Option ℚ) : Resolve (ℚ × ℚ) :=
    match reliability with
    | some reliability => .ok (factor, reliability)
    | none => .error .assertion
  match resolution with
  | none => .ok (1, 1)
  | some resolution =>
    if resolution.verdict = some .passed then
      reliable policy.ciPassMultiplier resolution.reliability
    else if resolution.verdict = some .failed then
      reliable policy.ciFailMultiplier resolution.reliability
    else .ok (1, 1)

/-- JACCARD is a similarity guess; a session stamp needs no discount. -/
def similarityDiscount (row : CompletionFields) : Resolve ℚ :=
  if row.attributionSource = some .jaccard then
    match row.similarityScore with
    | some score => .ok score
    | none => .error .typeError
  else .ok 1

def cap (confidence : ℚ) : ℚ := max 0 (min 1 confidence)

/-- Resolve a completion's confidence with its factor breakdown; `none` carries no reward. -/
def resolveConfidenceBreakdown (policy : LabelConfidencePolicy) (row : CompletionFields) :
    Resolve (Option ConfidenceBreakdown) :=
  if row.abandonment = none ∧ row.decisions = [] ∧ row.ciOutcomes = [] then .ok none
  else do
    let decision := (decisionFactor row policy).getD policy.baselineConfidence
    let resolution ← resolveCiResolution digest repositoryContext row policy.ciResolution
    let (ciFactor, ciReliability) ← ciFactors policy resolution
    let discount ← similarityDiscount row
    .ok (some
      { decisionFactor := decision
        ciFactor
        ciReliability
        similarityDiscount := discount
        final := cap (decision * ciFactor * ciReliability * discount) })

def resolveConfidence (policy : LabelConfidencePolicy) (row : CompletionFields) :
    Resolve (Option ℚ) :=
  (resolveConfidenceBreakdown digest repositoryContext policy row).map
    (Option.map ConfidenceBreakdown.final)

end

end Sediment.Export
