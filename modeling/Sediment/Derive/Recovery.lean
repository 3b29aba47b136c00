import Sediment.Base.Lines
import Sediment.Derive.CiResolution

namespace Sediment.Derive.Recovery
open Base Sediment.Core
open Base.Lines (splitlines)

inductive RecoverySkipReason where
  | ciResolution (reason : CIResolutionSkipReason)
  | unreliableCiResolution | workflowIdentityAbsent | mirrorAbsent | sameCommit
  | ancestryCheckFailed | notAncestor | diffUnavailable | diffOversized
  deriving DecidableEq

structure RecoveryPolicy where
  maxRecoveryDiffLines : Int := 200
  policyVersion : String := "5"
  ciResolution : CIResolutionPolicy := {}

/-- Optional completion enrichment for one side of a pair. -/
structure RecoveryAttributionEvidence where
  inferenceCallId : String
  sessionId : String
  attributionSources : List String
  sessionCommitObservationIds : List String := []
  deriving DecidableEq

/-- One red-to-green CI transition and its fixing diff. -/
structure RecoverySample where
  orgId : String
  repo : String
  branch : String
  workflowName : String
  workflowPath : Option String
  failedCommitSha : String
  fixedCommitSha : String
  failedOutcomeId : String
  fixedOutcomeId : String
  recoveryDiff : List Char
  failedInferenceCallIds : List String
  fixedInferenceCallIds : List String
  provenance : Provenance
  failedAttributionEvidence : List RecoveryAttributionEvidence := []
  fixedAttributionEvidence : List RecoveryAttributionEvidence := []
  repositoryIdentity : Option RepositoryIdentity := none
  deriving DecidableEq

structure RecoveryResult where
  pairs : List RecoverySample := []
  skipped : RecoverySkipReason → Nat := fun _ => 0
  maxRecoveryDiffLines : Int := 200
  keptDiffLineCounts : List Nat := []
  droppedDiffLineCounts : List Nat := []

def RecoveryResult.skip (result : RecoveryResult) (reason : RecoverySkipReason) (n : Nat) :
    RecoveryResult :=
  { result with skipped := bump result.skipped reason n }

/-- What the loop asks of a mirror; `none` stands for a `MirrorError`. -/
structure RepoMirror where
  isAncestor : String → String → Option Bool
  diffRange : String → String → Option (List Char)

structure LineCounter where
  count : Nat := 0
  inHunk : Bool := false
  deriving DecidableEq

def LineCounter.line (s : LineCounter) (line : List Char) : LineCounter :=
  if "diff --git".toList.isPrefixOf line then { s with inHunk := false }
  else if "@@".toList.isPrefixOf line then { s with inHunk := true }
  else if s.inHunk && (['+'].isPrefixOf line || ['-'].isPrefixOf line) then
    { s with count := s.count + 1 }
  else s

/-- `_diff_line_count` -/
def diffLineCount (diff : List Char) : Nat :=
  ((splitlines [] diff).foldl LineCounter.line {}).count

/-- One check: its repository, branch, provider and definition. -/
structure LineageKey where
  repository : RepositoryKey
  branch : String
  provider : String
  definitionKind : String
  definitionValue : String
  deriving DecidableEq

def LineageKey.sortKey (key : LineageKey) :
    List String ×ₗ String ×ₗ String ×ₗ String ×ₗ String :=
  toLex (repositorySortKey key.repository, toLex (key.branch, toLex (key.provider,
    toLex (key.definitionKind, key.definitionValue))))

inductive RecoveryError where
  | ciResolution (e : CIError)
  | unknownOutcome | unresolvedRepository
  | label (e : RepositoryContext.LabelError)

structure Lineages where
  byLineage : Dict LineageKey (List CIOutcome) := Dict.empty
  skipped : RecoverySkipReason → Nat := fun _ => 0

/-- The workflow ID, or else its path. An empty text counts as none. -/
def definition (w : CIWorkflowResolution) : Option (String × String) :=
  match w.workflowId.filter (· ≠ ""), w.workflowPath.filter (· ≠ "") with
  | some workflowId, _ => some ("id", workflowId)
  | none, some workflowPath => some ("path", workflowPath)
  | none, none => none

def outcomeById (outcomes : List CIOutcome) : Dict String CIOutcome :=
  outcomes.foldl (fun d o => d.set o.outcomeId o) Dict.empty

section
variable [Interpreter]

/-- One workflow resolution of a commit with a verdict. -/
def addWorkflow (byId : Dict String CIOutcome) (context : RepositoryContext) (s : Lineages)
    (w : CIWorkflowResolution) : Except RecoveryError Lineages :=
  if w.verdict = none then .ok s
  else if w.suspectedFlake then
    .ok { s with skipped := bump s.skipped .unreliableCiResolution 1 }
  else match w.verdictOutcomeId with
    | none => .ok s
    | some verdictOutcomeId =>
      match byId.get? verdictOutcomeId with
      | none => .error .unknownOutcome
      | some outcome =>
        match definition w with
        | none => .ok { s with skipped := bump s.skipped .workflowIdentityAbsent 1 }
        | some (definitionKind, definitionValue) =>
          match (context.resolveFact outcome.project).key with
          | none => .error .unresolvedRepository
          | some repository => .ok { s with
              byLineage := s.byLineage.push
                { repository
                  branch := w.branch
                  provider := w.provider.value
                  definitionKind
                  definitionValue } outcome }

def lineages (byId : Dict String CIOutcome) (context : RepositoryContext)
    (resolutions : List CIResolution) (s : Lineages) : Except RecoveryError Lineages :=
  ((resolutions.filter (fun r => r.verdict.isSome)).flatMap
    CIResolution.workflowResolutions).foldlM (addWorkflow byId context) s

end

/-- What one candidate pair is tried against. -/
structure PairScope where
  repository : RepositoryKey
  orgId : String
  repo : String
  branch : String
  mirror : RepoMirror
  policy : RecoveryPolicy
  provenance : Provenance
  evidence : CommitKey → List RecoveryAttributionEvidence

/-- `completions_by_commit` of a commit: each call once, in order. -/
def PairScope.completions (scope : PairScope) (sha : String) : List String :=
  sortedSet ((scope.evidence ⟨scope.repository, sha⟩).map
    RecoveryAttributionEvidence.inferenceCallId).toFinset

def identityOf : RepositoryKey → Option RepositoryIdentity
  | .identified _ identity => some identity
  | .legacy _ _ => none

/-- `_try_pair`: the sample or the reason, and the size of a diff that reached the gate. -/
def tryPair (scope : PairScope) (failed fixed : CIOutcome) :
    Option RecoverySample × Option RecoverySkipReason × Option Nat :=
  if failed.commitSha = fixed.commitSha then (none, some .sameCommit, none)
  else match scope.mirror.isAncestor failed.commitSha fixed.commitSha with
    | none => (none, some .ancestryCheckFailed, none)
    | some false => (none, some .notAncestor, none)
    | some true =>
      match scope.mirror.diffRange failed.commitSha fixed.commitSha with
      | none => (none, some .diffUnavailable, none)
      | some diff =>
        let lineCount := diffLineCount diff
        if scope.policy.maxRecoveryDiffLines < lineCount then
          (none, some .diffOversized, some lineCount)
        else (some
          { orgId := scope.orgId
            repo := scope.repo
            branch := scope.branch
            workflowName := failed.workflowName
            workflowPath := failed.workflowPath
            failedCommitSha := failed.commitSha
            fixedCommitSha := fixed.commitSha
            failedOutcomeId := failed.outcomeId
            fixedOutcomeId := fixed.outcomeId
            recoveryDiff := diff
            failedInferenceCallIds := scope.completions failed.commitSha
            fixedInferenceCallIds := scope.completions fixed.commitSha
            provenance := scope.provenance
            repositoryIdentity := identityOf scope.repository }, none, some lineCount)

/-- What the loop does with one candidate. -/
def evaluatePair (scope : PairScope) (result : RecoveryResult) (failed fixed : CIOutcome) :
    RecoveryResult :=
  match tryPair scope failed fixed with
  | (some sample, _, lineCount) =>
    { result with
      pairs := result.pairs ++ [{ sample with
        failedAttributionEvidence := scope.evidence ⟨scope.repository, sample.failedCommitSha⟩
        fixedAttributionEvidence := scope.evidence ⟨scope.repository, sample.fixedCommitSha⟩ }]
      keptDiffLineCounts := result.keptDiffLineCounts ++ lineCount.toList }
  | (none, some reason, lineCount) =>
    { result.skip reason 1 with
      droppedDiffLineCounts := result.droppedDiffLineCounts ++
        if reason = .diffOversized then lineCount.toList else [] }
  | (none, none, _) => result

structure Pairing where
  pendingFailed : Option CIOutcome := none
  result : RecoveryResult

/-- One outcome of a lineage in the pairing loop. -/
def pairStep (scope : PairScope) (s : Pairing) (outcome : CIOutcome) : Pairing :=
  if outcome.result ≠ .passed ∧ outcome.result ≠ .failed then s
  else if outcome.result = .failed then { s with pendingFailed := some outcome }
  else match s.pendingFailed with
    | none => s
    | some failed =>
      { pendingFailed := none, result := evaluatePair scope s.result failed outcome }

/-- One outcome in the loop of `_candidate_transition_count`. -/
def countStep (s : Nat × Bool) (outcome : CIOutcome) : Nat × Bool :=
  if outcome.result ≠ .passed ∧ outcome.result ≠ .failed then s
  else if outcome.result = .failed then (s.1, true)
  else if s.2 then (s.1 + 1, false) else s

/-- `_candidate_transition_count` -/
def candidateTransitionCount (ordered : List CIOutcome) : Nat :=
  (ordered.foldl countStep (0, false)).1

/-- What the derivation reads besides the outcomes: the mirrors, and the attribution evidence
of each commit with the reasons that deriving it has counted. -/
structure RecoverySources where
  mirrors : RepositoryKey → Option RepoMirror
  evidence : CommitKey → List RecoveryAttributionEvidence
  attributionSkipped : RecoverySkipReason → Nat

section
variable [Interpreter]

def scopeOf (context : RepositoryContext) (policy : RecoveryPolicy) (provenance : Provenance)
    (sources : RecoverySources) (key : LineageKey) (repo : String) (mirror : RepoMirror) :
    PairScope :=
  { repository := key.repository
    orgId := context.orgId
    repo
    branch := key.branch
    mirror
    policy
    provenance
    evidence := sources.evidence }

/-- One lineage, in the order of its outcomes. -/
def pairLineage (context : RepositoryContext) (policy : RecoveryPolicy) (provenance : Provenance)
    (sources : RecoverySources) (byLineage : Dict LineageKey (List CIOutcome))
    (result : RecoveryResult) (key : LineageKey) : Except RecoveryError RecoveryResult :=
  match context.repoFor key.repository with
  | .error e => .error (.label e)
  | .ok repo =>
    let ordered := sortedBy outcomeOrder (byLineage.listed key)
    match sources.mirrors key.repository with
    | none => .ok (result.skip .mirrorAbsent (candidateTransitionCount ordered))
    | some mirror =>
      let scope := scopeOf context policy provenance sources key repo mirror
      .ok (ordered.foldl (pairStep scope) { result }).result

/-- `_derive_recovery_result` over the outcomes of the store's snapshot. `digest` is the
digest of the resolution policy, `policyDigest` that of the pairs. -/
def deriveRecoveryResult (population : List CIOutcome) (context : RepositoryContext)
    (policy : RecoveryPolicy) (digest : CIResolutionPolicy → String) (policyDigest : String)
    (quarantineRevision : Nat) (sources : RecoverySources) :
    Except RecoveryError RecoveryResult := do
  let provenance : Provenance := ⟨policy.policyVersion, quarantineRevision, policyDigest⟩
  let result : RecoveryResult := { maxRecoveryDiffLines := policy.maxRecoveryDiffLines }
  let outcomes := population.filter (inContext context)
  if outcomes = [] then return result
  let ci ← (deriveCiResolutionResult outcomes policy.ciResolution digest quarantineRevision
    (some context)).mapError .ciResolution
  let skipped : RecoverySkipReason → Nat := fun
    | .ciResolution reason => ci.skipped reason
    | _ => 0
  let found ← lineages (outcomeById outcomes) context ci.resolutions { skipped }
  let result := { result with
    skipped := fun reason => found.skipped reason + sources.attributionSkipped reason }
  (sortedBy LineageKey.sortKey found.byLineage.keys).foldlM
    (pairLineage context policy provenance sources found.byLineage) result

end

end Sediment.Derive.Recovery
