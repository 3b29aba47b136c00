import Sediment.Core.CiOutcome
import Sediment.Derive.RepositoryContext

namespace Sediment.Derive
open Sediment.Base Sediment.Core

structure SourceId where
  orgId : String
  outcomeId : String
  deriving DecidableEq

def sourceId (item : CIOutcome) : SourceId := ⟨item.orgId, item.outcomeId⟩

def outcomeOrder (item : CIOutcome) : Int ×ₗ String :=
  toLex (item.capturedAt.utc, item.outcomeId)

/-- Qualified CI attachments and declined source-outcome counts. -/
structure CIOutcomeIndexResult where
  outcomesByCommit : Dict CommitKey (List CIOutcome) := Dict.empty
  skipped : RepositorySkipReason → Nat := fun _ => 0
  declinedSources : Finset SourceId := ∅

def bump {ρ : Type} [DecidableEq ρ] (counts : ρ → Nat) (reason : ρ) (n : Nat) : ρ → Nat :=
  Function.update counts reason (counts reason + n)

section
variable [Interpreter]

def inContext (c : RepositoryContext) (item : CIOutcome) : Bool :=
  item.orgId = c.orgId ∧ item.capturedAt.utc ≤ c.asOf

/-- One organization's Facts as their own population. The projections are
validated while the context reads them. -/
def localContext (orgId : String) (population : List CIOutcome) :
    Except ContextError RepositoryContext := do
  if normalizeOrgId orgId = none then throw .invalidOrganization
  let evidence ← (population.take (repositoryIdentityLimit + 1)).mapM
    (fun item => validateEvidence item.project)
  buildRepositoryContext evidence [] orgId
    ((population.map (fun item => item.capturedAt.utc)).max?.getD 0)

def localContexts (outcomes : List CIOutcome) :
    Except ContextError (List (String × RepositoryContext)) :=
  (Dict.empty.gather (outcomes.map (fun item => (item.orgId, item)))).entries.mapM
    (fun (orgId, population) => (localContext orgId population).map (fun c => (orgId, c)))

/-- The key and the reason an outcome is attached or declined by. Without a
supplied context only legacy islands can resolve. -/
def attachment (contexts : List (String × RepositoryContext)) (supplied : Bool)
    (item : CIOutcome) : Option RepositoryKey × Option RepositorySkipReason :=
  match contexts.lookup item.orgId with
  | none => (none, none)
  | some c =>
    let resolved := c.resolveFact item.project
    match supplied, resolved.key with
    | false, some (.identified _ _) => (resolved.key, some .identityUnresolved)
    | _, _ => (resolved.key, resolved.reason)

def attach (contexts : List (String × RepositoryContext)) (supplied : Bool)
    (s : CIOutcomeIndexResult) (item : CIOutcome) : CIOutcomeIndexResult :=
  match attachment contexts supplied item with
  | (_, some reason) =>
    { s with
      skipped := bump s.skipped reason 1
      declinedSources := insert (sourceId item) s.declinedSources }
  | (some key, none) =>
    { s with outcomesByCommit := s.outcomesByCommit.push ⟨key, item.commitSha⟩ item }
  -- Every resolution has a key or a reason.
  | (none, none) => s

/-- A context declares organization and capture scope. -/
def scopedOutcomes (repositoryContext : Option RepositoryContext) (outcomes : List CIOutcome) :
    List CIOutcome :=
  match repositoryContext with
  | some c => outcomes.filter (inContext c)
  | none => outcomes

def indexCiOutcomesByCommitKeyResult (ciOutcomes : List CIOutcome)
    (repositoryContext : Option RepositoryContext) : Except ContextError CIOutcomeIndexResult := do
  let outcomes := scopedOutcomes repositoryContext ciOutcomes
  let contexts ← match repositoryContext with
    | some c => pure [(c.orgId, c)]
    | none => localContexts outcomes
  let grouped := outcomes.foldl (attach contexts repositoryContext.isSome) {}
  pure { grouped with
    outcomesByCommit := grouped.outcomesByCommit.mapValues (fun _ items =>
      sortedBy outcomeOrder items) }

end

structure CIResolutionPolicy where
  cleanReliability : ℚ := 1
  suspectedFlakeReliability : ℚ := 0
  nonVerdictReliability : ℚ := 1
  policyVersion : String := "2"

structure Provenance where
  policyVersion : String
  quarantineRevision : Nat
  policyDigest : String
  deriving DecidableEq

/-- One provider run lineage after ordering its observable attempts. -/
structure CIWorkflowResolution where
  provider : CIProvider
  runId : String
  workflowId : Option String
  workflowName : String
  workflowPath : Option String
  branch : String
  verdict : Option CIResult
  reliability : Option ℚ
  suspectedFlake : Bool
  sourceOutcomeIds : List String
  verdictOutcomeId : Option String
  nonVerdictOutcomeIds : List String
  deriving DecidableEq

/-- One commit's aggregate CI verdict, reliability, and exact evidence ids. -/
structure CIResolution where
  orgId : String
  repo : String
  commitSha : String
  verdict : Option CIResult
  reliability : Option ℚ
  suspectedFlake : Bool
  workflowResolutions : List CIWorkflowResolution
  sourceOutcomeIds : List String
  verdictOutcomeIds : List String
  nonVerdictOutcomeIds : List String
  provenance : Provenance
  repositoryIdentity : Option RepositoryIdentity
  deriving DecidableEq

inductive CIResolutionSkipReason where
  | conflictingRunIdentity | ambiguousWorkflowVerdicts
  | repository (reason : RepositorySkipReason)
  deriving DecidableEq

structure CIResolutionResult where
  resolutions : List CIResolution
  skipped : CIResolutionSkipReason → Nat
  conflictingCommitKeys : Finset CommitKey
  outcomesByCommit : Dict CommitKey (List CIOutcome)

def isVerdict : CIResult → Bool
  | .passed | .failed => true
  | _ => false

/-- CI provider and repository provider are distinct captured namespaces. ID
stays outside this key: one run cannot claim two repository lifetimes. -/
def runKey (outcome : CIOutcome) : List String :=
  match outcome.repositoryProvider with
  | some provider =>
    [outcome.orgId, outcome.provider.value, "identified", provider.value,
      outcome.repositoryHost.getD "", outcome.runId]
  | none => [outcome.orgId, outcome.provider.value, "legacy", "", "", outcome.runId]

def attemptOf (outcome : CIOutcome) : Nat := outcome.runAttempt.getD 0

structure RunIdentity where
  branch : String
  workflowId : Option String
  workflowName : String
  workflowPath : Option String
  deriving DecidableEq

def present (values : List String) : Finset String := (values.filter (· ≠ "")).toFinset

def runIdentity (outcomes : List CIOutcome) : Option RunIdentity :=
  let branches := (outcomes.map CIOutcome.branch).toFinset
  let workflowIds := present (outcomes.filterMap CIOutcome.workflowId)
  let workflowNames := present (outcomes.map CIOutcome.workflowName)
  let workflowPaths := present (outcomes.filterMap CIOutcome.workflowPath)
  let byAttempt := Dict.empty.collect (outcomes.map (fun o => (attemptOf o, o.result)))
  match onlyMember branches with
  | none => none
  | some branch =>
    if 1 < workflowIds.card ∨ 1 < workflowNames.card ∨ 1 < workflowPaths.card then none
    else if byAttempt.values.any (fun results => 1 < results.card) then none
    else some ⟨branch, onlyMember workflowIds, (onlyMember workflowNames).getD "",
      onlyMember workflowPaths⟩

def attemptOrder (outcome : CIOutcome) : Nat ×ₗ String :=
  toLex (attemptOf outcome, outcome.outcomeId)

/-- A same-attempt contradiction was declined before. The ID only selects a
stable evidence representative among equivalent copies of that attempt. -/
def resolveWorkflow (policy : CIResolutionPolicy) (identity : RunIdentity)
    (first : CIOutcome) (outcomes : List CIOutcome) : CIWorkflowResolution :=
  let ordered := sortedBy attemptOrder outcomes
  let verdictOutcomes := ordered.filter (fun o => isVerdict o.result)
  let last := verdictOutcomes.getLast?
  let suspectedFlake := 1 < (verdictOutcomes.map CIOutcome.result).toFinset.card
  let nonVerdicts := ordered.filter (fun o => !isVerdict o.result)
  let reliability :=
    if last.isSome then
      let r := if suspectedFlake then policy.suspectedFlakeReliability
        else policy.cleanReliability
      some (if nonVerdicts ≠ [] then min r policy.nonVerdictReliability else r)
    else if nonVerdicts ≠ [] then some policy.nonVerdictReliability
    else none
  { provider := first.provider
    runId := first.runId
    workflowId := identity.workflowId
    workflowName := identity.workflowName
    workflowPath := identity.workflowPath
    branch := identity.branch
    verdict := last.map CIOutcome.result
    reliability
    suspectedFlake
    sourceOutcomeIds := sortedBy id (outcomes.map CIOutcome.outcomeId)
    verdictOutcomeId := last.map CIOutcome.outcomeId
    nonVerdictOutcomeIds := sortedBy id (nonVerdicts.map CIOutcome.outcomeId) }

def workflowKey (resolution : CIWorkflowResolution) :
    String ×ₗ String ×ₗ String ×ₗ String ×ₗ String :=
  toLex (resolution.provider.value, toLex (resolution.workflowId.getD "",
    toLex (resolution.workflowPath.getD "", toLex (resolution.workflowName, resolution.runId))))

/-- What the loop over runs has gathered. -/
structure RunLedger where
  conflicting : Nat := 0
  conflictingCommitKeys : Finset CommitKey := ∅
  outcomesByCommit : Dict CommitKey (List CIOutcome) := Dict.empty
  byCommit : Dict CommitKey (List CIWorkflowResolution) := Dict.empty

/-- Every commit that some source of the run was attached to. -/
def runCommits (keysBySource : Dict SourceId (Finset CommitKey)) (runOutcomes : List CIOutcome) :
    Finset CommitKey :=
  runOutcomes.toFinset.biUnion (fun item => keysBySource.members (sourceId item))

def runVerdict (policy : CIResolutionPolicy) (keysBySource : Dict SourceId (Finset CommitKey))
    (runOutcomes : List CIOutcome) : Option (CommitKey × CIWorkflowResolution) := do
  let identity ← runIdentity runOutcomes
  let commit ← onlyMember (runCommits keysBySource runOutcomes)
  let first ← runOutcomes.head?
  pure (commit, resolveWorkflow policy identity first runOutcomes)

def resolveRun (policy : CIResolutionPolicy) (keysBySource : Dict SourceId (Finset CommitKey))
    (s : RunLedger) (runOutcomes : List CIOutcome) : RunLedger :=
  match runVerdict policy keysBySource runOutcomes with
  | some (commit, resolution) =>
    { s with
      -- Original Facts of complete consistent runs stay as evidence.
      outcomesByCommit := s.outcomesByCommit.alter commit (fun known =>
        sortedBy outcomeOrder (known.getD [] ++ runOutcomes))
      byCommit := s.byCommit.push commit resolution }
  | none =>
    { s with
      conflicting := s.conflicting + 1
      conflictingCommitKeys := s.conflictingCommitKeys ∪ runCommits keysBySource runOutcomes }

section
variable [Interpreter]

inductive CIError where
  | context (e : ContextError)
  | noLabel

def aggregateVerdict (workflows : List CIWorkflowResolution) : Option CIResult :=
  onlyMember (workflows.filterMap CIWorkflowResolution.verdict).toFinset

def ambiguous (workflows : List CIWorkflowResolution) : Bool :=
  1 < (workflows.filterMap CIWorkflowResolution.verdict).toFinset.card

def commitLabel (repositoryContext : Option RepositoryContext) (key : RepositoryKey) :
    Except CIError (String × Option RepositoryIdentity) :=
  match key with
  | .legacy _ repo => .ok (repo, none)
  | .identified _ identity =>
    match repositoryContext with
    | none => .error .noLabel
    | some c =>
      match c.repoFor key with
      | .ok repo => .ok (repo, some identity)
      | .error _ => .error .noLabel

def commitResolution (repositoryContext : Option RepositoryContext) (provenance : Provenance)
    (commit : CommitKey) (workflows : List CIWorkflowResolution) : Except CIError CIResolution := do
  let (repo, repositoryIdentity) ← commitLabel repositoryContext commit.repository
  let workflows := sortedBy workflowKey workflows
  let verdict := aggregateVerdict workflows
  pure
    { orgId := commit.repository.orgId
      repo
      commitSha := commit.commitSha
      verdict
      reliability :=
        if verdict.isSome then (workflows.filterMap CIWorkflowResolution.reliability).min?
        else none
      suspectedFlake := workflows.any CIWorkflowResolution.suspectedFlake
      workflowResolutions := workflows
      sourceOutcomeIds := sortedBy id (workflows.flatMap CIWorkflowResolution.sourceOutcomeIds)
      verdictOutcomeIds := sortedBy id (workflows.filterMap CIWorkflowResolution.verdictOutcomeId)
      nonVerdictOutcomeIds :=
        sortedBy id (workflows.flatMap CIWorkflowResolution.nonVerdictOutcomeIds)
      provenance
      repositoryIdentity }

/-- The commits each source was attached to. -/
def keysBySource (indexed : CIOutcomeIndexResult) : Dict SourceId (Finset CommitKey) :=
  Dict.empty.collect (indexed.outcomesByCommit.unroll.map (fun (commit, item) =>
    (sourceId item, commit)))

/-- A declined source prevents its run from becoming a falsely clean partial lineage. -/
def incompleteRuns (indexed : CIOutcomeIndexResult) (outcomes : List CIOutcome) :
    Finset (List String) :=
  ((outcomes.filter (fun item => sourceId item ∈ indexed.declinedSources ∨
    (keysBySource indexed).members (sourceId item) = ∅)).map runKey).toFinset

def byRun (outcomes : List CIOutcome) : Dict (List String) (List CIOutcome) :=
  Dict.empty.gather (outcomes.map (fun item => (runKey item, item)))

def completeRuns (indexed : CIOutcomeIndexResult) (outcomes : List CIOutcome) :
    List (List String) :=
  (sortedBy id (byRun outcomes).keys).filter (· ∉ incompleteRuns indexed outcomes)

/-- The loop over the complete runs in key order. -/
def runLedger (policy : CIResolutionPolicy) (indexed : CIOutcomeIndexResult)
    (outcomes : List CIOutcome) : RunLedger :=
  ((completeRuns indexed outcomes).map (byRun outcomes).listed).foldl
    (resolveRun policy (keysBySource indexed)) {}

/-- Resolve attempts within captured repository identity and forge instance.
`digest` is the policy's stable digest. -/
def deriveCiResolutionResult (outcomes : List CIOutcome) (policy : CIResolutionPolicy)
    (digest : CIResolutionPolicy → String) (quarantineRevision : Nat)
    (repositoryContext : Option RepositoryContext) : Except CIError CIResolutionResult := do
  let provenance : Provenance := ⟨policy.policyVersion, quarantineRevision, digest policy⟩
  let outcomes := scopedOutcomes repositoryContext outcomes
  let indexed ← (indexCiOutcomesByCommitKeyResult outcomes repositoryContext).mapError .context
  let ledger := runLedger policy indexed outcomes
  let resolutions ← (sortedBy commitSortKey ledger.byCommit.keys).mapM (fun commit =>
    commitResolution repositoryContext provenance commit (ledger.byCommit.listed commit))
  pure
    { resolutions
      skipped := fun
        | .conflictingRunIdentity => ledger.conflicting
        | .ambiguousWorkflowVerdicts =>
          (resolutions.filter (fun r => ambiguous r.workflowResolutions)).length
        | .repository reason => indexed.skipped reason
      conflictingCommitKeys := ledger.conflictingCommitKeys
      outcomesByCommit := ledger.outcomesByCommit }

end

end Sediment.Derive
