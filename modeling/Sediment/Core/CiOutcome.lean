import Sediment.Core.Models

namespace Sediment.Core

inductive CIProvider where
  | githubActions | jenkins | gitlabCi | circleci | buildkite | other
  deriving DecidableEq, Repr

def CIProvider.value : CIProvider → String
  | .githubActions => "github_actions"
  | .jenkins => "jenkins"
  | .gitlabCi => "gitlab_ci"
  | .circleci => "circleci"
  | .buildkite => "buildkite"
  | .other => "other"

inductive CIResult where
  | passed | failed | error | timedOut | cancelled | skipped | neutral | unknown
  deriving DecidableEq, Repr

def CIResult.value : CIResult → String
  | .passed => "passed"
  | .failed => "failed"
  | .error => "error"
  | .timedOut => "timed_out"
  | .cancelled => "cancelled"
  | .skipped => "skipped"
  | .neutral => "neutral"
  | .unknown => "unknown"

theorem CIResult.value_injective : Function.Injective CIResult.value := by
  intro a b h
  cases a <;> cases b <;> first | rfl | (exact absurd h (by decide))

/-- One provider-observed terminal CI pipeline run attempt. No derivation here
reads `raw`, but a result returns it with the outcome. -/
structure CIOutcome where
  outcomeId : String
  orgId : String
  provider : CIProvider
  runId : String
  runAttempt : Option Nat
  repo : String
  commitSha : String
  branch : String
  result : CIResult
  workflowName : String
  workflowId : Option String
  workflowPath : Option String
  capturedAt : AwareDatetime
  repositoryProvider : Option ForgeProvider
  repositoryHost : Option String
  repositoryId : Option String
  raw : String
  deriving DecidableEq, Repr

/-- `_project_fact` of a CI outcome. -/
def CIOutcome.project (item : CIOutcome) : RepositoryIdentityEvidence where
  sourceTable := .ciOutcomes
  sourceFactId := item.outcomeId
  role := .repo
  orgId := item.orgId
  repo := item.repo
  repositoryProvider := item.repositoryProvider
  repositoryHost := item.repositoryHost
  repositoryId := item.repositoryId
  capturedAt := item.capturedAt
  sourcePushId := none

end Sediment.Core
