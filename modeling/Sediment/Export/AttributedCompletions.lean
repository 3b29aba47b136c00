import Sediment.Core.Decisions
import Sediment.Derive.CiResolution
import Sediment.Export.Rlvr

namespace Sediment.Derive
open Sediment.Core

section
variable [Interpreter]

/-- `CommitSha`: a full-length commit sha, stripped and lowered. -/
def normalizeCommitSha (v : String) : Option String :=
  let v := Interpreter.lower (strip v)
  if v.length ∈ [40, 64] ∧ v.toList.all (fun c => c.isDigit || ('a' ≤ c && c ≤ 'f')) then some v
  else none

def RepositoryContext.commitKey (c : RepositoryContext) (orgId repo commitSha : String)
    (identity : Option RepositoryIdentity) : Option CommitKey := do
  let key ← (c.resolveReference orgId repo identity).key
  let commitSha ← normalizeCommitSha commitSha
  some ⟨key, commitSha⟩

end

end Sediment.Derive

namespace Sediment.Export
open Sediment.Base Sediment.Core Sediment.Derive

inductive AttributionSource where
  | gitNotes | jaccard
  deriving DecidableEq, Repr

structure SessionAbandonment where
  orgId : String
  sessionId : String
  acceptedDecisions : Nat
  explicitAcceptedDecisions : Nat
  lastDecisionAt : AwareDatetime
  asOf : AwareDatetime
  provenance : Provenance
  deriving DecidableEq

/-- The first time a Git-note Session-to-commit edge is observed. -/
structure SessionCommitObservation where
  observationId : String
  orgId : String
  repo : String
  repositoryProvider : Option ForgeProvider
  repositoryHost : Option String
  repositoryId : Option String
  commitSha : String
  sessionId : String
  sourcePushId : String
  capturedAt : AwareDatetime
  deriving DecidableEq

/-- `_project_fact` of an observation. -/
def SessionCommitObservation.project (item : SessionCommitObservation) :
    RepositoryIdentityEvidence where
  sourceTable := .sessionCommitObservations
  sourceFactId := item.observationId
  role := .repo
  orgId := item.orgId
  repo := item.repo
  repositoryProvider := item.repositoryProvider
  repositoryHost := item.repositoryHost
  repositoryId := item.repositoryId
  capturedAt := item.capturedAt
  sourcePushId := some item.sourcePushId

structure CompletionFields where
  orgId : String
  sessionId : String
  inferenceCallId : String
  repo : Option String
  commitSha : Option String
  filePath : Option String
  similarityScore : Option ℚ
  attributionSource : Option AttributionSource
  decisions : List DeveloperDecision
  ciOutcomes : List CIOutcome
  provenance : Provenance
  split : Split
  abandonment : Option SessionAbandonment
  sessionCommitObservations : List SessionCommitObservation
  repositoryIdentity : Option RepositoryIdentity
  sourcePushId : Option String
  deriving DecidableEq

namespace CompletionFields

def attributed (row : CompletionFields) : Prop :=
  row.repo.isSome ∧ row.commitSha.isSome ∧ row.filePath.isSome ∧ row.similarityScore.isSome ∧
    row.attributionSource.isSome

def unattributed (row : CompletionFields) : Prop :=
  row.repo = none ∧ row.commitSha = none ∧ row.filePath = none ∧ row.similarityScore = none ∧
    row.attributionSource = none ∧ row.repositoryIdentity = none ∧ row.sourcePushId = none

/-- Abandonment evidence requires a joined explicit accepted decision. -/
def abandonedBy (row : CompletionFields) (abandonment : SessionAbandonment) : Prop :=
  row.unattributed ∧ row.orgId = abandonment.orgId ∧ row.sessionId = abandonment.sessionId ∧
    row.ciOutcomes = [] ∧ 1 ≤ abandonment.explicitAcceptedDecisions ∧
    ∃ d ∈ row.decisions, d.sessionId = row.sessionId ∧ d.accepted ∧ d.explicit

/-- Exactly one evidence variant, which `__post_init__` requires. -/
def oneVariant (row : CompletionFields) : Prop :=
  match row.abandonment with
  | none => row.attributed
  | some abandonment => row.abandonedBy abandonment

end CompletionFields

/-- `Field(ge=0.0, le=1.0)` of a decision's score. -/
def graded (decisions : List DeveloperDecision) : Prop :=
  ∀ d ∈ decisions, ∀ score, d.editRetentionScore = some score → 0 ≤ score ∧ score ≤ 1

/-- One resolved completion with its decisions, survival and reward. -/
structure AttributedCompletion extends CompletionFields where
  variant : toCompletionFields.oneVariant
  scores : graded decisions

theorem AttributedCompletion.decisions_ne_nil {row : AttributedCompletion}
    (h : row.abandonment.isSome) : row.decisions ≠ [] := by
  obtain ⟨abandonment, ha⟩ := Option.isSome_iff_exists.mp h
  have hvariant := row.variant
  simp only [CompletionFields.oneVariant, ha] at hvariant
  obtain ⟨-, -, -, -, -, d, hd, -⟩ := hvariant
  exact List.ne_nil_of_mem hd

def identitySortKey (row : CompletionFields) : List String :=
  match row.repositoryIdentity with
  | none => ["", "", ""]
  | some identity => [identity.provider.value, identity.host, identity.repositoryId]

abbrev EvidenceKey := Nat ×ₗ List String

/-- Order attribution rows as before, then abandonment rows by identity. -/
def evidenceSortKey (row : CompletionFields) : EvidenceKey :=
  if row.abandonment = none then
    toLex (0, identitySortKey row ++
      [row.repo.getD "", row.commitSha.getD "", row.filePath.getD "", row.inferenceCallId])
  else toLex (1, [row.sessionId, row.inferenceCallId, "", ""])

/-- Whether an observation is of the row's commit, in a context or by its own identity. -/
def observesCommit [Interpreter] (repositoryContext : Option RepositoryContext)
    (row : CompletionFields) (item : SessionCommitObservation) : Bool :=
  match repositoryContext with
  | some c =>
    match c.commitKey row.orgId (row.repo.getD "") (row.commitSha.getD "")
        row.repositoryIdentity with
    | some commit => (c.resolveFact item.project).key = some commit.repository
    | none => false
  | none =>
    repositoryIdentityOf item.project = row.repositoryIdentity ∧
      (row.repositoryIdentity.isSome ∨ some item.repo = row.repo)

/-- Original observation IDs on this row's qualified Session edge. -/
def sessionCommitObservationIds [Interpreter] (repositoryContext : Option RepositoryContext)
    (row : CompletionFields) : List String :=
  if row.abandonment.isSome then []
  else
    sortedSet ((row.sessionCommitObservations.filter (fun item =>
      item.orgId = row.orgId ∧ some item.commitSha = row.commitSha ∧
        item.sessionId = row.sessionId ∧ observesCommit repositoryContext row item)).map
          SessionCommitObservation.observationId).toFinset

end Sediment.Export
