import Sediment.Base.Dict
import Sediment.Base.Ordering
import Sediment.Base.Queries
import Sediment.Core.Models

namespace Sediment.Core
open Sediment.Base

/-- The repository columns of one role of a stored row. -/
structure RepositoryColumns where
  repo : String
  repositoryProvider : Option ForgeProvider
  repositoryHost : Option String
  repositoryId : Option String
  deriving DecidableEq, Repr

/-- A stored row of a table with repository columns. The `head_repo` columns
mean something only for pull requests, and `sourcePushId` only for observations. -/
structure StoredFact where
  table : FactTable
  factId : String
  orgId : String
  repo : RepositoryColumns
  headRepo : RepositoryColumns
  capturedAt : AwareDatetime
  sourcePushId : Option String
  deriving DecidableEq, Repr

def StoredFact.columns (fact : StoredFact) : RepositoryRole → RepositoryColumns
  | .repo => fact.repo
  | .headRepo => fact.headRepo

inductive QuarantineAction where
  | quarantine | release
  deriving DecidableEq, Repr

structure FactQuarantine where
  quarantineRevision : Nat
  orgId : String
  factTable : FactTable
  factId : String
  action : QuarantineAction

def sourceRoles : List (FactTable × RepositoryRole) :=
  [(.pushes, .repo), (.ciOutcomes, .repo), (.sessionCommitObservations, .repo),
    (.pullRequestMerges, .repo), (.pullRequestMerges, .headRepo),
    (.pullRequestRevisions, .repo), (.pullRequestRevisions, .headRepo)]

/-- The stored repository Facts, under the primary keys of their tables and the
delivery index of `repository_renames`. -/
structure RepositoryStore where
  facts : List StoredFact
  renames : List RepositoryRename
  quarantine : List FactQuarantine
  primaryKey : facts.Pairwise (fun a b => a.table = b.table → a.factId ≠ b.factId)
  renameKey : renames.Pairwise (fun a b => a.renameId ≠ b.renameId)
  renameDelivery : ∀ a ∈ renames, ∀ b ∈ renames, a.orgId = b.orgId →
    a.repositoryProvider = b.repositoryProvider → a.repositoryHost = b.repositoryHost →
    a.sourceEventId.isSome → a.sourceEventId = b.sourceEventId → a = b

inductive ReadError where
  | invalidOrganization | invalidBounds | invalidSourceKey | limitExceeded
  deriving DecidableEq, Repr

def repositoryReadBounds (limit : Nat) : Except ReadError Unit :=
  if 1 ≤ limit ∧ limit ≤ repositoryIdentityLimit then pure () else throw .invalidBounds

/-- `_bounded_fact_rows`: one row past the limit is an error, not a truncation. -/
def boundedRows {α : Type} (limit : Nat) (rows : List α) : Except ReadError (List α) :=
  let rows := rows.take (limit + 1)
  if limit < rows.length then throw .limitExceeded else pure rows

def evidenceReadKey (row : RepositoryIdentityEvidence) :
    Int ×ₗ String ×ₗ String ×ₗ String :=
  toLex (row.capturedAt.utc, toLex (row.sourceTable.value, toLex (row.sourceFactId, row.role.value)))

/-- `_repository_projection_columns` and `_repository_evidence`. -/
def repositoryEvidence (fact : StoredFact) (role : RepositoryRole) : RepositoryIdentityEvidence :=
  let columns := fact.columns role
  { sourceTable := fact.table
    sourceFactId := fact.factId
    role
    orgId := fact.orgId
    repo := columns.repo
    repositoryProvider := columns.repositoryProvider
    repositoryHost := columns.repositoryHost
    repositoryId := columns.repositoryId
    capturedAt := fact.capturedAt
    sourcePushId :=
      if fact.table = .sessionCommitObservations then fact.sourcePushId else none }

/-- What makes two rows one witness: the columns of the role and, for an
observation, whether its push is there and the columns of that push. -/
structure WitnessState where
  columns : RepositoryColumns
  anchor : Option RepositoryColumns
  deriving DecidableEq

namespace RepositoryStore
variable (s : RepositoryStore) (orgId : String) (capturedThrough : Int)

def latestAction (orgId : String) (table : FactTable) (factId : String) :
    Option QuarantineAction :=
  ((sortedBy FactQuarantine.quarantineRevision (s.quarantine.filter (fun q =>
    q.orgId = orgId ∧ q.factTable = table ∧ q.factId = factId))).getLast?).map
      FactQuarantine.action

/-- `_fact_conditions` without quarantined Facts, up to the capture boundary. -/
def visible (table : FactTable) : List StoredFact :=
  s.facts.filter (fun f => f.table = table ∧ f.orgId = orgId ∧
    s.latestAction f.orgId table f.factId ≠ some .quarantine ∧
    f.capturedAt.utc ≤ capturedThrough)

def visibleRenames : List RepositoryRename :=
  s.renames.filter (fun r => r.orgId = orgId ∧
    s.latestAction r.orgId .repositoryRenames r.renameId ≠ some .quarantine ∧
    r.capturedAt.utc ≤ capturedThrough)

section
variable [Collation]

def capturedOrder (a b : StoredFact) : Bool :=
  a.capturedAt.utc < b.capturedAt.utc ||
    (a.capturedAt.utc == b.capturedAt.utc && Collation.le a.factId b.factId)

def appendWithin (limit : Nat) (result : List RepositoryIdentityEvidence)
    (row : RepositoryIdentityEvidence) : Except ReadError (List RepositoryIdentityEvidence) :=
  let result := result ++ [row]
  if limit < result.length then throw .limitExceeded else pure result

def readRepositoryTable (limit : Nat) (result : List RepositoryIdentityEvidence)
    (source : FactTable × RepositoryRole) : Except ReadError (List RepositoryIdentityEvidence) :=
  let rows := orderBy capturedOrder (s.visible orgId capturedThrough source.1)
  ((rows.take (limit + 1 - result.length)).map (repositoryEvidence · source.2)).foldlM
    (appendWithin limit) result

def readRepositoryIdentities (limit : Nat) :
    Except ReadError (List RepositoryIdentityEvidence) := do
  repositoryReadBounds limit
  let result ← sourceRoles.foldlM (s.readRepositoryTable orgId capturedThrough limit) []
  pure (sortedBy evidenceReadKey result)

def readRepositoryRenames (limit : Nat) : Except ReadError (List RepositoryRename) := do
  repositoryReadBounds limit
  boundedRows limit (orderBy (fun a b => a.capturedAt.utc < b.capturedAt.utc ||
    (a.capturedAt.utc == b.capturedAt.utc && Collation.le a.renameId b.renameId))
    (s.visibleRenames orgId capturedThrough))

/-- The eligible source push of an observation, from the outer join. -/
def anchor (fact : StoredFact) : Option StoredFact :=
  if fact.table = .sessionCommitObservations then
    (s.visible orgId capturedThrough .pushes).find? (fun push =>
      some push.factId = fact.sourcePushId)
  else none

def witnessState (role : RepositoryRole) (fact : StoredFact) : WitnessState :=
  ⟨fact.columns role, (s.anchor orgId capturedThrough fact).map StoredFact.repo⟩

/-- A requested key as its adapter leaves it, or `none` where that raises. -/
def validateSourceKey (key : SourceKey) : Option SourceKey := do
  let factId ← nonEmptyId key.factId
  if (key.table, key.role) ∈ sourceRoles then some { key with factId } else none

/-- The rows the queries of one table and role return. Ordering by the state
first brings equal states together; the primary key picks among them. -/
def witnessRows (sourceKeys : Finset SourceKey) (table : FactTable) (role : RepositoryRole) :
    List (List StoredFact) :=
  let rows := orderBy (fun a b => Collation.le a.factId b.factId)
    (s.visible orgId capturedThrough table)
  let requested (fact : StoredFact) : Bool :=
    ∃ key ∈ sourceKeys, validateSourceKey key = some ⟨table, fact.factId, role⟩
  distinctOn (s.witnessState orgId capturedThrough role) rows ::
    if ∃ key ∈ sourceKeys, key.table = table ∧ key.role = role then [rows.filter requested] else []

/-- A returned row with the push its observation rests on. -/
def retained (role : RepositoryRole) (fact : StoredFact) : List RepositoryIdentityEvidence :=
  repositoryEvidence fact role ::
    ((s.anchor orgId capturedThrough fact).map (repositoryEvidence · .repo)).toList

def retain (limit : Nat) (sources : Dict SourceKey RepositoryIdentityEvidence)
    (item : RepositoryIdentityEvidence) :
    Except ReadError (Dict SourceKey RepositoryIdentityEvidence) :=
  let sources := sources.set (sourceKey item) item
  if limit < sources.entries.length then throw .limitExceeded else pure sources

/-- The columns that make two renames one witness. -/
def renameState (row : RepositoryRename) : ForgeProvider × String × String × String × String :=
  (row.repositoryProvider, row.repositoryHost, row.repositoryId, row.oldRepo, row.newRepo)

def checkSourceKeys (sourceKeys : Finset SourceKey) : Except ReadError Unit :=
  if repositoryIdentityLimit < sourceKeys.card then throw .limitExceeded
  else if ∃ key ∈ sourceKeys, validateSourceKey key = none then throw .invalidSourceKey
  else pure ()

/-- The rows of every query, in the order the read meets them. -/
def witnessItems (sourceKeys : Finset SourceKey) (limit : Nat) :
    List RepositoryIdentityEvidence :=
  sourceRoles.flatMap (fun (table, role) =>
    (s.witnessRows orgId capturedThrough sourceKeys table role).flatMap (fun rows =>
      (rows.take (limit + 1)).flatMap (s.retained orgId capturedThrough role)))

def readRepositoryContextWitnesses [Interpreter] (rawOrg : String) (capturedThrough : Int)
    (sourceKeys : Finset SourceKey) (limit : Nat) :
    Except ReadError (List RepositoryIdentityEvidence × List RepositoryRename) := do
  let orgId ← (normalizeOrgId rawOrg).elim (throw .invalidOrganization) pure
  repositoryReadBounds limit
  checkSourceKeys sourceKeys
  let sources ← (s.witnessItems orgId capturedThrough sourceKeys limit).foldlM (retain limit)
    Dict.empty
  let renames ← boundedRows limit (distinctOn renameState
    (orderBy (fun a b => Collation.le a.renameId b.renameId)
      (s.visibleRenames orgId capturedThrough)))
  pure (sortedBy evidenceReadKey sources.values,
    sortedBy (fun r => toLex (r.capturedAt.utc, r.renameId)) renames)

end

end RepositoryStore

end Sediment.Core
