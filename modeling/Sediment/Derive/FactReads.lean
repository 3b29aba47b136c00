import Sediment.Core.CallStore
import Sediment.Core.Datetime
import Sediment.Export.AttributedCompletions

namespace Sediment.Derive
open Sediment.Base Sediment.Core
open Sediment.Export (SessionCommitObservation)

/-- The fields of a Push that its commits and its windows need. -/
structure Push where
  pushId : String
  orgId : String
  repo : String
  repositoryProvider : Option ForgeProvider
  repositoryHost : Option String
  repositoryId : Option String
  beforeSha : String
  afterSha : String
  forced : Bool
  capturedAt : AwareDatetime
  deriving DecidableEq

/-- `_project_fact` of a Push. -/
def Push.project (push : Push) : RepositoryIdentityEvidence where
  sourceTable := .pushes
  sourceFactId := push.pushId
  role := .repo
  orgId := push.orgId
  repo := push.repo
  repositoryProvider := push.repositoryProvider
  repositoryHost := push.repositoryHost
  repositoryId := push.repositoryId
  capturedAt := push.capturedAt
  sourcePushId := none

/-- Pushes by capture time, then by identity. -/
def pushOrder (push : Push) : Int ×ₗ String := toLex (push.capturedAt.utc, push.pushId)

/-- One repeatable-read view of the store. The tables share their quarantine records,
and every stored Push is evidence of its repository. -/
structure Snapshot where
  repositories : RepositoryStore
  calls : CallStore
  pushes : List Push
  observations : List SessionCommitObservation
  quarantined : calls.quarantine = repositories.quarantine
  pushKey : pushes.Pairwise (fun a b => a.pushId ≠ b.pushId)
  pushRows : ∀ push ∈ pushes, ∃ fact ∈ repositories.facts, fact.table = .pushes ∧
    repositoryEvidence fact .repo = push.project
  observedBefore : ∀ call ∈ calls.calls, call.observedAt.utc ≤ wallMax

/-- The octets that one read of candidates may decode. -/
def inferenceProjectionBytesLimit : Nat := 256 * 1024 * 1024

/-- Named Sessions with the window their calls are read from. -/
structure NoteWindow where
  sessionIds : Finset String
  lower : Int
  upper : Int

def observedWithin (lower upper : Int) (call : InferenceCall) : Bool :=
  lower ≤ call.observedAt.utc && call.observedAt.utc ≤ upper

/-- The calls of the named Sessions inside a window, once the names are validated. -/
def namedWithin (window : NoteWindow) : Except CallReadError (InferenceCall → Bool) := do
  let identifiers ← validatedIdentityFilter window.sessionIds
  if window.upper < window.lower then throw .invalidLimit
  pure (fun call => identifiers.contains call.sessionId &&
    observedWithin window.lower window.upper call)

def candidateBounds (lower upper : Int) (limit : Option Nat) : Except CallReadError Unit :=
  if upper < lower ∨ limit = some 0 then throw .invalidLimit else pure ()

/-- `_check_inference_payload_budget` -/
def checkInferencePayloadBudget [StoredBytes] (limit : Option Nat) (rows : List InferenceCall) :
    Except CallReadError Unit :=
  if limit.any (· < rows.length) then throw .limitExceeded
  else if rows.any (fun call => inferenceCallRowBytesLimit < StoredBytes.outputMessages call) then
    throw .limitExceeded
  else if inferenceProjectionBytesLimit < (rows.map StoredBytes.outputMessages).sum then
    throw .limitExceeded
  else pure ()

inductive ContextReadError where
  | read (e : ReadError)
  | build (e : ContextError)
  | supplementLimit | identifiedSupplement
  deriving DecidableEq

namespace Snapshot
variable (s : Snapshot)

def quarantineRevision (orgId : String) : Nat :=
  ((s.repositories.quarantine.filter (·.orgId = orgId)).map
    FactQuarantine.quarantineRevision).foldl max 0

section
variable [Collation]

def readPushes (orgId : String) : List Push :=
  orderBy (fun a b => a.capturedAt.utc < b.capturedAt.utc ||
    (a.capturedAt.utc == b.capturedAt.utc && Collation.le a.pushId b.pushId))
    (s.pushes.filter (fun push => push.orgId = orgId ∧
      s.repositories.latestAction orgId .pushes push.pushId ≠ some .quarantine))

/-- The order of the rows is not modelled: a binding sorts its own. -/
def readSessionCommitObservations (orgId : String) (asOf : Int) : List SessionCommitObservation :=
  s.observations.filter (fun item => item.orgId = orgId ∧
    s.repositories.latestAction orgId .sessionCommitObservations item.observationId ≠
      some .quarantine ∧
    item.capturedAt.utc ≤ asOf)

/-- `read_attribution_candidates` -/
def readAttributionCandidates [Interpreter] [StoredBytes] (rawOrg : String) (lower upper : Int)
    (limit : Option Nat) (notes : Option NoteWindow) :
    Except CallReadError (List InferenceCall) := do
  let orgId ← (normalizeOrgId rawOrg).elim (throw .invalidOrganization) pure
  candidateBounds lower upper limit
  let named ← notes.elim (pure (fun _ => false)) namedWithin
  let rows := orderBy (fun a b => a.observedAt.utc < b.observedAt.utc ||
      (a.observedAt.utc == b.observedAt.utc && Collation.le a.inferenceCallId b.inferenceCallId))
    (s.calls.calls.filter (fun call => call.orgId = orgId ∧
      s.calls.latestAction call ≠ some .quarantine ∧
      (observedWithin lower upper call || named call)))
  checkInferencePayloadBudget limit rows
  pure rows

end

end Snapshot

section
variable [Collation] [Interpreter]

/-- Supplements that the store does not hold already. -/
def newSupplements (evidence supplements : List RepositoryIdentityEvidence) :
    List RepositoryIdentityEvidence :=
  supplements.filter (fun row =>
    !(evidence.map evidenceSignature).contains (evidenceSignature row))

/-- The last capture among an organization's repository Facts. -/
def lastCapture (orgId : String) (evidence : List RepositoryIdentityEvidence)
    (renames : List RepositoryRename) : Int :=
  (((evidence.filter (·.orgId = orgId)).map (·.capturedAt.utc)) ++
    ((renames.filter (·.orgId = orgId)).map (·.capturedAt.utc))).foldl max wallMin

/-- Supplements are validated legacy evidence, read one past the limit. -/
def readSupplements (supplements : List RepositoryIdentityEvidence) :
    Except ContextReadError (List RepositoryIdentityEvidence) :=
  let supplements := supplements.take (repositoryIdentityLimit + 1)
  if repositoryIdentityLimit < supplements.length then throw .supplementLimit
  else do
    let supplements ← (supplements.mapM validateEvidence).mapError .build
    if supplements.any (fun row => row.repositoryProvider.isSome || row.repositoryHost.isSome ||
        row.repositoryId.isSome) then
      throw .identifiedSupplement
    else pure supplements

/-- `read_repository_context` -/
def readRepositoryContext (s : RepositoryStore) (orgId : String) (asOf : Option Int)
    (supplements : List RepositoryIdentityEvidence) :
    Except ContextReadError RepositoryContext := do
  let through := asOf.getD wallMax
  let evidence ←
    (s.readRepositoryIdentities orgId through repositoryIdentityLimit).mapError .read
  let renames ← (s.readRepositoryRenames orgId through repositoryIdentityLimit).mapError .read
  let supplements ← readSupplements supplements
  let evidence := evidence ++ newSupplements evidence supplements
  let boundary := asOf.getD (lastCapture orgId evidence renames)
  (buildRepositoryContext evidence renames orgId boundary).mapError .build

/-- What preloaded Pushes without an identity add to the stored evidence. -/
def legacySupplements (pushes : Option (List Push)) : List RepositoryIdentityEvidence :=
  ((pushes.getD []).filter (·.repositoryId = none)).map Push.project

end

end Sediment.Derive
