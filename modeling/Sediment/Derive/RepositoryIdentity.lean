import Sediment.Base.Ordering
import Sediment.Base.Dict
import Sediment.Core.Models

namespace Sediment.Derive
open Sediment.Base Sediment.Core

inductive RepositorySkipReason where
  | identityAbsent | identityUnresolved | identityConflict | sourceAbsent
  | mirrorIdentityUnresolved
  deriving DecidableEq, Repr

def RepositorySkipReason.value : RepositorySkipReason → String
  | .identityAbsent => "repository_identity_absent"
  | .identityUnresolved => "repository_identity_unresolved"
  | .identityConflict => "repository_identity_conflict"
  | .sourceAbsent => "repository_source_absent"
  | .mirrorIdentityUnresolved => "repository_mirror_identity_unresolved"

structure RepositoryIdentity where
  provider : ForgeProvider
  host : String
  repositoryId : String
  deriving DecidableEq, Repr

inductive RepositoryKey where
  | identified (orgId : String) (identity : RepositoryIdentity)
  | legacy (orgId : String) (repo : String)
  deriving DecidableEq, Repr

structure CommitKey where
  repository : RepositoryKey
  commitSha : String
  deriving DecidableEq, Repr

structure RepositoryResolution where
  key : Option RepositoryKey := none
  repo : Option String := none
  reason : Option RepositorySkipReason := none
  evidence : List RepositoryIdentityEvidence := []
  deriving DecidableEq, Repr

/-- The captured identity, absent unless all three components are there. A
partial identity is refused by `validateEvidence` before this is asked. -/
def repositoryIdentityOf (row : RepositoryIdentityEvidence) : Option RepositoryIdentity :=
  match row.repositoryProvider, row.repositoryHost, row.repositoryId with
  | some provider, some host, some repositoryId => some ⟨provider, host, repositoryId⟩
  | _, _, _ => none

def partialIdentity (row : RepositoryIdentityEvidence) : Bool :=
  let present := [row.repositoryProvider.isSome, row.repositoryHost.isSome, row.repositoryId.isSome]
  present.any id && !present.all id

def renameIdentityOf (row : RepositoryRename) : RepositoryIdentity :=
  ⟨row.repositoryProvider, row.repositoryHost, row.repositoryId⟩

def RepositoryKey.orgId : RepositoryKey → String
  | .identified orgId _ => orgId
  | .legacy orgId _ => orgId

def repositorySortKey : RepositoryKey → List String
  | .identified orgId identity =>
    [orgId, "identified", identity.provider.value, identity.host, identity.repositoryId]
  | .legacy orgId repo => [orgId, "legacy", repo]

def commitSortKey (key : CommitKey) : List String :=
  repositorySortKey key.repository ++ [key.commitSha]

/-- Every field two copies of one source must agree on. The capture time is
compared as an instant. -/
structure EvidenceSignature where
  source : SourceKey
  orgId : String
  repo : String
  repositoryProvider : Option ForgeProvider
  repositoryHost : Option String
  repositoryId : Option String
  capturedAt : Int
  sourcePushId : Option String
  deriving DecidableEq, Repr

def evidenceSignature (row : RepositoryIdentityEvidence) : EvidenceSignature :=
  ⟨sourceKey row, row.orgId, row.repo, row.repositoryProvider, row.repositoryHost,
    row.repositoryId, row.capturedAt.utc, row.sourcePushId⟩

def evidenceSortKey (row : RepositoryIdentityEvidence) :
    Int ×ₗ String ×ₗ String ×ₗ String :=
  toLex (row.capturedAt.utc, toLex (row.sourceTable.value, toLex (row.sourceFactId, row.role.value)))

/-- Equivalent copies may spell the same instant with different UTC offsets. -/
def evidenceRepresentationKey (row : RepositoryIdentityEvidence) : String ×ₗ String ×ₗ Nat :=
  toLex (row.capturedAt.isoformat, toLex (row.capturedAt.tzinfo, row.capturedAt.fold))

inductive ContextError where
  | invalidOrganization | populationLimit | invalidEvidence | invalidRename
  deriving DecidableEq, Repr

def evidenceTables : List FactTable :=
  [.pushes, .ciOutcomes, .sessionCommitObservations, .pullRequestMerges, .pullRequestRevisions]

section
variable [Interpreter]

/-- The typed projection of a row, or `none` where a field's validator raises. -/
def evidenceModel (row : RepositoryIdentityEvidence) : Option RepositoryIdentityEvidence := do
  guard (row.sourceTable ∈ evidenceTables)
  let sourceFactId ← nonEmptyId row.sourceFactId
  let orgId ← normalizeOrgId row.orgId
  let repo ← normalizeRepoSlug row.repo
  let repositoryHost ← row.repositoryHost.mapM forgeHost
  let repositoryId ← row.repositoryId.mapM providerRepositoryId
  let sourcePushId ← row.sourcePushId.mapM nonEmptyId
  pure { row with sourceFactId, orgId, repo, repositoryHost, repositoryId, sourcePushId }

def validateEvidence (row : RepositoryIdentityEvidence) :
    Except ContextError RepositoryIdentityEvidence :=
  match evidenceModel row with
  | none => .error .invalidEvidence
  | some validated =>
    if partialIdentity validated then .error .invalidEvidence
    else if validated.role = .headRepo ∧
        validated.sourceTable ∉ [.pullRequestMerges, .pullRequestRevisions] then
      .error .invalidEvidence
    else if decide (validated.sourceTable = .sessionCommitObservations) !=
        validated.sourcePushId.isSome then
      .error .invalidEvidence
    else if evidenceSignature row ≠ evidenceSignature validated then .error .invalidEvidence
    else .ok validated

def validateRename (row : RepositoryRename) : Except ContextError RepositoryRename :=
  let validated : Option RepositoryRename := do
    let renameId ← nonEmptyId row.renameId
    let orgId ← normalizeOrgId row.orgId
    let repositoryHost ← forgeHost row.repositoryHost
    let repositoryId ← providerRepositoryId row.repositoryId
    let oldRepo ← requiredRepoSlug row.oldRepo
    let newRepo ← requiredRepoSlug row.newRepo
    let sourceEventId ← row.sourceEventId.mapM nonEmptyId
    guard (oldRepo ≠ "" ∧ newRepo ≠ "" ∧ oldRepo ≠ newRepo)
    pure { row with renameId, orgId, repositoryHost, repositoryId, oldRepo, newRepo, sourceEventId }
  match validated with
  | none => .error .invalidRename
  | some row => .ok row

end

/-- Immutable lookups over one organization's population. -/
structure RepositoryContext where
  orgId : String
  asOf : Int
  skipped : RepositorySkipReason → Nat
  renameSkipped : RepositorySkipReason → Nat
  sources : Dict SourceKey RepositoryIdentityEvidence
  resolutions : Dict SourceKey RepositoryResolution
  names : Dict RepositoryKey (List String)
  claims : Dict String (Finset RepositoryIdentity)
  unsafeSlugs : Finset String

namespace RepositoryContext

def resolveSource (c : RepositoryContext) (table : FactTable) (factId : String)
    (role : RepositoryRole) : RepositoryResolution :=
  (c.resolutions.get? ⟨table, factId, role⟩).getD { reason := some .sourceAbsent }

def observedRepoSlugs (c : RepositoryContext) (key : RepositoryKey) : List String :=
  (c.names.get? key).getD []

def repositoryKeys (c : RepositoryContext) : List RepositoryKey :=
  sortedBy repositorySortKey c.names.keys

section
variable [Interpreter]

/-- Require the supplied projection to match its source completely. -/
def resolveFact (c : RepositoryContext) (fact : RepositoryIdentityEvidence) :
    RepositoryResolution :=
  match validateEvidence fact with
  | .error _ => { reason := some .identityConflict }
  | .ok projection =>
    let result := c.resolveSource projection.sourceTable projection.sourceFactId projection.role
    if result.reason = some .identityConflict then result
    else
      match c.sources.get? (sourceKey projection) with
      | none => { reason := some .sourceAbsent }
      | some row =>
        if evidenceSignature projection ≠ evidenceSignature row then
          { reason := some .identityConflict }
        else result

def resolveReference (c : RepositoryContext) (orgId repo : String)
    (identity : Option RepositoryIdentity) : RepositoryResolution :=
  match normalizeOrgId orgId, normalizeRepoSlug repo with
  | some orgId, some repo =>
    if orgId ≠ c.orgId then { reason := some .identityUnresolved }
    else if repo = "" then { reason := some .identityAbsent }
    else
      match identity with
      | none =>
        if c.claims.contains repo ∨ repo ∈ c.unsafeSlugs then
          { reason := some .identityUnresolved }
        else { key := some (.legacy orgId repo), repo := some repo }
      | some identity =>
        let key := RepositoryKey.identified orgId identity
        let names := (c.names.get? key).getD []
        if repo ∈ names then { key := some key, repo := names.head? }
        else { reason := some .identityUnresolved }
  | _, _ => { reason := some .identityUnresolved }

inductive SelectError where
  | invalid | undeclaredLabel | absentSelector | ambiguous
  deriving DecidableEq, Repr

/-- Resolve an operator selector without assigning identity to legacy Facts. -/
def selectRepository (c : RepositoryContext) (orgId : String) (repo : Option String)
    (identity : Option RepositoryIdentity) : Except SelectError (Option RepositoryKey) :=
  match normalizeOrgId orgId, repo.mapM requiredRepoSlug with
  | some orgId, some repo =>
    if orgId ≠ c.orgId then .ok none
    else
      match identity with
      | some identity =>
        let key := RepositoryKey.identified orgId identity
        let names := c.observedRepoSlugs key
        if names = [] then .ok none
        else if repo.any (· ∉ names) then .error .undeclaredLabel
        else .ok (some key)
      | none =>
        match repo with
        | none => .error .absentSelector
        | some repo =>
          let claims := c.claims.members repo
          if repo ∈ c.unsafeSlugs ∨ 1 < claims.card then .error .ambiguous
          else
            match onlyMember claims with
            | some identity =>
              let key := RepositoryKey.identified orgId identity
              if repo ∈ c.observedRepoSlugs key then .ok (some key) else .error .ambiguous
            | none => .ok (some (.legacy orgId repo))
  | _, _ => .error .invalid

inductive LabelError where
  | noEligibleLabel
  deriving DecidableEq, Repr

def repoFor (c : RepositoryContext) (key : RepositoryKey) : Except LabelError String :=
  match key with
  | .legacy orgId repo =>
    let resolved := c.resolveReference orgId repo none
    if resolved.key = some key then
      match resolved.repo with
      | some label => .ok label
      | none => .error .noEligibleLabel
    else .error .noEligibleLabel
  | .identified _ _ =>
    match c.observedRepoSlugs key with
    | label :: _ => .ok label
    | [] => .error .noEligibleLabel

end

end RepositoryContext

end Sediment.Derive
