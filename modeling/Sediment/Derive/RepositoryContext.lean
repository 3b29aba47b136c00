import Sediment.Derive.RepositoryIdentity

namespace Sediment.Derive
open Sediment.Base Sediment.Core

/-- Effective identity and exact proof, or one source failure. -/
structure SourceIdentity where
  identity : Option RepositoryIdentity
  proof : List RepositoryIdentityEvidence
  reason : Option RepositorySkipReason

def sourceIdentity (row : RepositoryIdentityEvidence)
    (sources : Dict SourceKey RepositoryIdentityEvidence) (conflicts : Finset SourceKey) :
    SourceIdentity :=
  let identity := repositoryIdentityOf row
  if row.sourceTable ≠ .sessionCommitObservations then ⟨identity, [row], none⟩
  else
    -- `validateEvidence` gives every observation a push to name.
    let pushKey : SourceKey := ⟨.pushes, row.sourcePushId.getD "", .repo⟩
    if pushKey ∈ conflicts then ⟨none, [row], some .identityConflict⟩
    else
      match sources.get? pushKey with
      | none => ⟨identity, [row], if identity.isSome then some .sourceAbsent else none⟩
      | some push =>
        let proof := sortedBy evidenceSortKey [row, push]
        match repositoryIdentityOf push with
        | none =>
          if identity.isSome then ⟨none, proof, some .identityUnresolved⟩
          else if row.repo ≠ push.repo then ⟨none, proof, some .identityConflict⟩
          else ⟨none, proof, none⟩
        | some sourceIdentity =>
          if identity.isSome ∧ identity ≠ some sourceIdentity then
            ⟨none, proof, some .identityConflict⟩
          else ⟨some sourceIdentity, proof, none⟩

/-- What one pass over the evidence keeps of each source. -/
structure EvidenceScan where
  sources : Dict SourceKey RepositoryIdentityEvidence := Dict.empty
  conflicts : Finset SourceKey := ∅
  sourceCopies : Dict SourceKey (List RepositoryIdentityEvidence) := Dict.empty

namespace EvidenceScan

def add (s : EvidenceScan) (row : RepositoryIdentityEvidence) : EvidenceScan :=
  let key := sourceKey row
  { conflicts :=
      match s.sources.get? key with
      | some kept =>
        if evidenceSignature kept ≠ evidenceSignature row then insert key s.conflicts
        else s.conflicts
      | none => s.conflicts
    sources :=
      match s.sources.get? key with
      | some kept =>
        if evidenceRepresentationKey row < evidenceRepresentationKey kept then
          s.sources.set key row
        else s.sources
      | none => s.sources.set key row
    sourceCopies := s.sourceCopies.push key row }

def run (rows : List RepositoryIdentityEvidence) : EvidenceScan :=
  rows.foldl add {}

/-- The sources left once those with conflicting copies are dropped. -/
def sound (s : EvidenceScan) : Dict SourceKey RepositoryIdentityEvidence :=
  s.sources.filter (fun key _ => key ∉ s.conflicts)

def resolve (s : EvidenceScan) (row : RepositoryIdentityEvidence) : SourceIdentity :=
  sourceIdentity row s.sound s.conflicts

/-- Conflicting copies claim their names too. -/
def claims (s : EvidenceScan) : List (String × RepositoryIdentity) :=
  s.sourceCopies.unroll.filterMap (fun (_, row) =>
    (repositoryIdentityOf row).bind (fun identity =>
      if row.repo ≠ "" then some (row.repo, identity) else none))

def unsafeSlugs (s : EvidenceScan) : Finset String :=
  ((s.sourceCopies.unroll.filter (·.1 ∈ s.conflicts)).map (fun (_, row) => row.repo)).toFinset

/-- The names that sources without a failure declare, with their effective identities. -/
def declared (s : EvidenceScan) : List (String × Option RepositoryIdentity) :=
  s.sound.entries.filterMap (fun (_, row) =>
    if (s.resolve row).reason.isSome ∨ row.repo = "" then none
    else some (row.repo, (s.resolve row).identity))

end EvidenceScan

structure RenameSignature where
  identity : RepositoryIdentity
  oldRepo : String
  newRepo : String
  sourceEventId : Option String
  occurredAt : Option Int
  capturedAt : Int
  deriving DecidableEq

def renameSignature (row : RepositoryRename) : RenameSignature :=
  ⟨renameIdentityOf row, row.oldRepo, row.newRepo, row.sourceEventId,
    row.occurredAt.map AwareDatetime.utc, row.capturedAt.utc⟩

structure DeliveryKey where
  provider : ForgeProvider
  host : String
  eventId : String
  deriving DecidableEq

def deliveryKey (row : RepositoryRename) : Option DeliveryKey :=
  row.sourceEventId.map (fun eventId =>
    ⟨row.repositoryProvider, row.repositoryHost, eventId⟩)

/-- Capture time and retained primary ID can differ on a redelivery. -/
def deliveryContent (row : RepositoryRename) :
    RepositoryIdentity × String × String × Option Int :=
  (renameIdentityOf row, row.oldRepo, row.newRepo, row.occurredAt.map AwareDatetime.utc)

structure RenameScan where
  rows : Dict String (List RepositoryRename) := Dict.empty
  groups : Dict DeliveryKey (List RepositoryRename) := Dict.empty
  signatures : Dict String RenameSignature := Dict.empty
  conflicts : Finset String := ∅

namespace RenameScan

def add (s : RenameScan) (row : RepositoryRename) : RenameScan :=
  { conflicts :=
      match s.signatures.get? row.renameId with
      | some signature =>
        if signature ≠ renameSignature row then insert row.renameId s.conflicts else s.conflicts
      | none => s.conflicts
    signatures := s.signatures.set row.renameId (renameSignature row)
    rows := s.rows.push row.renameId row
    groups :=
      match deliveryKey row with
      | some delivery => s.groups.push delivery row
      | none => s.groups }

def run (rows : List RepositoryRename) : RenameScan :=
  rows.foldl add {}

def contradictory (group : List RepositoryRename) : Bool :=
  1 < (group.map deliveryContent).toFinset.card

def allConflicts (s : RenameScan) : Finset String :=
  s.conflicts ∪
    ((s.groups.values.filter contradictory).flatten.map RepositoryRename.renameId).toFinset

def valid (s : RenameScan) : List (RepositoryIdentity × String × String) :=
  (s.rows.unroll.filter (·.1 ∉ s.allConflicts)).map (fun (_, row) =>
    (renameIdentityOf row, row.oldRepo, row.newRepo))

def claims (s : RenameScan) : List (String × RepositoryIdentity) :=
  s.rows.unroll.flatMap (fun (_, row) =>
    [(row.oldRepo, renameIdentityOf row), (row.newRepo, renameIdentityOf row)])

def unsafeSlugs (s : RenameScan) : Finset String :=
  ((s.rows.unroll.filter (·.1 ∈ s.allConflicts)).flatMap (fun (_, row) =>
    [row.oldRepo, row.newRepo])).toFinset

end RenameScan

def effectiveKey (orgId repo : String) : Option RepositoryIdentity → RepositoryKey
  | some identity => .identified orgId identity
  | none => .legacy orgId repo

/-- Every name of every key, before the names are put in order. -/
def contextNames (scan : EvidenceScan) (rename : RenameScan) (orgId : String) :
    Dict RepositoryKey (Finset String) :=
  (Dict.empty.collect (rename.valid.flatMap (fun (identity, oldRepo, newRepo) =>
      [(.identified orgId identity, oldRepo), (.identified orgId identity, newRepo)]))).collect
    (scan.declared.map (fun (repo, identity) => (effectiveKey orgId repo identity, repo)))

def contextClaims (scan : EvidenceScan) (rename : RenameScan) :
    Dict String (Finset RepositoryIdentity) :=
  ((Dict.empty.collect rename.claims).collect scan.claims).collect
    (scan.declared.filterMap (fun (repo, identity) => identity.map (fun i => (repo, i))))

section
variable [Interpreter]

/-- The context before its sources are answered. -/
def lookupContext (evidence : List RepositoryIdentityEvidence)
    (renames : List RepositoryRename) (orgId : String) (asOf : Int) : RepositoryContext :=
  let scan := EvidenceScan.run evidence
  let rename := RenameScan.run renames
  { orgId, asOf
    skipped := fun _ => 0
    renameSkipped := fun reason =>
      if reason = .identityConflict then rename.allConflicts.card else 0
    sources := scan.sound
    resolutions := Dict.empty
    names := (contextNames scan rename orgId).mapValues (fun _ slugs => sortedSet slugs)
    claims := contextClaims scan rename
    unsafeSlugs := rename.unsafeSlugs ∪ scan.unsafeSlugs }

def sourceResolution (context : RepositoryContext) (result : SourceIdentity) (repo : String) :
    RepositoryResolution :=
  match result.reason with
  | some reason => { reason := some reason, evidence := result.proof }
  | none => { context.resolveReference context.orgId repo result.identity with
      evidence := result.proof }

/-- The lookups over rows already validated and inside the declared boundary. -/
def assembleContext (evidence : List RepositoryIdentityEvidence)
    (renames : List RepositoryRename) (orgId : String) (asOf : Int) : RepositoryContext :=
  let scan := EvidenceScan.run evidence
  let context := lookupContext evidence renames orgId asOf
  let declined := (scan.sourceCopies.filter (fun key _ => key ∈ scan.conflicts)).mapValues
    (fun _ _ => ({ reason := some .identityConflict } : RepositoryResolution))
  let answered := scan.sound.mapValues (fun _ row =>
    sourceResolution context (scan.resolve row) row.repo)
  let results := declined.update answered
  { context with
    skipped := fun reason => results.values.countP (fun r => r.reason = some reason)
    resolutions := results }

/-- `asOf` is the declared boundary as an instant; both populations are read at
most one row past the limit. -/
def buildRepositoryContext (evidence : List RepositoryIdentityEvidence)
    (renames : List RepositoryRename) (orgId : String) (asOf : Int) :
    Except ContextError RepositoryContext := do
  let some orgId := normalizeOrgId orgId | throw .invalidOrganization
  let evidence := evidence.take (repositoryIdentityLimit + 1)
  let renames := renames.take (repositoryIdentityLimit + 1)
  if repositoryIdentityLimit < evidence.length ∨ repositoryIdentityLimit < renames.length then
    throw .populationLimit
  let evidence ← evidence.mapM validateEvidence
  let renames ← renames.mapM validateRename
  pure (assembleContext
    (evidence.filter (fun row => row.orgId = orgId ∧ row.capturedAt.utc ≤ asOf))
    (renames.filter (fun row => row.orgId = orgId ∧ row.capturedAt.utc ≤ asOf)) orgId asOf)

end

end Sediment.Derive
