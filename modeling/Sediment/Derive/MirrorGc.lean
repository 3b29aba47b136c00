import Sediment.Base.Keyset
import Sediment.Core.Datetime
import Sediment.Core.Store
import Sediment.Derive.Mirror
import Sediment.Derive.RepositoryContext

namespace Sediment.Derive
open Sediment.Base Sediment.Core

inductive GCError where
  | overflow | invalidBatchSize | invalidOrganization | invalidPush
  | read (e : ReadError)
  | build (e : ContextError)
  deriving DecidableEq

/-- `MirrorGCPolicy`, whose constructor refuses what is below one day. -/
structure MirrorGCPolicy where
  retentionDays : Int
  positive : 1 ≤ retentionDays

theorem default_positive : (1 : Int) ≤ 90 := by decide

def defaultGCPolicy : MirrorGCPolicy := ⟨90, default_positive⟩

def dayMicroseconds : Int := 86400000000

/-- `now.astimezone(UTC) - timedelta(days=policy.retention_days)` -/
def MirrorGCPolicy.cutoff (policy : MirrorGCPolicy) (now : AwareDatetime) : Except GCError Int :=
  let cutoff := now.utc - policy.retentionDays * dayMicroseconds
  if wallMin ≤ cutoff ∧ now.utc ≤ wallMax then pure cutoff else throw .overflow

/-- The stored Facts, whose Pushes carry the organizations that their model left them. -/
structure GCStore [Interpreter] extends RepositoryStore where
  organizations : ∀ fact ∈ facts, fact.table = .pushes →
    normalizeOrgId fact.orgId = some fact.orgId

section
variable [Interpreter] (s : GCStore)

/-- Every Push that is not quarantined, of any organization. -/
def visiblePushes : List StoredFact :=
  s.facts.filter (fun fact => fact.table = .pushes ∧
    s.latestAction fact.orgId .pushes fact.factId ≠ some .quarantine)

/-- `tuple_(captured_at, push_id) > cursor` -/
def behindPush [Collation] (cursor : Int × String) (push : StoredFact) : Bool :=
  cursor.1 < push.capturedAt.utc ||
    (cursor.1 == push.capturedAt.utc && !Collation.le push.factId cursor.2)

def pushGcPage [Collation] (orgId : String) (batchSize : Nat) (cursor : Option (Int × String)) :
    Keyset.Page StoredFact (Int × String) :=
  let conditions := fun push : StoredFact =>
    decide (push.orgId = orgId) && cursor.all (behindPush · push)
  let rows :=
    (orderBy RepositoryStore.capturedOrder ((visiblePushes s).filter conditions)).take batchSize
  ⟨rows, rows.getLast?.map (fun last => (last.capturedAt.utc, last.factId))⟩

/-- `iter_push_gc_rows`, of which every page but the last has rows. -/
def iterPushGcRows [Collation] (orgId : String) (batchSize : Nat) :
    Except GCError (List StoredFact) :=
  if batchSize < 1 then throw .invalidBatchSize
  else
    (Keyset.walk (fun _ cursor => .ok (pushGcPage s orgId batchSize cursor))
      (s.facts.length + 1) 0 none).map (·.1)

/-- The exact namespace of a Push; none for one without a repository. -/
def pushRepositoryKey (orgId : String) (columns : RepositoryColumns) :
    Except GCError (Option RepositoryKey) :=
  match columns.repositoryProvider, columns.repositoryHost, columns.repositoryId with
  | none, none, none =>
    if columns.repo = "" then pure none
    else
      match legacyRepositoryKey orgId columns.repo with
      | some key => pure (some key)
      | none => throw .invalidPush
  | some provider, some host, some repositoryId =>
    match identifiedRepositoryKey orgId provider.value host repositoryId with
    | some key => pure (some key)
    | none => throw .invalidPush
  | _, _, _ => throw .invalidPush

def latestOf (captured : Int) (current : Option Int) : Int :=
  match current with
  | none => captured
  | some current => if captured > current then captured else current

def addPush (orgId : String) (latest : Dict RepositoryKey Int) (push : StoredFact) :
    Except GCError (Dict RepositoryKey Int) := do
  match ← pushRepositoryKey orgId push.repo with
  | none => pure latest
  | some key => pure (latest.alter key (latestOf push.capturedAt.utc))

def lastPushByRepo (orgId : String) (rows : List StoredFact) :
    Except GCError (Dict RepositoryKey Int) :=
  rows.foldlM (addPush orgId) Dict.empty

end

inductive GCAction where
  | kept | removed
  deriving DecidableEq

inductive GCSkipReason where
  | withinRetention | quarantineAmbiguous | removeFailed
  deriving DecidableEq

structure MirrorGCResult where
  orgId : String
  repo : Option String
  action : GCAction
  lastPushCapturedAt : Option Int
  skipReason : Option GCSkipReason
  repositoryIdentity : Option RepositoryIdentity
  deriving DecidableEq

def keyIdentity : RepositoryKey → Option RepositoryIdentity
  | .identified _ identity => some identity
  | .legacy _ _ => none

/-- The name that a verdict shows. -/
def shownRepo (context : RepositoryContext) (key : RepositoryKey) : Option String :=
  match context.observedRepoSlugs key with
  | name :: _ => some name
  | [] =>
    match key with
    | .legacy _ repo => some repo
    | .identified _ _ => none

/-- The verdict on one mirror, and the disk behind it. -/
def gcMirror (base : Path) (faults : Faults) (dryRun : Bool) (cutoff : Int) (last : Option Int)
    (tree : Tree) (key : RepositoryKey) : (GCAction × Option GCSkipReason) × Tree :=
  match last with
  | none => ((.kept, some .quarantineAmbiguous), tree)
  | some last =>
    if last ≥ cutoff then ((.kept, some .withinRetention), tree)
    else if dryRun then ((.removed, none), tree)
    else
      match removeRepository base faults tree key with
      | (.done, tree) => ((.removed, none), tree)
      | (_, tree) => ((.kept, some .removeFailed), tree)

section
variable [Interpreter] [PercentCoding.Replacement]

/-- The verdicts on the listed mirrors in their order. -/
def gcListed (base : Path) (faults : Faults) (dryRun : Bool) (orgId : String) (cutoff : Int)
    (context : RepositoryContext) (latest : Dict RepositoryKey Int) (tree : Tree) :
    List RepositoryKey → List MirrorGCResult × Tree
  | [] => ([], tree)
  | key :: keys =>
    let last := latest.get? key
    let verdict := gcMirror base faults dryRun cutoff last tree key
    let rest := gcListed base faults dryRun orgId cutoff context latest verdict.2 keys
    let result := { orgId, repo := shownRepo context key, action := verdict.1.1,
                    lastPushCapturedAt := last, skipReason := verdict.1.2,
                    repositoryIdentity := keyIdentity key }
    (result :: rest.1, rest.2)

/-- What follows the read of the pushes. -/
def gcOver (base : Path) (faults : Faults) (dryRun : Bool) (orgId : String) (cutoff : Int)
    (context : RepositoryContext) (rows : List StoredFact) (tree : Tree) :
    Except GCError (List MirrorGCResult × Tree) := do
  let latest ← lastPushByRepo orgId rows
  match listMirroredRepositories base tree orgId with
  | none => throw .invalidOrganization
  | some keys => pure (gcListed base faults dryRun orgId cutoff context latest tree keys)

def gcBatchSize : Nat := 1000

def gcContext [Collation] (s : GCStore) (orgId : String) (now : AwareDatetime) :
    Except GCError RepositoryContext := do
  let evidence ←
    (s.readRepositoryIdentities orgId now.utc repositoryIdentityLimit).mapError .read
  let renames ← (s.readRepositoryRenames orgId now.utc repositoryIdentityLimit).mapError .read
  (buildRepositoryContext evidence renames orgId now.utc).mapError .build

/-- `gc_mirrors`, over pages of some size. -/
def gcMirrorsBy [Collation] (batchSize : Nat) (s : GCStore) (base : Path) (faults : Faults)
    (orgId : String) (policy : MirrorGCPolicy) (now : AwareDatetime) (dryRun : Bool)
    (tree : Tree) : Except GCError (List MirrorGCResult × Tree) := do
  let cutoff ← policy.cutoff now
  let context ← gcContext s orgId now
  let rows ← iterPushGcRows s orgId batchSize
  gcOver base faults dryRun orgId cutoff context rows tree

/-- `gc_mirrors` -/
def gcMirrors [Collation] (s : GCStore) (base : Path) (faults : Faults) (orgId : String)
    (policy : MirrorGCPolicy) (now : AwareDatetime) (dryRun : Bool) (tree : Tree) :
    Except GCError (List MirrorGCResult × Tree) :=
  gcMirrorsBy gcBatchSize s base faults orgId policy now dryRun tree

end

end Sediment.Derive
