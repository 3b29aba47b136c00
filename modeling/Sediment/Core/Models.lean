import Mathlib
import Sediment.Base.Lines

namespace Sediment.Core
open Base.Lines (trim)

/-- What the interpreter decides and the source only calls. `lower` is `str.lower`. -/
class Interpreter where
  lower : String → String

/-- The code points `str.isspace` accepts, which are also those `str.strip` removes. -/
def isSpaceCode (n : Nat) : Bool :=
  (9 ≤ n && n ≤ 13) || (28 ≤ n && n ≤ 32) || n == 0x85 || n == 0xA0 || n == 0x1680 ||
    (0x2000 ≤ n && n ≤ 0x200A) || n == 0x2028 || n == 0x2029 || n == 0x202F || n == 0x205F ||
    n == 0x3000

def isSpace (c : Char) : Bool := isSpaceCode c.toNat

def strip (v : String) : String := String.ofList (trim isSpace v.toList)

/-- `none` stands for the `ValueError` that the validator raises. -/
def scalarIdentity (value : String) : Option String :=
  if '\u0000' ∈ value.toList then none else some value

def nonEmptyId (v : String) : Option String := do
  let v ← scalarIdentity v
  let v := strip v
  if v = "" then none else some v

def isLowerAlnum (c : Char) : Bool := ('a' ≤ c && c ≤ 'z') || ('0' ≤ c && c ≤ '9')

/-- One label of the host pattern: `[a-z0-9](?:[a-z0-9-]{0,61}[a-z0-9])?`. -/
def isHostLabel (label : List Char) : Bool :=
  label.length ≤ 63 && label.all (fun c => isLowerAlnum c || c == '-') &&
    label.head?.any isLowerAlnum && label.getLast?.any isLowerAlnum

section
variable [Interpreter]

def forgeHost (value : String) : Option String := do
  let value ← scalarIdentity value
  let value := Interpreter.lower value
  if value.length ≤ 253 ∧ (value.toList.splitOn '.').all isHostLabel then some value else none

/-- The pattern `[1-9][0-9]{0,19}`. -/
def providerRepositoryId (value : String) : Option String := do
  let value ← scalarIdentity value
  match value.toList with
  | [] => none
  | c :: rest =>
    if '1' ≤ c ∧ c ≤ '9' ∧ rest.length ≤ 19 ∧ rest.all Char.isDigit then some value else none

/-- The pattern `[a-z0-9][a-z0-9._-]{0,63}` after lowering an ASCII name. -/
def normalizeOrgId (raw : String) : Option String := do
  let raw ← scalarIdentity raw
  if raw.toList.all (fun c => c.toNat < 128) then
    let normalized := Interpreter.lower raw
    match normalized.toList with
    | [] => none
    | c :: rest =>
      if isLowerAlnum c ∧ rest.length ≤ 63 ∧
          rest.all (fun d => isLowerAlnum d || d == '.' || d == '_' || d == '-') then
        some normalized
      else none
  else none

/-- `owner/repo`, or the empty name that stands for an absent repository. -/
def normalizeRepoSlug (v : String) : Option String := do
  let v ← scalarIdentity v
  let v := Interpreter.lower (strip v)
  if v = "" then some ""
  else
    let _ ← scalarIdentity v
    let owner := v.toList.takeWhile (· != '/')
    match v.toList.dropWhile (· != '/') with
    | [] => none
    | _ :: name => if owner = [] ∨ name = [] ∨ '/' ∈ name then none else some v

def requiredRepoSlug (v : String) : Option String := do
  let v ← normalizeRepoSlug v
  let v := strip v
  if v = "" then none else some v

end

inductive ForgeProvider where
  | github
  deriving DecidableEq, Repr

def ForgeProvider.value : ForgeProvider → String
  | .github => "github"

inductive FactTable where
  | inferenceCalls | developerDecisions | ciOutcomes | pushes | pullRequestMerges
  | pullRequestRevisions | editObservations | rejectedEdits | retryLinkages
  | sessionCommitObservations | repositoryRenames | computeAllocations
  deriving DecidableEq, Repr

def FactTable.value : FactTable → String
  | .inferenceCalls => "inference_calls"
  | .developerDecisions => "developer_decisions"
  | .ciOutcomes => "ci_outcomes"
  | .pushes => "pushes"
  | .pullRequestMerges => "pull_request_merges"
  | .pullRequestRevisions => "pull_request_revisions"
  | .editObservations => "edit_observations"
  | .rejectedEdits => "rejected_edits"
  | .retryLinkages => "retry_linkages"
  | .sessionCommitObservations => "session_commit_observations"
  | .repositoryRenames => "repository_renames"
  | .computeAllocations => "compute_allocations"

theorem FactTable.value_injective : Function.Injective FactTable.value := by
  intro a b h
  cases a <;> cases b <;> first | rfl | (exact absurd h (by decide))

/-- An aware `datetime` as the program can observe it: the instant in
microseconds, and the spelling that distinguishes two copies of one instant. -/
structure AwareDatetime where
  utc : Int
  isoformat : String
  tzinfo : String
  fold : Nat
  deriving DecidableEq, Repr

inductive RepositoryRole where
  | repo | headRepo
  deriving DecidableEq, Repr

def RepositoryRole.value : RepositoryRole → String
  | .repo => "repo"
  | .headRepo => "head_repo"

theorem RepositoryRole.value_injective : Function.Injective RepositoryRole.value := by
  intro a b h
  cases a <;> cases b <;> first | rfl | (exact absurd h (by decide))

/-- A captured repository role, including explicit identity absence. -/
structure RepositoryIdentityEvidence where
  sourceTable : FactTable
  sourceFactId : String
  role : RepositoryRole
  orgId : String
  repo : String
  repositoryProvider : Option ForgeProvider
  repositoryHost : Option String
  repositoryId : Option String
  capturedAt : AwareDatetime
  sourcePushId : Option String
  deriving DecidableEq, Repr

structure SourceKey where
  table : FactTable
  factId : String
  role : RepositoryRole
  deriving DecidableEq, Repr

def sourceKey (row : RepositoryIdentityEvidence) : SourceKey :=
  ⟨row.sourceTable, row.sourceFactId, row.role⟩

/-- A provider-observed name change for one identified repository. -/
structure RepositoryRename where
  renameId : String
  orgId : String
  repositoryProvider : ForgeProvider
  repositoryHost : String
  repositoryId : String
  oldRepo : String
  newRepo : String
  sourceEventId : Option String
  occurredAt : Option AwareDatetime
  capturedAt : AwareDatetime
  deriving DecidableEq, Repr

def repositoryIdentityLimit : Nat := 50000

end Sediment.Core
