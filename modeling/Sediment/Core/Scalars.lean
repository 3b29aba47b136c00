import Sediment.Core.Captured

namespace Sediment.Core.Scalars
open Sediment.Base Base.JsonScan

/-- `str.lower`: a lowered text is lowered, and lowering neither makes nor removes blanks. -/
class Lowercase where
  lower : Text → Text
  lower_lower : ∀ t, lower (lower t) = lower t
  strip_lower : ∀ t, Captured.strip (lower t) = lower (Captured.strip t)

def isLowerAlnum (n : Nat) : Bool := (97 ≤ n && n ≤ 122) || (48 ≤ n && n ≤ 57)

def isDigit (n : Nat) : Bool := 48 ≤ n && n ≤ 57

def isHexDigit (n : Nat) : Bool := isDigit n || (97 ≤ n && n ≤ 102)

def dot : Nat := 46
def slash : Nat := 47
def hyphen : Nat := 45
def underscore : Nat := 95

/-- `[a-z0-9](?:[a-z0-9-]{0,61}[a-z0-9])?`. -/
def isHostLabel (label : Text) : Bool :=
  label.length ≤ 63 && label.all (fun n => isLowerAlnum n || n == hyphen) &&
    label.head?.any isLowerAlnum && label.getLast?.any isLowerAlnum

section
variable [Lowercase]
open Lowercase

def forgeHost (value : Text) : Option Text := do
  let value ← Captured.scalarIdentity value
  let value := lower value
  if value.length > 253 ∨ ¬(value.splitOn dot).all isHostLabel then none else some value

/-- `[1-9][0-9]{0,19}`. -/
def providerRepositoryId (value : Text) : Option Text := do
  let value ← Captured.scalarIdentity value
  let first := value.head?.any (fun n => isDigit n && n ≠ 48)
  if first ∧ value.all isDigit ∧ value.length ≤ 20 then some value else none

/-- `[a-z0-9][a-z0-9._-]{0,63}` once an ASCII name is lowered. -/
def normalizeOrgId (raw : Text) : Option Text := do
  let raw ← Captured.scalarIdentity raw
  if ¬raw.all (· < 128) then none
  else
    let normalized := lower raw
    let first := normalized.head?.any isLowerAlnum
    let inner := normalized.all
      (fun n => isLowerAlnum n || n == dot || n == underscore || n == hyphen)
    if first ∧ inner ∧ normalized.length ≤ 64 then some normalized else none

def normalizeCommitSha (v : Text) : Option Text :=
  let v := lower (Captured.strip v)
  if v.length ≠ 40 ∧ v.length ≠ 64 ∨ ¬v.all isHexDigit then none else some v

/-- `owner/repo`, or the empty text of an absent repository. -/
def normalizeRepoSlug (v : Text) : Option Text := do
  let v ← Captured.scalarIdentity v
  let v := lower (Captured.strip v)
  if v = [] then some []
  else
    let _ ← Captured.scalarIdentity v
    let owner := v.takeWhile (· ≠ slash)
    match v.dropWhile (· ≠ slash) with
    | [] => none
    | _ :: name => if owner = [] ∨ name = [] ∨ slash ∈ name then none else some v

def requiredRepoSlug (v : Text) : Option Text := do
  let v ← normalizeRepoSlug v
  let v := Captured.strip v
  if v = [] then none else some v

end

def refsHeads : Text := codePoints "refs/heads/"

theorem length_strip_le (t : Text) : (Captured.strip t).length ≤ t.length := by
  have hfront := (List.dropWhile_suffix (l := t) Core.isSpaceCode).length_le
  have hback := (List.dropWhile_suffix (l := (t.dropWhile Core.isSpaceCode).reverse)
    Core.isSpaceCode).length_le
  rw [Captured.strip, List.length_reverse]
  rw [List.length_reverse] at hback
  exact hback.trans hfront

/-- The loop of `_branch_name`, from a stripped name on. -/
def shortName (v : Text) : Text :=
  if refsHeads <+: v then shortName (Captured.strip (v.drop refsHeads.length)) else v
termination_by v.length
decreasing_by
  have hpre := ‹refsHeads <+: v›.length_le
  have hpos : 0 < refsHeads.length := by decide
  have hstrip := length_strip_le (v.drop refsHeads.length)
  rw [List.length_drop] at hstrip
  omega

def branchName (v : Text) : Option Text := do
  let v ← Captured.scalarIdentity v
  some (shortName (Captured.strip v))

def workflowPath (v : Text) : Option Text := do
  let v ← Captured.scalarIdentity v
  some (Captured.strip v)

/-- Described content keeps exceptional characters. -/
def nonEmptyContent (v : Text) : Option Text :=
  let v := Captured.strip v
  if v = [] then none else some v

def workflowName (v : Text) : Option Text := some (Captured.strip v)

def ciReasonMaxLength : Nat := 4096

def ciReason (value : Text) : Option Text :=
  if value.length > ciReasonMaxLength then none else some value

/-- The scalar types that a validator of the models makes. -/
inductive Scalar where
  | nonEmptyId | forgeHost | providerRepositoryId | orgId | repoSlug | requiredRepoSlug
  | branchName | modelName | workflowPath | commitSha | nonEmptyContent | workflowName | ciReason
  deriving DecidableEq, Repr

def Scalar.validate [Lowercase] : Scalar → Text → Option Text
  | .nonEmptyId => Captured.nonEmptyId
  | .forgeHost => Scalars.forgeHost
  | .providerRepositoryId => Scalars.providerRepositoryId
  | .orgId => normalizeOrgId
  | .repoSlug => normalizeRepoSlug
  | .requiredRepoSlug => Scalars.requiredRepoSlug
  | .branchName => Scalars.branchName
  | .modelName => Captured.modelName
  | .workflowPath => Scalars.workflowPath
  | .commitSha => normalizeCommitSha
  | .nonEmptyContent => Scalars.nonEmptyContent
  | .workflowName => Scalars.workflowName
  | .ciReason => Scalars.ciReason

end Sediment.Core.Scalars
