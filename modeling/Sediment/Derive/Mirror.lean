import Sediment.Base.PercentCoding
import Sediment.Derive.RepositoryIdentity

namespace Sediment.Derive
open Sediment.Base Sediment.Core
open PercentCoding (quote unquote Replacement)

/-- A path as its components. -/
abbrev Path := List String

/-- The components a path keeps of a text: empty ones and single dots fall away. -/
def pathParts (s : String) : Path :=
  ((s.toList.splitOn '/').filter (fun part => part ≠ [] ∧ part ≠ ['.'])).map String.ofList

/-- `path / s`: an absolute text replaces the path. -/
def joinPath (path : Path) (s : String) : Path :=
  if s.toList.head? = some '/' then pathParts s else path ++ pathParts s

def identifiedMirrorNamespace : String := "repositories-v1"

section
variable (base : Path)

/-- One flat directory per organization and repository. -/
def mirrorPath (orgId repo : String) : Path := joinPath base (quote (orgId ++ "/" ++ repo))

def repositoryPath : RepositoryKey → Path
  | .legacy orgId repo => mirrorPath base orgId repo
  | .identified orgId identity =>
    [orgId, identity.provider.value, identity.host, identity.repositoryId].foldl
      (fun path part => joinPath path (quote part)) (joinPath base identifiedMirrorNamespace)

def locksPath : Path := joinPath base ".locks"

def observationLocksPath : Path := joinPath base ".observation-locks"

end

section
variable [Interpreter]

/-- The constructor `LegacyRepositoryKey`, or `none` where it raises. -/
def legacyRepositoryKey (orgId repo : String) : Option RepositoryKey := do
  let orgId ← normalizeOrgId orgId
  let repo ← requiredRepoSlug repo
  pure (.legacy orgId repo)

def forgeProvider (value : String) : Option ForgeProvider :=
  if value = "github" then some .github else none

/-- The constructor `IdentifiedRepositoryKey` over a `RepositoryIdentity`. -/
def identifiedRepositoryKey (orgId provider host repositoryId : String) : Option RepositoryKey := do
  let provider ← forgeProvider provider
  let host ← forgeHost host
  let repositoryId ← providerRepositoryId repositoryId
  let orgId ← normalizeOrgId orgId
  pure (.identified orgId ⟨provider, host, repositoryId⟩)

def validatedKey : RepositoryKey → Option RepositoryKey
  | .legacy orgId repo => legacyRepositoryKey orgId repo
  | .identified orgId identity =>
    identifiedRepositoryKey orgId identity.provider.value identity.host identity.repositoryId

/-- A key that its own validators leave as it is. -/
def ValidKey (key : RepositoryKey) : Prop := validatedKey key = some key

instance (key : RepositoryKey) : Decidable (ValidKey key) :=
  inferInstanceAs (Decidable (validatedKey key = some key))

end

/-- Every path at or below the mirror base that exists. -/
abbrev Tree := List Path

def mirrorExists (base : Path) (tree : Tree) (key : RepositoryKey) : Prop :=
  repositoryPath base key ++ ["HEAD"] ∈ tree

instance (base : Path) (tree : Tree) (key : RepositoryKey) : Decidable (mirrorExists base tree key) :=
  inferInstanceAs (Decidable (_ ∈ tree))

/-- `path.iterdir()`, by name. -/
def children (tree : Tree) (path : Path) : List String :=
  (tree.filterMap (fun p => if p.dropLast = path then p.getLast? else none)).dedup

/-- `root.glob("*/*/*")`. -/
def grandchildren (tree : Tree) (root : Path) : List Path :=
  tree.filter (fun p => p.take root.length = root ∧ p.length = root.length + 3)

section
variable [Replacement] (base : Path) (tree : Tree)

/-- Legacy repositories, recovered from the directory names. -/
def listMirroredRepos (orgId : String) : List String :=
  if base ∉ tree then []
  else
    let pre := (orgId ++ "/").toList
    (children tree base).filterMap (fun name =>
      if name = ".locks" ∨ base ++ [name] ++ ["HEAD"] ∉ tree then none
      else
        let decoded := (unquote name).toList
        if pre.isPrefixOf decoded then some (String.ofList (decoded.drop pre.length)) else none)

variable [Interpreter]

/-- The key of one identified mirror directory, unless its path is not canonical. -/
def identifiedEntry (orgId : String) (root entry : Path) : Option RepositoryKey :=
  if entry ++ ["HEAD"] ∉ tree then none
  else
    match entry.drop root.length with
    | [provider, host, repositoryId] => do
      let key ← identifiedRepositoryKey orgId (unquote provider) (unquote host)
        (unquote repositoryId)
      if repositoryPath base key = entry then some key else none
    | _ => none

def listMirroredRepositories (rawOrg : String) : Option (List RepositoryKey) := do
  let orgId ← normalizeOrgId rawOrg
  let legacy := (listMirroredRepos base tree orgId).filterMap (legacyRepositoryKey orgId)
  let root := joinPath (joinPath base identifiedMirrorNamespace) (quote orgId)
  let identified :=
    if root ∈ tree then (grandchildren tree root).filterMap (identifiedEntry base tree orgId root)
    else []
  pure (sortedBy repositorySortKey (legacy ++ identified).dedup)

end

section
variable [Interpreter] (base : Path)

def movedPath (source target p : Path) : Path :=
  if p.take source.length = source then target ++ p.drop source.length else p

/-- A path that some operation on a valid key touches: its mirror with all that
git keeps in it, its lock files, and the directories above them. -/
def Touched (p : Path) : Prop :=
  p <+: base ∨ (∃ key, ValidKey key ∧ (p <+: repositoryPath base key ∨ repositoryPath base key <+: p))
    ∨ locksPath base <+: p ∨ observationLocksPath base <+: p

/-- One file operation of a refresh, a removal or a rename. They may stop after any. -/
inductive MirrorStep : Tree → Tree → Prop
  | create {tree : Tree} (p : Path) (ht : Touched base p) (hb : base <+: p)
      (hparent : p = base ∨ p.dropLast ∈ tree) : MirrorStep tree (p :: tree)
  | delete {tree : Tree} (p : Path) (hleaf : ∀ q ∈ tree, q.dropLast = p → q = p) :
      MirrorStep tree (tree.filter (· ≠ p))
  | rename {tree : Tree} (orgId old new : String) (ho : ValidKey (.legacy orgId old))
      (hn : ValidKey (.legacy orgId new)) (hne : old ≠ new)
      (hold : mirrorPath base orgId old ∈ tree) (hnew : mirrorPath base orgId new ∉ tree) :
      MirrorStep tree (tree.map (movedPath (mirrorPath base orgId old) (mirrorPath base orgId new)))

/-- What is on the disk after any sequence of operations on valid keys. -/
inductive MirrorTree : Tree → Prop
  | start : MirrorTree []
  | step {tree tree' : Tree} (h : MirrorTree tree) (hs : MirrorStep base tree tree') :
      MirrorTree tree'

end

inductive Removal where
  | done | absent | failed
  deriving DecidableEq

/-- Which paths of a mirror are gone when its removal fails part of the way. -/
abbrev Faults := RepositoryKey → Option (Path → Bool)

/-- `remove_repository` -/
def removeRepository (base : Path) (faults : Faults) (tree : Tree) (key : RepositoryKey) :
    Removal × Tree :=
  let path := repositoryPath base key
  match faults key with
  | some gone => (.failed, tree.filter (fun p => !(path.isPrefixOf p && gone p)))
  | none =>
    if path ∉ tree then (.absent, tree)
    else (.done, tree.filter (fun p => !path.isPrefixOf p))

end Sediment.Derive
