import Sediment.Derive.FactReads

namespace Sediment.Base.Dict

/-- The same dictionary with its entries in key order. -/
def sorted {κ α ρ : Type*} [LinearOrder ρ] (order : κ → ρ) (d : Dict κ α) : Dict κ α where
  entries := sortedBy (fun e => order e.1) d.entries
  nodup := (((sortedBy_perm (fun e => order e.1) d.entries).map Prod.fst).nodup_iff).mpr d.nodup

end Sediment.Base.Dict

namespace Sediment.Derive
open Sediment.Base Sediment.Core
open Sediment.Export (SessionCommitObservation)

inductive BindingError where
  | contextMismatch
  deriving DecidableEq

/-- One Session observed on one commit. -/
structure SessionCommitEdge where
  commit : CommitKey
  sessionId : String
  deriving DecidableEq

def edgeOrder (edge : SessionCommitEdge) : List String ×ₗ String :=
  toLex (commitSortKey edge.commit, edge.sessionId)

def bindingOrder (item : SessionCommitObservation) : Int ×ₗ String :=
  toLex (item.capturedAt.utc, item.observationId)

/-- Qualified edges with their exact Facts, and the reasons of the declined ones. -/
structure SessionCommitBindingResult where
  bindings : Dict SessionCommitEdge (List SessionCommitObservation)
  skipped : Multiset (Option RepositorySkipReason)

section
variable [Interpreter] (context : RepositoryContext)

def eligibleObservations (orgId : String) (asOf : Int) (items : List SessionCommitObservation) :
    List SessionCommitObservation :=
  items.filter (fun item => item.orgId = orgId ∧ item.capturedAt.utc ≤ asOf)

/-- The edge that an observation supports, unless its repository is declined. -/
def observedEdge (item : SessionCommitObservation) : Option SessionCommitEdge :=
  (context.resolveFact item.project).key.map (fun key => ⟨⟨key, item.commitSha⟩, item.sessionId⟩)

def declinedReason (item : SessionCommitObservation) : Option (Option RepositorySkipReason) :=
  match (context.resolveFact item.project).key with
  | some _ => none
  | none => some (context.resolveFact item.project).reason

/-- `bind_session_commit_keys_result` -/
def bindSessionCommitKeysResult (observations : List SessionCommitObservation) (orgId : String)
    (asOf : Int) : Except BindingError SessionCommitBindingResult := do
  if context.orgId ≠ orgId ∨ context.asOf ≠ asOf then throw .contextMismatch
  let eligible := eligibleObservations orgId asOf observations
  let grouped := Dict.empty.gather (eligible.filterMap (fun item =>
    (observedEdge context item).map (fun edge => (edge, item))))
  pure {
    bindings := (grouped.mapValues (fun _ items => sortedBy bindingOrder items)).sorted edgeOrder
    skipped := (eligible.filterMap (declinedReason context) : Multiset _) }

end

end Sediment.Derive
