import Sediment.Base.Dict
import Sediment.Base.Queries
import Sediment.Core.Inference
import Sediment.Core.Store

namespace Sediment.Core
open Sediment.Base

/-- A physical copy of one alias of a stored call. -/
structure AliasRow where
  inferenceCallId : String
  orgId : String
  ordinal : Nat
  callId : String
  deriving DecidableEq

def aliasRows (call : InferenceCall) : List AliasRow :=
  (sortedSet call.modelCallIds).zipIdx.map (fun entry =>
    ⟨call.inferenceCallId, call.orgId, entry.2, entry.1⟩)

/-- The columns of `uq_inference_calls_model_call`. -/
def modelCallKey (call : InferenceCall) : Option (String × GatewayProvider × String) :=
  call.modelCallId.map (fun modelCallId => (call.orgId, call.gatewayProvider, modelCallId))

/-- Whether a unique index holds the two calls apart. -/
def collides (a b : InferenceCall) : Prop :=
  a.inferenceCallId = b.inferenceCallId ∨
    (modelCallKey a).isSome ∧ modelCallKey a = modelCallKey b

instance (a b : InferenceCall) : Decidable (collides a b) :=
  inferInstanceAs (Decidable (_ ∨ _))

/-- The stored calls under their unique indexes, with the alias rows of each. -/
structure CallStore where
  calls : List InferenceCall
  aliases : List AliasRow
  quarantine : List FactQuarantine
  unique : calls.Pairwise (fun a b => ¬ collides a b)
  copied : aliases = calls.flatMap aliasRows

inductive CallReadError where
  | invalidOrganization | invalidIdentifier | invalidLimit | limitExceeded
  deriving DecidableEq, Repr

def compositeFilterKeyLimit : Nat := 30000

def inferenceCallRowBytesLimit : Nat := 64 * 1024 * 1024

/-- The octets of the stored text of a call's output messages. -/
class StoredBytes where
  outputMessages : InferenceCall → Nat

/-- The columns the alias lookup selects. -/
structure AliasOwner where
  inferenceCallId : String
  orgId : String
  sessionId : String
  observedAt : AwareDatetime
  deriving DecidableEq

def InferenceCall.owner (call : InferenceCall) : AliasOwner :=
  ⟨call.inferenceCallId, call.orgId, call.sessionId, call.observedAt⟩

def identityOrder (item : InferenceCallIdentity) : Int ×ₗ String :=
  toLex (item.observedAt.utc, item.inferenceCallId)

/-- `_validated_identity_filter`. -/
def validatedIdentityFilter (identifiers : Finset String) :
    Except CallReadError (List String) :=
  if compositeFilterKeyLimit < identifiers.card then throw .limitExceeded
  else if ∃ value ∈ identifiers, nonEmptyId value = none then throw .invalidIdentifier
  else pure (sortedSet (identifiers.biUnion (fun value => (nonEmptyId value).toFinset)))

namespace CallStore
variable (s : CallStore) (orgId : String) (observedThrough : Int)

/-- `store_inference_call_receipt`, and whether the call was inserted. The rows
are those of the redacted call. -/
def storeInferenceCall (call : InferenceCall) : CallStore × Bool :=
  if h : ∃ other ∈ s.calls, collides other call then (s, false)
  else
    ({ s with
        calls := s.calls ++ [call]
        aliases := s.aliases ++ aliasRows call
        unique := by
          rw [List.pairwise_append]
          refine ⟨s.unique, List.pairwise_singleton _ _, ?_⟩
          intro a ha b hb hc
          rw [List.mem_singleton] at hb
          exact h ⟨a, ha, hb ▸ hc⟩
        copied := by simp [s.copied] }, true)

def latestAction (call : InferenceCall) : Option QuarantineAction :=
  ((sortedBy FactQuarantine.quarantineRevision (s.quarantine.filter (fun q =>
    q.orgId = call.orgId ∧ q.factTable = .inferenceCalls ∧
      q.factId = call.inferenceCallId))).getLast?).map FactQuarantine.action

/-- `_fact_conditions` without quarantined calls, up to the observation boundary. -/
def visible : List InferenceCall :=
  s.calls.filter (fun call => call.orgId = orgId ∧ s.latestAction call ≠ some .quarantine ∧
    call.observedAt.utc ≤ observedThrough)

section
variable [Collation]

/-- The lateral subquery of one requested alias. -/
def aliasOwners (callId : String) : List AliasOwner :=
  let joined := s.aliases.flatMap (fun row => (s.visible orgId observedThrough).filter (fun call =>
    call.inferenceCallId = row.inferenceCallId ∧ row.orgId = orgId ∧ row.callId = callId))
  (orderBy (fun a b => Collation.le a.inferenceCallId b.inferenceCallId)
    (joined.map InferenceCall.owner).dedup).take 2

def witnessIdentities (identifiers : List String) : List InferenceCallIdentity :=
  let rows := identifiers.flatMap (fun callId =>
    (s.aliasOwners orgId observedThrough callId).map (fun owner => (owner, callId)))
  let identities : Dict String AliasOwner :=
    rows.foldl (fun d row => d.set row.1.inferenceCallId row.1) Dict.empty
  let aliases := Dict.empty.collect (rows.map (fun row => (row.1.inferenceCallId, row.2)))
  sortedBy identityOrder (identities.entries.map (fun entry =>
    { inferenceCallId := entry.2.inferenceCallId
      orgId := entry.2.orgId
      sessionId := entry.2.sessionId
      observedAt := entry.2.observedAt
      callIds := sortedSet (aliases.members entry.1) }))

def readInferenceCallIdentityWitnesses [Interpreter] (rawOrg : String) (callIds : Finset String)
    (observedThrough : Int) : Except CallReadError (List InferenceCallIdentity) := do
  let orgId ← (normalizeOrgId rawOrg).elim (throw .invalidOrganization) pure
  let identifiers ← validatedIdentityFilter callIds
  pure (s.witnessIdentities orgId observedThrough identifiers)

def appendIdentity (limit : Nat) (identities : List InferenceCallIdentity)
    (call : InferenceCall) : Except CallReadError (List InferenceCallIdentity) :=
  if identities.length = limit then throw .limitExceeded
  else pure (identities ++ [call.identity])

def readInferenceCallIdentities [StoredBytes] (limit : Nat) :
    Except CallReadError (List InferenceCallIdentity) := do
  if limit = 0 then throw .invalidLimit
  let rows := (orderBy (fun a b => a.observedAt.utc < b.observedAt.utc ||
    (a.observedAt.utc == b.observedAt.utc && Collation.le a.inferenceCallId b.inferenceCallId))
    (s.visible orgId observedThrough)).take (limit + 1)
  if limit < rows.length then throw .limitExceeded
  if rows.any (fun call => inferenceCallRowBytesLimit < StoredBytes.outputMessages call) then
    throw .limitExceeded
  rows.foldlM (appendIdentity limit) []

end

end CallStore

end Sediment.Core
