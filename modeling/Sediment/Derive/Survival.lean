import Sediment.Base.Ordering
import Sediment.Base.Dict
import Sediment.Core.Decisions

namespace Sediment.Derive
open Sediment.Base Sediment.Core

/-- The applied edit as the server stores it. The texts of the pair take no part here. -/
structure EditObservation where
  orgId : String
  agentHarness : AgentHarness
  sessionId : String
  callId : String
  filePath : String
  externalLinesAdded : Option Nat
  externalLinesRemoved : Option Nat
  occurredAt : AwareDatetime
  deriving DecidableEq

abbrev FileKey := String × AgentHarness × String × String

abbrev CallKey := String × AgentHarness × String × String

def EditObservation.fileKey (o : EditObservation) : FileKey :=
  (o.orgId, o.agentHarness, o.sessionId, o.filePath)

def EditObservation.callKey (o : EditObservation) : CallKey :=
  (o.orgId, o.agentHarness, o.sessionId, o.callId)

def observationOrder (o : EditObservation) : Int ×ₗ String := toLex (o.occurredAt.utc, o.callId)

/-- Both counts of a window, unless one of them is absent. -/
def EditObservation.window (o : EditObservation) : Option (Nat × Nat) := do
  let added ← o.externalLinesAdded
  let removed ← o.externalLinesRemoved
  some (added, removed)

structure TailWalk where
  totals : Nat × Nat
  covered : Bool
  out : Dict CallKey (Nat × Nat)

/-- One edit of a tail that is walked backwards. -/
def tailStep (o : EditObservation) (walk : TailWalk) : TailWalk :=
  match o.window with
  | none => { walk with covered := false }
  | some counts =>
    if walk.covered then
      { walk with
        totals := walk.totals + counts
        out := walk.out.set o.callKey (walk.totals + counts) }
    else walk

def externalLinesAfter (observations : List EditObservation) : Dict CallKey (Nat × Nat) :=
  let byFile := Dict.empty.gather (observations.map (fun o => (o.fileKey, o)))
  byFile.entries.foldl (fun out group =>
    ((sortedBy observationOrder group.2).foldr tailStep ⟨0, true, out⟩).out) Dict.empty

end Sediment.Derive
