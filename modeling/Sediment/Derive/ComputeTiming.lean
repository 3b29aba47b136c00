import Sediment.Core.Datetime
import Sediment.Derive.CiResolution

namespace Sediment.Derive.ComputeTiming
open Sediment.Base Sediment.Core

inductive ComputeAllocationSource where
  | default | agentRequest | operator | randomized
  deriving DecidableEq, Repr

inductive ComputeTimingSkipReason where
  | ambiguousFinalAllocation | noInferenceCalls | inferenceCallDurationAbsent
  | inferenceCallIntervalUnrepresentable
  deriving DecidableEq, Repr

/-- A captured allocation; its time converts to UTC. -/
structure ComputeAllocation where
  allocationId : String
  orgId : String
  sessionId : String
  allocationSource : ComputeAllocationSource
  cpuMillicores : Option Nat
  memoryBytes : Option Nat
  occurredAt : Datetime
  utcRepresentable : occurredAt.Representable
  limited : cpuMillicores ≠ none ∨ memoryBytes ≠ none

/-- What is read of an inference call or its summary. -/
structure TimedCall where
  orgId : String
  sessionId : String
  observedAt : Datetime
  durationMs : Option Nat

/-- One allocation value: who chose it and the limits it set. -/
structure ComputeArm where
  allocationSource : ComputeAllocationSource
  cpuMillicores : Option Nat
  memoryBytes : Option Nat
  deriving DecidableEq

/-- The policy's digest is always absent. -/
structure Provenance where
  policyVersion : String
  quarantineRevision : Nat

/-- Times are instants, in microseconds. -/
structure SessionComputeTiming where
  orgId : String
  sessionId : String
  finalAllocation : ComputeArm
  allocationChanged : Bool
  allocations : List ComputeAllocation
  inferenceCalls : Nat
  startedAt : Int
  endedAt : Int
  elapsedMs : Int
  modelMs : Nat
  betweenCallsMs : Int
  provenance : Provenance

structure ComputeTimingResult where
  provenance : Provenance
  timings : List SessionComputeTiming := []
  skipped : ComputeTimingSkipReason → Nat := fun _ => 0

abbrev SessionKey := String × String

/-- Microseconds in a millisecond. -/
def millisecond : Int := 1000

/-- The span of a call; `none` stands for `OverflowError`. A duration past the longest
`timedelta` also starts before the earliest instant. -/
def callInterval (call : TimedCall) : Option (Int × Int) :=
  match call.observedAt.astimezone with
  | none => none
  | some observedAt =>
    match Datetime.utc (observedAt.wall - call.durationMs.getD 0 * millisecond) with
    | none => none
    | some started => some (started.wall, observedAt.wall)

structure BusyState where
  busy : Int := 0
  currentStart : Int
  currentEnd : Int

def BusyState.step (s : BusyState) (p : Int × Int) : BusyState :=
  if s.currentEnd < p.1 then
    ⟨s.busy + (s.currentEnd - s.currentStart), p.1, p.2⟩
  else { s with currentEnd := max s.currentEnd p.2 }

/-- `_busy`: the length of the union of closed intervals, so parallel calls count once. -/
def busy (first : Int × Int) (rest : List (Int × Int)) : Int :=
  let s := rest.foldl BusyState.step { currentStart := first.1, currentEnd := first.2 }
  s.busy + (s.currentEnd - s.currentStart)

def ComputeAllocation.session (a : ComputeAllocation) : SessionKey := (a.orgId, a.sessionId)

def TimedCall.session (c : TimedCall) : SessionKey := (c.orgId, c.sessionId)

def ComputeTimingResult.add (result : ComputeTimingResult)
    (timing : Except ComputeTimingSkipReason SessionComputeTiming) : ComputeTimingResult :=
  match timing with
  | .error reason =>
    { result with skipped := bump result.skipped reason 1 }
  | .ok timing => { result with timings := result.timings ++ [timing] }

end Sediment.Derive.ComputeTiming
