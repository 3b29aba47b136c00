import Sediment.Base.Intervals
import Sediment.Base.Results
import Sediment.Derive.ComputeTiming

namespace Sediment.Proofs.ComputeTiming
open Sediment.Base Sediment.Base.Intervals Sediment.Core Sediment.Derive.ComputeTiming
open MeasureTheory

/-- The points of the time line that some interval covers. -/
def covered (intervals : List (Int × Int)) : Set ℝ :=
  {x | ∃ p ∈ intervals, x ∈ Set.Icc (p.1 : ℝ) p.2}

/-- How the time between the first start and the last end of some intervals splits. -/
structure Splits (intervals : List (Int × Int)) (startedAt endedAt busyTime : Int) : Prop where
  started : IsLeast {t | ∃ p ∈ intervals, p.1 = t} startedAt
  ended : IsGreatest {t | ∃ p ∈ intervals, p.2 = t} endedAt
  busy : volume (covered intervals) = ENNReal.ofReal busyTime
  between : ∃ merged : List (Int × Int), covered merged = covered intervals ∧
    (∀ p ∈ merged, p.1 ≤ p.2) ∧ merged.Pairwise (fun a b => a.2 < b.1) ∧
    endedAt - startedAt - busyTime = (gaps merged).sum
  nonneg : 0 ≤ endedAt - startedAt - busyTime

/-- What a derived timing says about the calls of its Session. -/
structure Exact (calls : List TimedCall) (t : SessionComputeTiming) : Prop where
  intervals : ∀ c ∈ calls, ∃ p, callInterval c = some p
  splits : ∃ busyTime, Splits (calls.filterMap callInterval) t.startedAt t.endedAt busyTime ∧
    t.elapsedMs = (t.endedAt - t.startedAt) / millisecond ∧
    t.betweenCallsMs = (t.endedAt - t.startedAt - busyTime) / millisecond ∧
    0 ≤ t.betweenCallsMs

end Sediment.Proofs.ComputeTiming
