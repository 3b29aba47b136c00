import Sediment.Base.Trend
import Sediment.Export.OutcomeRates

namespace Sediment.Export.TrendTest
open Sediment.Base Sediment.Base.Trend Sediment.Export.OutcomeRates

/-- `math.sqrt` on what is not negative, and `NormalDist().cdf`. -/
class NormalMath where
  sqrt : ℚ → ℚ
  cdf : ℚ → ℚ

class LawfulNormalMath [NormalMath] : Prop where
  sqrt_pos : ∀ v : ℚ, 0 < v → 0 < NormalMath.sqrt v

inductive TrendStatus where
  | significantIncrease
  | significantDecrease
  | noSignificantTrend
  | insufficientData
  deriving DecidableEq, Repr

structure MannKendallTrendTest where
  sampleSize : Nat
  sStatistic : Int
  variance : ℚ
  zStatistic : ℚ
  pValue : Option ℚ
  alpha : ℚ
  status : TrendStatus
  reason : String
  deriving DecidableEq, Repr

def sStatistic (values : List ℚ) : Int :=
  pairSum (fun earlier later => direction (later - earlier)) values

def tieTerm (values : List ℚ) : Int :=
  (((counter values).values.filter fun count => count > 1).map fun count : Nat =>
    (count * (count - 1) * (2 * count + 5) : Int)).sum

def tieCorrectedVariance (values : List ℚ) : ℚ :=
  let n : Int := values.length
  ((n * (n - 1) * (2 * n + 5) - tieTerm values : Int) : ℚ) / 18

section
variable [NormalMath]

def mathSqrt (v : ℚ) : Except String ℚ :=
  if v < 0 then .error "math domain error" else .ok (NormalMath.sqrt v)

def zStatistic (s : Int) (variance : ℚ) : Except String ℚ := do
  if s > 0 then
    divide (s - 1) (← mathSqrt variance)
  else if s < 0 then
    divide (s + 1) (← mathSqrt variance)
  else
    return 0

def trendStatus (pValue alpha : ℚ) (s : Int) : TrendStatus × String :=
  if pValue ≤ alpha ∧ s > 0 then
    (.significantIncrease, "window rates show a significant increasing monotonic trend")
  else if pValue ≤ alpha ∧ s < 0 then
    (.significantDecrease, "window rates show a significant decreasing monotonic trend")
  else
    (.noSignificantTrend, "window rates do not clear the configured significance threshold")

/-- The test once the windows are counted: from the number of windows, the statistic and the
variance. -/
def assess (n : Nat) (s : Int) (variance alpha : ℚ) : Except String MannKendallTrendTest := do
  if variance ≤ 0 then
    return { sampleSize := n, sStatistic := s, variance := 0, zStatistic := 0,
             pValue := some 1, alpha, status := .noSignificantTrend,
             reason := "all window rates are tied" }
  let z ← zStatistic s variance
  let pValue := 2 * (1 - NormalMath.cdf |z|)
  let (status, reason) := trendStatus pValue alpha s
  return { sampleSize := n, sStatistic := s, variance, zStatistic := z, pValue := some pValue,
           alpha, status, reason }

def mannKendallTrendTest (values : List ℚ) (alpha : ℚ) : Except String MannKendallTrendTest := do
  if ¬ (0 < alpha ∧ alpha < 1) then
    throw "alpha must be between 0.0 and 1.0"
  let n := values.length
  let s := sStatistic values
  if n < 3 then
    return { sampleSize := n, sStatistic := s, variance := 0, zStatistic := 0, pValue := none,
             alpha, status := .insufficientData,
             reason := "need at least three non-empty windows to test a trend" }
  assess n s (tieCorrectedVariance values) alpha

end

end Sediment.Export.TrendTest
