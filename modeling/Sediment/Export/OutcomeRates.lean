import Sediment.Base.Results

namespace Sediment.Export.OutcomeRates
open Sediment.Base

/-- Division of floats, for which rationals stand. -/
def divide (a b : ℚ) : Except String ℚ :=
  if b = 0 then .error "division by zero" else .ok (a / b)

structure StratifiedRate where
  model : String
  numerator : Int
  denominator : Int
  rate : ℚ
  deriving DecidableEq, Repr

def ratio (numerator denominator : Int) : ℚ :=
  if denominator ≠ 0 then numerator / denominator else 0

def rate (model : String) (numerator denominator : Int) : StratifiedRate :=
  { model, numerator, denominator, rate := ratio numerator denominator }

structure ShrunkStratifiedRate where
  model : String
  numerator : Int
  denominator : Int
  rawRate : ℚ
  shrunkRate : ℚ
  grandMean : ℚ
  shrinkageWeight : ℚ
  poolingStrength : ℚ
  deriving DecidableEq, Repr

/-- What `shrink_stratified_rates` computes from all cells before it shrinks each. -/
structure Moments where
  grandMean : ℚ
  binomialVariance : ℚ
  betweenVariance : ℚ
  deriving DecidableEq, Repr

def totalDenominator (rates : List StratifiedRate) : Int :=
  (rates.map fun rate => rate.denominator).sum

def moments (rates : List StratifiedRate) : Except String Moments := do
  let total : ℚ := totalDenominator rates
  let grandMean ← divide (rates.map fun rate => rate.numerator).sum total
  let binomialVariance := grandMean * (1 - grandMean)
  let withData := rates.filter fun rate => rate.denominator ≠ 0
  let observedVariance ←
    divide (withData.map fun rate => rate.denominator * (rate.rate - grandMean) ^ 2).sum total
  let sampling ← withData.mapM fun rate => do
    return rate.denominator * (← divide binomialVariance rate.denominator)
  let expectedSamplingVariance ← divide sampling.sum total
  return { grandMean, binomialVariance,
           betweenVariance := observedVariance - expectedSamplingVariance }

def poolingStrength (total : Int) (cells : Moments) : Except String ℚ := do
  if cells.betweenVariance > 0 ∧ cells.binomialVariance > 0 then
    return max ((← divide cells.binomialVariance cells.betweenVariance) - 1) 0
  else
    return total

def shrinkRate (grandMean pooling : ℚ) (rate : StratifiedRate) :
    Except String ShrunkStratifiedRate := do
  let (weight, shrunkRate) ←
    if rate.denominator ≤ 0 then
      pure (0, grandMean)
    else do
      let weight ← divide rate.denominator (rate.denominator + pooling)
      pure (weight, weight * rate.rate + (1 - weight) * grandMean)
  return { model := rate.model, numerator := rate.numerator, denominator := rate.denominator,
           rawRate := rate.rate, shrunkRate, grandMean, shrinkageWeight := weight,
           poolingStrength := pooling }

def unshrunk (rate : StratifiedRate) : ShrunkStratifiedRate :=
  { model := rate.model, numerator := rate.numerator, denominator := rate.denominator,
    rawRate := rate.rate, shrunkRate := rate.rate, grandMean := 0, shrinkageWeight := 0,
    poolingStrength := 0 }

def shrinkStratifiedRates (rates : List StratifiedRate) :
    Except String (List ShrunkStratifiedRate) := do
  let total := totalDenominator rates
  if total ≤ 0 then
    return rates.map unshrunk
  let cells ← moments rates
  let pooling ← poolingStrength total cells
  rates.mapM (shrinkRate cells.grandMean pooling)

def direction (delta : ℚ) : Int :=
  if delta > 0 then 1 else if delta < 0 then -1 else 0

structure MantelHaenszelRiskDifference where
  leftModel : String
  rightModel : String
  aggregateLeft : StratifiedRate
  aggregateRight : StratifiedRate
  naiveDelta : ℚ
  adjustedDelta : ℚ
  comparedRepos : Nat
  skippedRepos : Nat
  weightSum : ℚ
  deriving DecidableEq, Repr

abbrev Stratum := StratifiedRate × StratifiedRate

/-- The running sums of the strata seen so far. -/
structure Pooled where
  numerator : ℚ := 0
  weightSum : ℚ := 0
  comparedRepos : Nat := 0
  deriving DecidableEq, Repr

def poolStratum (pooled : Pooled) (stratum : Stratum) : Except String Pooled := do
  let (left, right) := stratum
  if left.denominator = 0 ∨ right.denominator = 0 then
    return pooled
  let stratumSize := left.denominator + right.denominator
  let weight ← divide (left.denominator * right.denominator) stratumSize
  return { numerator := pooled.numerator + weight * (left.rate - right.rate)
           weightSum := pooled.weightSum + weight
           comparedRepos := pooled.comparedRepos + 1 }

def mantelHaenszelRiskDifference (leftModel rightModel : String)
    (aggregateLeft aggregateRight : StratifiedRate) (strata : List Stratum)
    (skippedRepos : Nat) : Except String (Option MantelHaenszelRiskDifference) := do
  let pooled ← strata.foldlM poolStratum {}
  if pooled.weightSum = 0 then
    return none
  let adjustedDelta ← divide pooled.numerator pooled.weightSum
  return some
    { leftModel, rightModel, aggregateLeft, aggregateRight
      naiveDelta := aggregateLeft.rate - aggregateRight.rate
      adjustedDelta, comparedRepos := pooled.comparedRepos, skippedRepos
      weightSum := pooled.weightSum }

end Sediment.Export.OutcomeRates
