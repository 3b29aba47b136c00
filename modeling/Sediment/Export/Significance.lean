import Mathlib.Data.Nat.Choose.Basic
import Sediment.Base.Dict
import Sediment.Base.StepUp

namespace Sediment.Export.Significance
open Sediment.Base

/-- The floating-point operations of a test. A float stands for a number,
`ofRat` gives the float nearest to one; a quotient of integers is rounded once. `invCdf` fails
outside (0, 1). -/
class FloatMath (φ : Type) where
  toRat : φ → ℚ
  ofRat : ℚ → φ
  add : φ → φ → φ
  sub : φ → φ → φ
  mul : φ → φ → φ
  div : φ → φ → φ
  abs : φ → φ
  sqrt : φ → φ
  asin : φ → φ
  cdf : φ → φ
  invCdf : φ → Option φ

/-- What holds of every rounding: a sum does not depend on the order of its terms, and a
difference the other way round is the same number with the other sign. -/
class LawfulFloatMath (φ : Type) [FloatMath φ] : Prop where
  add_comm : ∀ x y : φ, FloatMath.add x y = FloatMath.add y x
  abs_div_sub : ∀ x y s : φ, FloatMath.abs (FloatMath.div (FloatMath.sub x y) s) =
    FloatMath.abs (FloatMath.div (FloatMath.sub y x) s)

/-- The columns of a report that a comparison reads. -/
structure ModelOutcomeReport where
  model : String
  completions : Int
  attributedInferenceCalls : Int
  ciLinked : Int
  ciPassed : Int
  deriving DecidableEq, Repr

/-- The z-test of one metric. The last three fields are those of the whole family. -/
structure ProportionComparison (φ : Type) where
  proportionA : φ
  proportionB : φ
  difference : φ
  cohensH : φ
  ciLow : φ
  ciHigh : φ
  zStat : φ
  pValue : φ
  alpha : φ
  bonferroniAlpha : φ
  significantAtAlpha : Bool
  significantAfterBonferroni : Bool
  baselineP : φ
  minimumDetectableEffect : φ
  nA : Int
  nB : Int
  insufficientData : Bool
  smallN : Bool
  degenerateSe : Bool
  benjaminiHochbergRank : Option Nat := none
  benjaminiHochbergAlpha : Option ℚ := none
  significantAfterBenjaminiHochberg : Option Bool := none

/-- A comparison of two models, without the Bayesian read-outs. -/
structure ModelComparison (φ : Type) where
  modelA : String
  modelB : String
  alpha : φ
  bonferroniAlpha : φ
  comparisonFamilySize : Nat
  ciPassRate : ProportionComparison φ
  attributionRate : ProportionComparison φ

structure MultiModelComparison (φ : Type) where
  models : List String
  alpha : φ
  comparisonFamilySize : Nat
  testedFamilySize : Nat
  comparisons : List (ModelComparison φ)

inductive MetricName where
  | ciPassRate | attributionRate
  deriving DecidableEq, Repr

def metricNames : List MetricName := [.ciPassRate, .attributionRate]

def smallNThreshold : Int := 30

section
variable {φ : Type} [FloatMath φ]
open FloatMath

def validateAlpha (alpha : φ) : Except String Unit :=
  if 0 < toRat alpha ∧ toRat alpha < 1 then .ok () else .error "alpha must be between 0 and 1"

def validateSuccessCounts (successes n : Int) (label : String) : Except String Unit :=
  if n < 0 then .error ("n_" ++ label ++ " must be non-negative")
  else if successes < 0 then .error ("successes_" ++ label ++ " must be non-negative")
  else if n < successes then .error ("successes_" ++ label ++ " must be <= n_" ++ label)
  else .ok ()

/-- `inv_cdf`, which raises outside the open interval. -/
def quantile (p : φ) : Except String φ :=
  match invCdf p with
  | some z => .ok z
  | none => .error "p must be in the range 0.0 < p < 1.0"

def unitFraction (n : Int) : φ := ofRat (1 / n)

def cohensH (proportionA proportionB : φ) : Except String φ :=
  if ¬(0 ≤ toRat proportionA ∧ toRat proportionA ≤ 1) then
    .error "proportion_a must be between 0 and 1"
  else if ¬(0 ≤ toRat proportionB ∧ toRat proportionB ≤ 1) then
    .error "proportion_b must be between 0 and 1"
  else .ok (sub (mul (ofRat 2) (asin (sqrt proportionA)))
    (mul (ofRat 2) (asin (sqrt proportionB))))

/-- `p * (1 - p) * (1 / n_a + 1 / n_b)` -/
def pooledVariance (p : φ) (nA nB : Int) : φ :=
  mul (mul p (sub (ofRat 1) p)) (add (unitFraction nA) (unitFraction nB))

/-- The default alpha and power are 0.05 and 0.80. -/
def minimumDetectableEffect (nA nB : Int) (baselineP : φ) : Except String φ := do
  if nA ≤ 0 ∨ nB ≤ 0 then return ofRat 0
  if ¬(0 ≤ toRat baselineP ∧ toRat baselineP ≤ 1) then
    throw "baseline_p must be between 0 and 1"
  let zAlpha ← quantile (sub (ofRat 1) (div (ofRat (5 / 100)) (ofRat 2)) : φ)
  let zBeta ← quantile (ofRat (8 / 10) : φ)
  return mul (add zAlpha zBeta) (sqrt (pooledVariance baselineP nA nB))

def normalApproximationDifferenceCi (proportionLeft : φ) (nLeft : Int) (proportionRight : φ)
    (nRight : Int) (difference confidence : φ) : Except String (φ × φ) := do
  let share := fun (p : φ) (n : Int) => div (mul p (sub (ofRat 1) p)) (ofRat n)
  let seUnpooled := sqrt (add (share proportionLeft nLeft) (share proportionRight nRight))
  let zCrit ← quantile (sub (ofRat 1) (div (sub (ofRat 1) confidence) (ofRat 2)))
  return (sub difference (mul zCrit seUnpooled), add difference (mul zCrit seUnpooled))

/-- The pooled proportion of both groups. -/
def pooledProportion (successesA nA successesB nB : Int) : φ :=
  ofRat ((successesA + successesB : Int) / (nA + nB : Int))

def insufficientComparison (nA nB : Int) (alpha bonferroniAlpha : φ) : ProportionComparison φ where
  proportionA := ofRat 0
  proportionB := ofRat 0
  difference := ofRat 0
  cohensH := ofRat 0
  ciLow := ofRat 0
  ciHigh := ofRat 0
  zStat := ofRat 0
  pValue := ofRat 0
  alpha
  bonferroniAlpha
  significantAtAlpha := false
  significantAfterBonferroni := false
  baselineP := ofRat 0
  minimumDetectableEffect := ofRat 0
  nA
  nB
  insufficientData := true
  smallN := false
  degenerateSe := false

/-- `two_proportion_z_test` without a sequential boundary. -/
def twoProportionZTest (successesA nA successesB nB : Int) (confidence alpha : φ)
    (comparisonFamilySize : Nat) : Except String (ProportionComparison φ) := do
  validateAlpha alpha
  if comparisonFamilySize = 0 then throw "comparison_family_size must be positive"
  let bonferroniAlpha := div alpha (ofRat comparisonFamilySize)
  if nA ≤ 0 ∨ nB ≤ 0 then return insufficientComparison nA nB alpha bonferroniAlpha
  let pA : φ := ofRat (successesA / nA)
  let pB : φ := ofRat (successesB / nB)
  let difference := sub pA pB
  let effectSize ← cohensH pA pB
  let pooledP : φ := pooledProportion successesA nA successesB nB
  let sePooled := sqrt (pooledVariance pooledP nA nB)
  let degenerateSe : Bool := toRat sePooled = 0
  let zStat := if degenerateSe then ofRat 0 else div difference sePooled
  let pValue := if degenerateSe then ofRat 1
    else mul (ofRat 2) (sub (ofRat 1) (cdf (abs zStat)))
  let effect : Except String φ :=
    if degenerateSe then .ok (ofRat 0) else minimumDetectableEffect nA nB pooledP
  let detectableEffect ← effect
  let ci ← normalApproximationDifferenceCi pA nA pB nB difference confidence
  return {
    proportionA := pA
    proportionB := pB
    difference
    cohensH := effectSize
    ciLow := ci.1
    ciHigh := ci.2
    zStat
    pValue
    alpha
    bonferroniAlpha
    significantAtAlpha := toRat pValue < toRat alpha
    significantAfterBonferroni := toRat pValue < toRat bonferroniAlpha
    baselineP := pooledP
    minimumDetectableEffect := detectableEffect
    nA
    nB
    insufficientData := false
    smallN := nA < smallNThreshold || nB < smallNThreshold
    degenerateSe }

/-- The counts of the Bayesian comparison are checked after the tests. -/
def validateBetaBinomialInputs (successesA nA successesB nB : Int) : Except String Unit := do
  validateSuccessCounts successesA nA "a"
  validateSuccessCounts successesB nB "b"

def compareModels (reportA reportB : ModelOutcomeReport) (confidence alpha : φ)
    (comparisonFamilySize : Nat) : Except String (ModelComparison φ) := do
  let ciPassRate ← twoProportionZTest reportA.ciPassed reportA.ciLinked reportB.ciPassed
    reportB.ciLinked confidence alpha comparisonFamilySize
  let attributionRate ← twoProportionZTest reportA.attributedInferenceCalls reportA.completions
    reportB.attributedInferenceCalls reportB.completions confidence alpha comparisonFamilySize
  validateBetaBinomialInputs reportA.ciPassed reportA.ciLinked reportB.ciPassed reportB.ciLinked
  validateBetaBinomialInputs reportA.attributedInferenceCalls reportA.completions
    reportB.attributedInferenceCalls reportB.completions
  return {
    modelA := reportA.model
    modelB := reportB.model
    alpha
    bonferroniAlpha := div alpha (ofRat comparisonFamilySize)
    comparisonFamilySize
    ciPassRate
    attributionRate }

def ModelComparison.metric (c : ModelComparison φ) : MetricName → ProportionComparison φ
  | .ciPassRate => c.ciPassRate
  | .attributionRate => c.attributionRate

structure RankedPValue where
  comparisonIndex : Nat
  metric : MetricName
  pValue : ℚ
  originalIndex : Nat
  deriving DecidableEq

def RankedPValue.key (item : RankedPValue) : Nat × MetricName := (item.comparisonIndex, item.metric)

/-- `combinations(items, 2)` -/
def pairs {α : Type} : List α → List (α × α)
  | [] => []
  | x :: rest => rest.map (x, ·) ++ pairs rest

/-- Every metric of every comparison, with the place of the comparison. -/
def slots (comparisons : List (ModelComparison φ)) : List (Nat × MetricName × ModelComparison φ) :=
  comparisons.zipIdx.flatMap (fun c => metricNames.map (fun metric => (c.2, metric, c.1)))

/-- One slot in the loop that gathers the p-values. -/
def rankSlot (ranked : List RankedPValue) (slot : Nat × MetricName × ModelComparison φ) :
    List RankedPValue :=
  if (slot.2.2.metric slot.2.1).insufficientData then ranked
  else ranked ++ [⟨slot.1, slot.2.1, toRat (slot.2.2.metric slot.2.1).pValue, ranked.length⟩]

def rankedPValues (comparisons : List (ModelComparison φ)) : List RankedPValue :=
  (slots comparisons).foldl rankSlot []

def sortKey (item : RankedPValue) : ℚ ×ₗ Nat := toLex (item.pValue, item.originalIndex)

/-- The loop that finds the last passing rank. -/
def rejectedCount (alpha : ℚ) (sorted : List RankedPValue) : Nat :=
  (sorted.zipIdx 1).foldl (fun rejected item =>
    if item.1.pValue ≤ item.2 / sorted.length * alpha then item.2 else rejected) 0

def ranksByMetric (sorted : List RankedPValue) : Dict (Nat × MetricName) Nat :=
  (sorted.zipIdx 1).foldl (fun d item => d.set item.1.key item.2) Dict.empty

/-- What the family adds to a test that is part of it. -/
def fdrByMetric (comparisons : List (ModelComparison φ)) (alpha : ℚ) :
    Dict (Nat × MetricName) (ProportionComparison φ) :=
  let ranked := rankedPValues comparisons
  let sorted := sortedBy sortKey ranked
  let rejected := rejectedCount alpha sorted
  let bhAlpha := if rejected ≠ 0 then rejected / sorted.length * alpha else 0
  let rejectedKeys := (sorted.take rejected).map RankedPValue.key
  ranked.foldl (fun d item =>
    match comparisons[item.comparisonIndex]? with
    | none => d
    | some comparison => d.set item.key { comparison.metric item.metric with
        benjaminiHochbergRank := (ranksByMetric sorted).get? item.key
        benjaminiHochbergAlpha := some bhAlpha
        significantAfterBenjaminiHochberg := some (rejectedKeys.contains item.key) }) Dict.empty

/-- A test with what the family has for its slot. -/
def adjusted (fdr : Dict (Nat × MetricName) (ProportionComparison φ)) (index : Nat)
    (metric : MetricName) (pc : ProportionComparison φ) : ProportionComparison φ :=
  (fdr.get? (index, metric)).getD { pc with
    benjaminiHochbergAlpha := some 0
    significantAfterBenjaminiHochberg := some false }

def compareAllModels (reports : List ModelOutcomeReport) (confidence alpha : φ) :
    Except String (MultiModelComparison φ) := do
  validateAlpha alpha
  if reports.length < 2 then throw "compare_all_models requires at least two models"
  let models := reports.map ModelOutcomeReport.model
  if ¬models.Nodup then throw "compare_all_models requires unique model names"
  let comparisonFamilySize := 2 * reports.length.choose 2
  let comparisonsByPair ← (pairs reports).mapM (fun p =>
    compareModels p.1 p.2 confidence alpha comparisonFamilySize)
  let fdr := fdrByMetric comparisonsByPair (toRat alpha)
  return {
    models
    alpha
    comparisonFamilySize
    testedFamilySize := (rankedPValues comparisonsByPair).length
    comparisons := comparisonsByPair.zipIdx.map (fun c => { c.1 with
      ciPassRate := adjusted fdr c.2 .ciPassRate c.1.ciPassRate
      attributionRate := adjusted fdr c.2 .attributionRate c.1.attributionRate }) }

end

end Sediment.Export.Significance
