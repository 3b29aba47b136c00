import Sediment.Base.Ordering

namespace Sediment.Export.Calibration
open Sediment.Base

/-- `tuple[float, bool]`, with a rational for the float. -/
abbrev CalibrationPair := ℚ × Bool

def validatePairs (pairs : List CalibrationPair) : Except String Unit :=
  pairs.forM fun pair =>
    if pair.1 < 0 ∨ pair.1 > 1 then
      .error "predicted_confidence values must be between 0.0 and 1.0"
    else .ok ()

/-- The rank loop of `auroc` from `index` on: the pairs not yet ranked, in order. -/
def rankSumPos (rankSum : ℚ) (index : Nat) : List CalibrationPair → ℚ
  | [] => rankSum
  | first :: rest =>
    let tied := first :: rest.takeWhile fun pair => pair.1 = first.1
    let tiedUntil := index + tied.length
    let averageRank : ℚ := (index + 1 + tiedUntil) / 2
    rankSumPos (rankSum + averageRank * tied.countP fun pair => pair.2) tiedUntil
      (rest.dropWhile fun pair => pair.1 = first.1)
termination_by pairs => pairs.length
decreasing_by
  exact Nat.lt_succ_of_le (List.dropWhile_sublist _).length_le

/-- The area under the ROC curve, by ranks; tied predictions share their average rank. -/
def auroc (pairs : List CalibrationPair) : Except String ℚ := do
  validatePairs pairs
  let nPos := pairs.countP fun pair => pair.2
  let nNeg := pairs.length - nPos
  if nPos = 0 ∨ nNeg = 0 then
    return 0
  let ordered := sortedBy Prod.fst pairs
  let uStatistic := rankSumPos 0 0 ordered - (nPos * (nPos + 1) : ℚ) / 2
  return uStatistic / (nPos * nNeg)

end Sediment.Export.Calibration
