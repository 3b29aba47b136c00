import Sediment.Base.Averages
import Sediment.Export.OutcomeRates

namespace Sediment.Proofs.OutcomeRates
open Sediment.Base Sediment.Base.Averages Sediment.Export.OutcomeRates

/-- A cell as `rate` builds it from counts. -/
structure Proper (cell : StratifiedRate) : Prop where
  nonneg : 0 ≤ cell.numerator
  le : cell.numerator ≤ cell.denominator
  ratio : cell.rate = ratio cell.numerator cell.denominator

instance (cell : StratifiedRate) : Decidable (Proper cell) :=
  decidable_of_iff (0 ≤ cell.numerator ∧ cell.numerator ≤ cell.denominator ∧
    cell.rate = Export.OutcomeRates.ratio cell.numerator cell.denominator)
    ⟨fun h => ⟨h.1, h.2.1, h.2.2⟩, fun h => ⟨h.1, h.2, h.3⟩⟩

variable {cell : StratifiedRate} {rates : List StratifiedRate}

theorem divide_ok {a b : ℚ} (h : b ≠ 0) : divide a b = .ok (a / b) := if_neg h

theorem mapM_ok {α β ε : Type} {f : α → Except ε β} {g : α → β} {xs : List α}
    (h : ∀ x ∈ xs, f x = .ok (g x)) : xs.mapM f = .ok (xs.map g) := by
  induction xs with
  | nil => rfl
  | cons x xs ih =>
    rw [List.mapM_cons, h x (by simp), ih fun y hy => h y (List.mem_cons_of_mem _ hy)]
    rfl

theorem Proper.denominator_nonneg (h : Proper cell) : 0 ≤ cell.denominator :=
  h.nonneg.trans h.le

theorem Proper.rate_mul (h : Proper cell) : (cell.denominator : ℚ) * cell.rate = cell.numerator := by
  rw [h.ratio]
  unfold Export.OutcomeRates.ratio
  split_ifs with hd
  · field_simp
  · have h0 : cell.numerator = 0 := by
      have := h.nonneg
      have := h.le
      omega
    simp [h0]

theorem Proper.rate_bounds (h : Proper cell) : 0 ≤ cell.rate ∧ cell.rate ≤ 1 := by
  rw [h.ratio]
  unfold Export.OutcomeRates.ratio
  split_ifs with hd
  · have hpos : (0 : ℚ) < cell.denominator := by
      exact_mod_cast lt_of_le_of_ne h.denominator_nonneg (Ne.symm hd)
    have hn : (0 : ℚ) ≤ cell.numerator := by exact_mod_cast h.nonneg
    have hle : (cell.numerator : ℚ) ≤ cell.denominator := by exact_mod_cast h.le
    exact ⟨div_nonneg hn hpos.le, (div_le_one hpos).mpr hle⟩
  · exact ⟨le_refl 0, zero_le_one⟩

def mean (rates : List StratifiedRate) : ℚ :=
  (rates.map fun rate => (rate.numerator : ℚ)).sum / totalDenominator rates

def withData (rates : List StratifiedRate) : List StratifiedRate :=
  rates.filter fun rate => rate.denominator ≠ 0

def observed (rates : List StratifiedRate) : ℚ :=
  ((withData rates).map fun rate => (rate.denominator : ℚ) * (rate.rate - mean rates) ^ 2).sum /
    totalDenominator rates

def sampling (rates : List StratifiedRate) : ℚ :=
  ((withData rates).map fun rate =>
    (rate.denominator : ℚ) * (mean rates * (1 - mean rates) / rate.denominator)).sum /
    totalDenominator rates

theorem moments_ok (ht : 0 < totalDenominator rates) :
    moments rates = .ok
      { grandMean := mean rates
        binomialVariance := mean rates * (1 - mean rates)
        betweenVariance := observed rates - sampling rates } := by
  have hne : (totalDenominator rates : ℚ) ≠ 0 := by exact_mod_cast ht.ne'
  have hsampling : ∀ b : ℚ, (withData rates).mapM (fun rate => do
      return (rate.denominator : ℚ) * (← divide b rate.denominator)) =
      (.ok ((withData rates).map fun rate => (rate.denominator : ℚ) * (b / rate.denominator)) :
        Except String (List ℚ)) := by
    intro b
    apply mapM_ok
    intro rate hr
    have hd : (rate.denominator : ℚ) ≠ 0 := by
      have := (List.mem_filter.mp hr).2
      exact_mod_cast (of_decide_eq_true this)
    rw [divide_ok hd]
    rfl
  unfold moments
  simp only [divide_ok hne, ok_bind]
  change ((withData rates).mapM (fun rate => do
      return (rate.denominator : ℚ) * (← divide (mean rates * (1 - mean rates)) rate.denominator))
        >>= _) = _
  rw [hsampling]
  rfl

theorem cast_sum (f : StratifiedRate → Int) (rates : List StratifiedRate) :
    (((rates.map f).sum : Int) : ℚ) = (rates.map fun rate => (f rate : ℚ)).sum := by
  induction rates with
  | nil => rfl
  | cons rate rates ih => simp [ih]

theorem weighted_mean (h : ∀ rate ∈ rates, Proper rate) (ht : 0 < totalDenominator rates) :
    (rates.map fun rate => (rate.denominator : ℚ) * rate.rate).sum =
      (rates.map fun rate => (rate.denominator : ℚ)).sum * mean rates := by
  have hne : (totalDenominator rates : ℚ) ≠ 0 := by exact_mod_cast ht.ne'
  rw [List.map_congr_left fun rate hr => (h rate hr).rate_mul, ← cast_sum StratifiedRate.denominator]
  change _ = (totalDenominator rates : ℚ) * mean rates
  unfold mean
  field_simp

theorem denominators_nonneg (h : ∀ rate ∈ rates, Proper rate) :
    ∀ rate ∈ rates, (0 : ℚ) ≤ rate.denominator := fun rate hr => by
  exact_mod_cast (h rate hr).denominator_nonneg

theorem total_pos (ht : 0 < totalDenominator rates) :
    (0 : ℚ) < (rates.map fun rate => (rate.denominator : ℚ)).sum := by
  rw [← cast_sum]
  exact_mod_cast ht

theorem mean_bounds (h : ∀ rate ∈ rates, Proper rate) (ht : 0 < totalDenominator rates) :
    0 ≤ mean rates ∧ mean rates ≤ 1 := by
  have hpos := total_pos ht
  have hb := average_bounds (denominators_nonneg h) hpos fun rate hr => (h rate hr).rate_bounds
  rw [weighted_mean h ht, mul_div_cancel_left₀ _ hpos.ne'] at hb
  exact hb

theorem binomial_nonneg (h : ∀ rate ∈ rates, Proper rate) (ht : 0 < totalDenominator rates) :
    0 ≤ mean rates * (1 - mean rates) := by
  obtain ⟨h0, h1⟩ := mean_bounds h ht
  exact mul_nonneg h0 (sub_nonneg.mpr h1)

/-- A cell without data adds nothing to a weighted sum. -/
theorem sum_withData (f : StratifiedRate → ℚ) (rates : List StratifiedRate) :
    ((withData rates).map fun rate => (rate.denominator : ℚ) * f rate).sum =
      (rates.map fun rate => (rate.denominator : ℚ) * f rate).sum := by
  induction rates with
  | nil => rfl
  | cons rate rates ih =>
    unfold withData at ih ⊢
    by_cases hd : rate.denominator = 0
    · rw [List.filter_cons_of_neg (by simpa using hd), ih, List.map_cons, List.sum_cons, hd]
      simp
    · rw [List.filter_cons_of_pos (by simpa using hd), List.map_cons, List.sum_cons, ih,
        List.map_cons, List.sum_cons]

/-- The observed variance of the cells is at most the variance of one coin of their mean. -/
theorem observed_le (h : ∀ rate ∈ rates, Proper rate) (ht : 0 < totalDenominator rates) :
    observed rates ≤ mean rates * (1 - mean rates) := by
  have hpos : (0 : ℚ) < totalDenominator rates := by exact_mod_cast ht
  have hdev := sum_sq_dev_le (denominators_nonneg h) (fun rate hr => (h rate hr).rate_bounds)
    (weighted_mean h ht)
  unfold observed
  rw [sum_withData fun rate => (rate.rate - mean rates) ^ 2, div_le_iff₀ hpos]
  rw [← cast_sum] at hdev
  rw [mul_comm (mean rates * (1 - mean rates))]
  exact hdev

theorem sampling_nonneg (h : ∀ rate ∈ rates, Proper rate) (ht : 0 < totalDenominator rates) :
    0 ≤ sampling rates := by
  have hpos : (0 : ℚ) ≤ totalDenominator rates := by exact_mod_cast ht.le
  apply div_nonneg _ hpos
  apply sum_nonneg
  intro rate hr
  have hd := denominators_nonneg h rate (List.mem_of_mem_filter hr)
  exact mul_nonneg hd (div_nonneg (binomial_nonneg h ht) hd)

/-- The moments leave room for a prior sample size that is not negative. -/
theorem between_le (h : ∀ rate ∈ rates, Proper rate) (ht : 0 < totalDenominator rates)
    {cells : Moments} (hm : moments rates = .ok cells) :
    cells.betweenVariance ≤ cells.binomialVariance := by
  rw [moments_ok ht] at hm
  cases hm
  exact (sub_le_self _ (sampling_nonneg h ht)).trans (observed_le h ht)

theorem unclipped_nonneg {cells : Moments} (hle : cells.betweenVariance ≤ cells.binomialVariance)
    (hpos : 0 < cells.betweenVariance) :
    0 ≤ cells.binomialVariance / cells.betweenVariance - 1 := by
  have h1 : 1 ≤ cells.binomialVariance / cells.betweenVariance := (one_le_div hpos).mpr hle
  linarith

theorem poolingStrength_ok {total : Int} (ht : 0 < total) (cells : Moments) :
    ∃ pooling, poolingStrength total cells = .ok pooling ∧ 0 ≤ pooling := by
  unfold poolingStrength
  split_ifs with hc
  · rw [divide_ok hc.1.ne']
    exact ⟨_, rfl, le_max_right _ _⟩
  · exact ⟨total, rfl, by exact_mod_cast ht.le⟩

/-- What shrinking a cell toward `grandMean` gives. -/
structure Shrunk (grandMean pooling : ℚ) (cell : StratifiedRate)
    (out : ShrunkStratifiedRate) : Prop where
  raw : out.rawRate = cell.rate
  mean : out.grandMean = grandMean
  pooling : out.poolingStrength = pooling
  weight : 0 < cell.denominator → 0 < out.shrinkageWeight ∧ out.shrinkageWeight ≤ 1
  between : 0 < cell.denominator →
    min cell.rate grandMean ≤ out.shrunkRate ∧ out.shrunkRate ≤ max cell.rate grandMean

theorem shrinkRate_ok {pooling : ℚ} (grandMean : ℚ) (hp : 0 ≤ pooling) (cell : StratifiedRate) :
    ∃ out, shrinkRate grandMean pooling cell = .ok out ∧ Shrunk grandMean pooling cell out := by
  unfold shrinkRate
  split_ifs with hd
  · exact ⟨_, rfl, rfl, rfl, rfl, fun h => absurd h hd.not_gt, fun h => absurd h hd.not_gt⟩
  · have hpos : (0 : ℚ) < cell.denominator := by exact_mod_cast lt_of_not_ge hd
    have hsum : (0 : ℚ) < cell.denominator + pooling := by linarith
    have hweight : 0 < (cell.denominator : ℚ) / (cell.denominator + pooling) ∧
        (cell.denominator : ℚ) / (cell.denominator + pooling) ≤ 1 :=
      ⟨div_pos hpos hsum, (div_le_one hsum).mpr (by linarith)⟩
    rw [divide_ok hsum.ne']
    exact ⟨_, rfl, rfl, rfl, rfl, fun _ => hweight,
      fun _ => blend_bounds hweight.1.le hweight.2⟩

theorem shrinkRates_ok {pooling : ℚ} (grandMean : ℚ) (hp : 0 ≤ pooling)
    (rates : List StratifiedRate) :
    ∃ shrunk, rates.mapM (shrinkRate grandMean pooling) = .ok shrunk ∧
      List.Forall₂ (Shrunk grandMean pooling) rates shrunk := by
  rcases mapM_forall₂ (shrinkRate grandMean pooling) rates with
    ⟨shrunk, hs, hall⟩ | ⟨e, -, cell, -, he⟩
  · refine ⟨shrunk, hs, hall.imp ?_⟩
    intro cell out ho
    obtain ⟨own, hown, hshrunk⟩ := shrinkRate_ok grandMean hp cell
    rw [ho] at hown
    cases hown
    exact hshrunk
  · obtain ⟨out, ho, -⟩ := shrinkRate_ok grandMean hp cell
    rw [ho] at he
    cases he

/-- Shrinking proper cells fails nowhere and keeps every cell between its rate and the mean. -/
theorem shrink_between (h : ∀ rate ∈ rates, Proper rate) (ht : 0 < totalDenominator rates) :
    ∃ cells pooling shrunk, moments rates = .ok cells ∧
      poolingStrength (totalDenominator rates) cells = .ok pooling ∧
      shrinkStratifiedRates rates = .ok shrunk ∧ 0 ≤ pooling ∧
      (0 < cells.betweenVariance → 0 < cells.binomialVariance →
        0 ≤ cells.binomialVariance / cells.betweenVariance - 1) ∧
      List.Forall₂ (Shrunk cells.grandMean pooling) rates shrunk := by
  have hm := moments_ok ht
  obtain ⟨pooling, hp, hnonneg⟩ := poolingStrength_ok ht
    { grandMean := mean rates, binomialVariance := mean rates * (1 - mean rates)
      betweenVariance := observed rates - sampling rates }
  obtain ⟨shrunk, hs, hall⟩ := shrinkRates_ok (mean rates) hnonneg rates
  refine ⟨_, pooling, shrunk, hm, hp, ?_, hnonneg, ?_, hall⟩
  · unfold shrinkStratifiedRates
    simp only [if_neg ht.not_ge, hm, ok_bind, hp, hs]
  · intro hpos _
    exact unclipped_nonneg (between_le h ht hm) hpos

def hasData (stratum : Stratum) : Bool :=
  stratum.1.denominator ≠ 0 ∧ stratum.2.denominator ≠ 0

def weight (stratum : Stratum) : ℚ :=
  stratum.1.denominator * stratum.2.denominator /
    (stratum.1.denominator + stratum.2.denominator)

def difference (stratum : Stratum) : ℚ := stratum.1.rate - stratum.2.rate

def ProperStratum (stratum : Stratum) : Prop := Proper stratum.1 ∧ Proper stratum.2

/-- The sums over the strata with data. -/
def pooledSums (strata : List Stratum) : Pooled :=
  let compared := strata.filter hasData
  { numerator := (compared.map fun stratum => weight stratum * difference stratum).sum
    weightSum := (compared.map weight).sum
    comparedRepos := compared.length }

variable {strata ys : List Stratum} {stratum : Stratum}

theorem ProperStratum.denominators_pos (h : ProperStratum stratum) (hd : hasData stratum) :
    0 < stratum.1.denominator ∧ 0 < stratum.2.denominator := by
  obtain ⟨hl, hr⟩ := of_decide_eq_true hd
  exact ⟨lt_of_le_of_ne h.1.denominator_nonneg (Ne.symm hl),
    lt_of_le_of_ne h.2.denominator_nonneg (Ne.symm hr)⟩

theorem ProperStratum.weight_pos (h : ProperStratum stratum) (hd : hasData stratum) :
    0 < weight stratum := by
  obtain ⟨hl, hr⟩ := h.denominators_pos hd
  have hl' : (0 : ℚ) < stratum.1.denominator := by exact_mod_cast hl
  have hr' : (0 : ℚ) < stratum.2.denominator := by exact_mod_cast hr
  exact div_pos (mul_pos hl' hr') (add_pos hl' hr')

theorem poolStratum_skip (pooled : Pooled) (hd : hasData stratum = false) :
    poolStratum pooled stratum = .ok pooled := by
  have h0 : stratum.1.denominator = 0 ∨ stratum.2.denominator = 0 := by
    by_contra hne
    rw [not_or] at hne
    exact absurd (decide_eq_true hne) (by rw [hasData] at hd; simp [hd])
  unfold poolStratum
  exact if_pos h0

theorem poolStratum_add (pooled : Pooled) (h : ProperStratum stratum) (hd : hasData stratum) :
    poolStratum pooled stratum = .ok
      { numerator := pooled.numerator + weight stratum * difference stratum
        weightSum := pooled.weightSum + weight stratum
        comparedRepos := pooled.comparedRepos + 1 } := by
  obtain ⟨hl, hr⟩ := h.denominators_pos hd
  have h0 : ¬ (stratum.1.denominator = 0 ∨ stratum.2.denominator = 0) := by
    rw [not_or]
    exact ⟨hl.ne', hr.ne'⟩
  have hsize : ((stratum.1.denominator + stratum.2.denominator : Int) : ℚ) ≠ 0 := by
    exact_mod_cast (add_pos hl hr).ne'
  obtain ⟨left, right⟩ := stratum
  unfold poolStratum
  simp only [if_neg h0, divide_ok hsize]
  simp [weight, difference, bind, Except.bind, pure, Except.pure]

theorem pool_from (pooled : Pooled) (h : ∀ stratum ∈ strata, ProperStratum stratum) :
    strata.foldlM poolStratum pooled = .ok
      { numerator := pooled.numerator + (pooledSums strata).numerator
        weightSum := pooled.weightSum + (pooledSums strata).weightSum
        comparedRepos := pooled.comparedRepos + (pooledSums strata).comparedRepos } := by
  induction strata generalizing pooled with
  | nil => simp [pooledSums, pure, Except.pure]
  | cons stratum strata ih =>
    have hrest : ∀ own ∈ strata, ProperStratum own := fun own ho =>
      h own (List.mem_cons_of_mem _ ho)
    rw [List.foldlM_cons]
    cases hd : hasData stratum with
    | false =>
      rw [poolStratum_skip pooled hd, ok_bind, ih pooled hrest]
      simp [pooledSums, hd]
    | true =>
      rw [poolStratum_add pooled (h stratum (by simp)) hd, ok_bind, ih _ hrest]
      simp [pooledSums, hd, add_assoc, add_comm 1]

theorem pool_ok (h : ∀ stratum ∈ strata, ProperStratum stratum) :
    strata.foldlM poolStratum {} = .ok (pooledSums strata) := by
  rw [pool_from {} h]
  simp

theorem compared_weights (h : ∀ stratum ∈ strata, ProperStratum stratum) :
    ∀ stratum ∈ strata.filter hasData, 0 ≤ weight stratum := fun stratum hs =>
  ((h stratum (List.mem_of_mem_filter hs)).weight_pos (List.mem_filter.mp hs).2).le

theorem weightSum_pos (h : ∀ stratum ∈ strata, ProperStratum stratum)
    (hd : ∃ stratum ∈ strata, hasData stratum) : 0 < (pooledSums strata).weightSum := by
  obtain ⟨stratum, hs, hdata⟩ := hd
  exact sum_pos (compared_weights h) (List.mem_filter.mpr ⟨hs, hdata⟩)
    ((h stratum hs).weight_pos hdata)

/-- The row that the pooled strata give. -/
def riskDifference (leftModel rightModel : String) (aggregateLeft aggregateRight : StratifiedRate)
    (strata : List Stratum) (skippedRepos : Nat) : MantelHaenszelRiskDifference :=
  let pooled := pooledSums strata
  { leftModel, rightModel, aggregateLeft, aggregateRight
    naiveDelta := aggregateLeft.rate - aggregateRight.rate
    adjustedDelta := pooled.numerator / pooled.weightSum
    comparedRepos := pooled.comparedRepos, skippedRepos, weightSum := pooled.weightSum }

theorem mantelHaenszel_ok (leftModel rightModel : String)
    (aggregateLeft aggregateRight : StratifiedRate) (skippedRepos : Nat)
    (h : ∀ stratum ∈ strata, ProperStratum stratum) (hd : ∃ stratum ∈ strata, hasData stratum) :
    mantelHaenszelRiskDifference leftModel rightModel aggregateLeft aggregateRight strata
        skippedRepos =
      .ok (some (riskDifference leftModel rightModel aggregateLeft aggregateRight strata
        skippedRepos)) := by
  have hpos := weightSum_pos h hd
  unfold mantelHaenszelRiskDifference
  simp only [pool_ok h, ok_bind, if_neg hpos.ne', divide_ok hpos.ne']
  rfl

theorem pooledSums_perm (h : strata.Perm ys) : pooledSums strata = pooledSums ys := by
  have hf := h.filter hasData
  unfold pooledSums
  simp only [(hf.map _).sum_eq, hf.length_eq]

theorem hasData_swap (stratum : Stratum) : hasData stratum.swap = hasData stratum := by
  unfold hasData
  rw [decide_eq_decide]
  exact and_comm

theorem weight_swap (stratum : Stratum) : weight stratum.swap = weight stratum := by
  unfold weight
  rw [Prod.fst_swap, Prod.snd_swap, mul_comm, add_comm]

theorem difference_swap (stratum : Stratum) : difference stratum.swap = -difference stratum := by
  unfold difference
  rw [Prod.fst_swap, Prod.snd_swap, neg_sub]

theorem pooledSums_swap (strata : List Stratum) :
    pooledSums (strata.map Prod.swap) =
      { pooledSums strata with numerator := -(pooledSums strata).numerator } := by
  have hfilter : (strata.map Prod.swap).filter hasData =
      (strata.filter hasData).map Prod.swap := by
    rw [List.filter_map]
    congr 1
    exact List.filter_congr fun stratum _ => hasData_swap stratum
  have hneg : ∀ l : List Stratum,
      (l.map fun stratum => weight stratum * difference stratum.swap).sum =
        -(l.map fun stratum => weight stratum * difference stratum).sum := by
    intro l
    rw [List.sum_neg, List.map_map]
    congr 1
    apply List.map_congr_left
    intro stratum _
    rw [difference_swap, mul_neg]
    rfl
  unfold pooledSums
  simp only [hfilter, List.map_map, List.length_map, Function.comp_def, hneg, weight_swap]

/-- The pooled difference lies between the differences of the strata, is the other way round
with the models exchanged, and does not depend on the order of the strata. -/
theorem mantelHaenszel_between (leftModel rightModel : String)
    (aggregateLeft aggregateRight : StratifiedRate) (skippedRepos : Nat)
    (h : ∀ stratum ∈ strata, ProperStratum stratum) (hd : ∃ stratum ∈ strata, hasData stratum) :
    ∃ row, mantelHaenszelRiskDifference leftModel rightModel aggregateLeft aggregateRight strata
        skippedRepos = .ok (some row) ∧
      (∀ lo hi, (∀ stratum ∈ strata, hasData stratum →
          lo ≤ difference stratum ∧ difference stratum ≤ hi) →
        lo ≤ row.adjustedDelta ∧ row.adjustedDelta ≤ hi) ∧
      (∃ swapped, mantelHaenszelRiskDifference rightModel leftModel aggregateRight aggregateLeft
          (strata.map Prod.swap) skippedRepos = .ok (some swapped) ∧
        swapped.adjustedDelta = -row.adjustedDelta) ∧
      ∀ ys, strata.Perm ys →
        mantelHaenszelRiskDifference leftModel rightModel aggregateLeft aggregateRight ys
          skippedRepos = .ok (some row) := by
  have hok := mantelHaenszel_ok leftModel rightModel aggregateLeft aggregateRight skippedRepos h hd
  refine ⟨_, hok, ?_, ?_, ?_⟩
  · intro lo hi hb
    apply average_bounds (compared_weights h) (weightSum_pos h hd)
    intro stratum hs
    obtain ⟨hmem, hdata⟩ := List.mem_filter.mp hs
    exact hb stratum hmem hdata
  · have hproper : ∀ stratum ∈ strata.map Prod.swap, ProperStratum stratum := by
      intro stratum hs
      obtain ⟨own, hown, rfl⟩ := List.mem_map.mp hs
      exact (h own hown).symm
    have hdata : ∃ stratum ∈ strata.map Prod.swap, hasData stratum := by
      obtain ⟨own, hown, ho⟩ := hd
      exact ⟨own.swap, List.mem_map_of_mem hown, by rw [hasData_swap]; exact ho⟩
    refine ⟨_, mantelHaenszel_ok rightModel leftModel aggregateRight aggregateLeft skippedRepos
      hproper hdata, ?_⟩
    unfold riskDifference
    rw [pooledSums_swap]
    exact neg_div _ _
  · intro ys hp
    have hproper : ∀ stratum ∈ ys, ProperStratum stratum := fun stratum hs =>
      h stratum (hp.mem_iff.mpr hs)
    have hdata : ∃ stratum ∈ ys, hasData stratum := by
      obtain ⟨own, hown, ho⟩ := hd
      exact ⟨own, hp.mem_iff.mp hown, ho⟩
    rw [mantelHaenszel_ok leftModel rightModel aggregateLeft aggregateRight skippedRepos hproper
      hdata]
    unfold riskDifference
    rw [pooledSums_perm hp]

/-- Shrunk rates and pooled differences lie between what they are made from. -/
theorem rates_between :
    (∀ rates : List StratifiedRate, (∀ rate ∈ rates, Proper rate) → 0 < totalDenominator rates →
      ∃ cells pooling shrunk, moments rates = .ok cells ∧
        poolingStrength (totalDenominator rates) cells = .ok pooling ∧
        shrinkStratifiedRates rates = .ok shrunk ∧ 0 ≤ pooling ∧
        (0 < cells.betweenVariance → 0 < cells.binomialVariance →
          0 ≤ cells.binomialVariance / cells.betweenVariance - 1) ∧
        List.Forall₂ (Shrunk cells.grandMean pooling) rates shrunk) ∧
    ∀ (leftModel rightModel : String) (aggregateLeft aggregateRight : StratifiedRate)
      (skippedRepos : Nat) (strata : List Stratum), (∀ stratum ∈ strata, ProperStratum stratum) →
      (∃ stratum ∈ strata, hasData stratum) →
      ∃ row, mantelHaenszelRiskDifference leftModel rightModel aggregateLeft aggregateRight strata
          skippedRepos = .ok (some row) ∧
        (∀ lo hi, (∀ stratum ∈ strata, hasData stratum →
            lo ≤ difference stratum ∧ difference stratum ≤ hi) →
          lo ≤ row.adjustedDelta ∧ row.adjustedDelta ≤ hi) ∧
        (∃ swapped, mantelHaenszelRiskDifference rightModel leftModel aggregateRight aggregateLeft
            (strata.map Prod.swap) skippedRepos = .ok (some swapped) ∧
          swapped.adjustedDelta = -row.adjustedDelta) ∧
        ∀ ys, strata.Perm ys →
          mantelHaenszelRiskDifference leftModel rightModel aggregateLeft aggregateRight ys
            skippedRepos = .ok (some row) := by
  constructor
  · intro rates hproper htotal
    exact shrink_between hproper htotal
  · intro leftModel rightModel aggregateLeft aggregateRight skippedRepos strata hproper hdata
    exact mantelHaenszel_between leftModel rightModel aggregateLeft aggregateRight skippedRepos
      hproper hdata

def sampleRates : List StratifiedRate := [rate "m" 1 1, rate "m" 0 5, rate "m" 30 40]

def sampleStrata : List Stratum :=
  [(rate "a" 3 4, rate "b" 1 4), (rate "a" 1 2, rate "b" 0 0), (rate "a" 1 6, rate "b" 1 2)]

theorem sample_rates_shrink :
    (∃ shrunk, shrinkStratifiedRates sampleRates = .ok shrunk) ∧
    ∃ row, mantelHaenszelRiskDifference "a" "b" (rate "a" 5 12) (rate "b" 2 6) sampleStrata 1 =
        .ok (some row) ∧ -1 / 3 ≤ row.adjustedDelta ∧ row.adjustedDelta ≤ 1 / 2 := by
  obtain ⟨-, -, shrunk, -, -, hs, -⟩ :=
    rates_between.1 sampleRates (by decide +kernel) (by decide)
  obtain ⟨row, hr, hb, -⟩ := rates_between.2 "a" "b" (rate "a" 5 12) (rate "b" 2 6) 1 sampleStrata
    (by unfold ProperStratum; decide +kernel) (by decide +kernel)
  exact ⟨⟨shrunk, hs⟩, row, hr, hb (-1 / 3) (1 / 2) (by decide +kernel)⟩

end Sediment.Proofs.OutcomeRates
