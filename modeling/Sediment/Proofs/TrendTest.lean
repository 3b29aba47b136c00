import Sediment.Export.TrendTest

namespace Sediment.Proofs.TrendTest
open Sediment.Base Sediment.Base.Trend Sediment.Export.OutcomeRates Sediment.Export.TrendTest

/-- The variance, times 18, of `n` values of one group. -/
def groupTerm (n : Nat) : Int := n * (n - 1) * (2 * n + 5)

theorem groupTerm_joins {a b : Nat} (ha : 0 < a) (hb : 0 < b) :
    groupTerm a + groupTerm b < groupTerm (a + b) := by
  have ha' : (0 : Int) < a := by exact_mod_cast ha
  have hb' : (0 : Int) < b := by exact_mod_cast hb
  have hgain : groupTerm (a + b) = groupTerm a + groupTerm b + 6 * a * b * (a + b + 1) := by
    unfold groupTerm
    push_cast
    ring
  have hpos : (0 : Int) < 6 * a * b * (a + b + 1) := by positivity
  linarith

variable {values : List ℚ}

/-- A group of one adds nothing, so that all groups may be counted. -/
theorem tieTerm_eq (values : List ℚ) :
    tieTerm values = ((counter values).values.map groupTerm).sum := by
  have hgroups : ∀ cs : List Nat, (∀ c ∈ cs, 0 < c) →
      ((cs.filter fun count => count > 1).map groupTerm).sum = (cs.map groupTerm).sum := by
    intro cs hpos
    induction cs with
    | nil => rfl
    | cons c cs ih =>
      have hrest := ih fun d hd => hpos d (List.mem_cons_of_mem _ hd)
      have hc := hpos c (by simp)
      rw [List.map_cons, List.sum_cons]
      by_cases h1 : c > 1
      · rw [List.filter_cons_of_pos (by simpa using h1), List.map_cons, List.sum_cons, hrest]
      · have hone : c = 1 := by omega
        rw [List.filter_cons_of_neg (by simpa using h1), hrest, hone]
        simp [groupTerm]
  exact hgroups _ fun c hc => values_pos hc

theorem tieTerm_le (values : List ℚ) :
    tieTerm values ≤ groupTerm values.length ∧
      (1 < (counter values).values.length → tieTerm values < groupTerm values.length) := by
  have h := sum_groups_le (g := groupTerm) rfl (fun a b ha hb => groupTerm_joins ha hb)
    (fun c (hc : c ∈ (counter values).values) => values_pos hc)
  rw [← tieTerm_eq, sum_values] at h
  exact h

theorem variance_eq (values : List ℚ) :
    tieCorrectedVariance values = ((groupTerm values.length - tieTerm values : Int) : ℚ) / 18 :=
  rfl

theorem variance_nonneg (values : List ℚ) : 0 ≤ tieCorrectedVariance values := by
  rw [variance_eq]
  have h : (0 : ℚ) ≤ ((groupTerm values.length - tieTerm values : Int) : ℚ) := by
    exact_mod_cast sub_nonneg.mpr (tieTerm_le values).1
  positivity

/-- The correction takes the whole variance exactly when there is one group. -/
theorem variance_eq_zero_iff (values : List ℚ) :
    tieCorrectedVariance values = 0 ↔ ∀ a ∈ values, ∀ b ∈ values, a = b := by
  rw [← one_group_iff, variance_eq, div_eq_zero_iff, or_iff_left (by norm_num), Int.cast_eq_zero,
    sub_eq_zero]
  constructor
  · intro h
    apply le_of_not_gt
    intro hlt
    exact absurd h ((tieTerm_le values).2 hlt).ne'
  · intro h
    rw [tieTerm_eq]
    have hsum := sum_values values
    cases hc : (counter values).values with
    | nil =>
      rw [hc] at hsum
      rw [← hsum]
      rfl
    | cons c rest =>
      have hrest : rest = [] := by
        rw [hc] at h
        exact List.length_eq_zero_iff.mp (Nat.le_zero.mp (Nat.le_of_succ_le_succ h))
      rw [hc, hrest] at hsum
      rw [← hsum, hrest]
      simp

theorem direction_neg (delta : ℚ) : direction (-delta) = -direction delta := by
  unfold direction
  rcases lt_trichotomy delta 0 with h | h | h
  · simp [h, h.not_gt]
  · simp [h]
  · simp [h, h.not_gt]

theorem direction_congr {a b c d : ℚ} (hlt : a < b ↔ c < d) (hgt : b < a ↔ d < c) :
    direction (b - a) = direction (d - c) := by
  unfold direction
  simp only [gt_iff_lt, sub_pos, sub_neg, hlt, hgt]

theorem sStatistic_reverse (values : List ℚ) : sStatistic values.reverse = -sStatistic values := by
  apply pairSum_reverse
  intro a b
  rw [← direction_neg, neg_sub]

theorem sum_groups_congr {xs ys : List ℚ}
    (h : (counter xs).values.Perm (counter ys).values) : tieTerm xs = tieTerm ys := by
  rw [tieTerm_eq, tieTerm_eq, (h.map groupTerm).sum_eq]

theorem variance_reverse (values : List ℚ) :
    tieCorrectedVariance values.reverse = tieCorrectedVariance values := by
  rw [variance_eq, variance_eq, List.length_reverse,
    sum_groups_congr (counter_congr values.reverse_perm)]

/-- A map that is strictly increasing on the values keeps how any two of them compare. -/
theorem lt_map_iff {f : ℚ → ℚ} (hf : ∀ a ∈ values, ∀ b ∈ values, a < b → f a < f b) {a b : ℚ}
    (ha : a ∈ values) (hb : b ∈ values) : f a < f b ↔ a < b := by
  constructor
  · intro h
    rcases lt_trichotomy a b with hlt | heq | hgt
    · exact hlt
    · exact absurd h (by rw [heq]; exact lt_irrefl _)
    · exact absurd (hf b hb a ha hgt) h.not_gt
  · exact hf a ha b hb

theorem sStatistic_map {f : ℚ → ℚ} (hf : ∀ a ∈ values, ∀ b ∈ values, a < b → f a < f b) :
    sStatistic (values.map f) = sStatistic values := by
  apply pairSum_map
  intro a ha b hb
  exact direction_congr (lt_map_iff hf ha hb) (lt_map_iff hf hb ha)

theorem variance_map {f : ℚ → ℚ} (hf : ∀ a ∈ values, ∀ b ∈ values, a < b → f a < f b) :
    tieCorrectedVariance (values.map f) = tieCorrectedVariance values := by
  have hinj : ∀ a ∈ values, ∀ b ∈ values, f a = f b → a = b := by
    intro a ha b hb heq
    rcases lt_trichotomy a b with h | h | h
    · exact absurd heq (hf a ha b hb h).ne
    · exact h
    · exact absurd heq (hf b hb a ha h).ne'
  rw [variance_eq, variance_eq, List.length_map, sum_groups_congr (counter_map hinj)]

/-- The verdict on the same windows read backwards. -/
def exchange : TrendStatus → TrendStatus
  | .significantIncrease => .significantDecrease
  | .significantDecrease => .significantIncrease
  | status => status

theorem trendStatus_neg (pValue alpha : ℚ) (s : Int) :
    (trendStatus pValue alpha (-s)).1 = exchange (trendStatus pValue alpha s).1 := by
  unfold trendStatus
  rcases lt_trichotomy s 0 with h | h | h
  · by_cases hp : pValue ≤ alpha <;> simp [hp, h, h.not_gt, exchange]
  · simp [h, exchange]
  · by_cases hp : pValue ≤ alpha <;> simp [hp, h, h.not_gt, exchange]

section
variable [NormalMath]

theorem test_eq_assess {alpha : ℚ} (hn : 3 ≤ values.length) (h0 : 0 < alpha) (h1 : alpha < 1) :
    mannKendallTrendTest values alpha =
      assess values.length (sStatistic values) (tieCorrectedVariance values) alpha := by
  unfold mannKendallTrendTest
  simp [h0, h1, hn.not_gt]

variable [LawfulNormalMath]

theorem zStatistic_ok {variance : ℚ} (hv : 0 < variance) (s : Int) :
    ∃ z, zStatistic s variance = .ok z ∧ zStatistic (-s) variance = .ok (-z) := by
  have hroot := LawfulNormalMath.sqrt_pos variance hv
  have hsqrt : mathSqrt variance = .ok (NormalMath.sqrt variance) := if_neg hv.not_gt
  have hdiv : ∀ a : ℚ, divide a (NormalMath.sqrt variance) = .ok (a / NormalMath.sqrt variance) :=
    fun a => if_neg hroot.ne'
  unfold zStatistic
  rw [hsqrt]
  simp only [ok_bind, hdiv]
  rcases lt_trichotomy s 0 with h | h | h
  · refine ⟨(s + 1) / NormalMath.sqrt variance, ?_, ?_⟩
    · rw [if_neg h.not_gt, if_pos h]
    · rw [if_pos (by omega)]
      push_cast
      ring_nf
  · refine ⟨0, ?_, ?_⟩
    · simp [h, pure, Except.pure]
    · simp [h, pure, Except.pure]
  · refine ⟨(s - 1) / NormalMath.sqrt variance, ?_, ?_⟩
    · rw [if_pos h]
    · rw [if_neg (by omega), if_pos (by omega)]
      push_cast
      ring_nf

/-- Both readings of the windows are assessed, with opposite statistics. -/
theorem assess_neg (n : Nat) (s : Int) {variance : ℚ} (hv : 0 ≤ variance) (alpha : ℚ) :
    ∃ test back, assess n s variance alpha = .ok test ∧
      assess n (-s) variance alpha = .ok back ∧
      test.sStatistic = s ∧ test.variance = variance ∧ back.sStatistic = -s ∧
      back.variance = variance ∧ back.pValue = test.pValue ∧
      back.status = exchange test.status := by
  unfold assess
  by_cases h0 : variance ≤ 0
  · have hz : variance = 0 := le_antisymm h0 hv
    simp only [if_pos h0]
    exact ⟨_, _, rfl, rfl, rfl, hz.symm, rfl, hz.symm, rfl, rfl⟩
  · obtain ⟨z, hz, hback⟩ := zStatistic_ok (lt_of_not_ge h0) s
    simp only [if_neg h0, hz, hback, ok_bind]
    refine ⟨_, _, rfl, rfl, rfl, rfl, rfl, rfl, ?_, ?_⟩
    · simp
    · simp only [abs_neg]
      exact trendStatus_neg _ _ _

/-- The trend test fails on no sequence of at least three windows; backwards it gives the
opposite trend, and a change of scale changes nothing. -/
theorem mannKendall_well_defined {alpha : ℚ} (hn : 3 ≤ values.length) (h0 : 0 < alpha)
    (h1 : alpha < 1) :
    0 ≤ tieCorrectedVariance values ∧
      (tieCorrectedVariance values = 0 ↔ ∀ a ∈ values, ∀ b ∈ values, a = b) ∧
      ∃ test, mannKendallTrendTest values alpha = .ok test ∧
        test.sStatistic = sStatistic values ∧ test.variance = tieCorrectedVariance values ∧
        (∃ back, mannKendallTrendTest values.reverse alpha = .ok back ∧
          back.sStatistic = -test.sStatistic ∧ back.variance = test.variance ∧
          back.pValue = test.pValue ∧ back.status = exchange test.status) ∧
        ∀ f : ℚ → ℚ, (∀ a ∈ values, ∀ b ∈ values, a < b → f a < f b) →
          mannKendallTrendTest (values.map f) alpha = .ok test := by
  obtain ⟨test, back, ht, hb, hs, hv, hs', hv', hp, hstatus⟩ :=
    assess_neg values.length (sStatistic values) (variance_nonneg values) alpha
  refine ⟨variance_nonneg values, variance_eq_zero_iff values, test, ?_, hs, hv, ⟨back, ?_, ?_⟩, ?_⟩
  · rw [test_eq_assess hn h0 h1, ht]
  · rw [test_eq_assess (by simpa using hn) h0 h1, List.length_reverse, sStatistic_reverse,
      variance_reverse, hb]
  · rw [hs, hv]
    exact ⟨hs', hv', hp, hstatus⟩
  · intro f hf
    rw [test_eq_assess (by simpa using hn) h0 h1, List.length_map, sStatistic_map hf,
      variance_map hf, ht]

end

/-- Fifteen decimals of the square root, and the series of the distribution function. -/
@[reducible] def seriesMath : NormalMath where
  sqrt v := (Nat.sqrt (v.num.toNat * v.den * 10 ^ 30) : ℚ) / (v.den * 10 ^ 15)
  cdf x := 1 / 2 + 3989422804014327 / 10 ^ 16 * ((List.range 40).map fun k : Nat =>
    (-1) ^ k * x ^ (2 * k + 1) / ((2 ^ k * k.factorial * (2 * k + 1) : Nat) : ℚ)).sum

theorem seriesMath_lawful : @LawfulNormalMath seriesMath := by
  refine @LawfulNormalMath.mk seriesMath ?_
  intro v hv
  have hnum : 0 < v.num.toNat := by
    have := Rat.num_pos.mpr hv
    omega
  have hroot : 0 < Nat.sqrt (v.num.toNat * v.den * 10 ^ 30) := by
    apply Nat.sqrt_pos.mpr
    exact Nat.mul_pos (Nat.mul_pos hnum v.den_pos) (by norm_num)
  have hden : (0 : ℚ) < v.den := by exact_mod_cast v.den_pos
  have hroot' : (0 : ℚ) < (Nat.sqrt (v.num.toNat * v.den * 10 ^ 30) : ℚ) := by
    exact_mod_cast hroot
  exact div_pos hroot' (by positivity)

def risingRates : List ℚ := [1 / 10, 1 / 5, 1 / 5, 2 / 5, 1 / 2, 3 / 5]

theorem rising_rates_reverse :
    ∃ test back, @mannKendallTrendTest seriesMath risingRates (1 / 20) = .ok test ∧
      @mannKendallTrendTest seriesMath risingRates.reverse (1 / 20) = .ok back ∧
      test.status = .significantIncrease ∧ back.status = .significantDecrease := by
  obtain ⟨-, -, test, ht, -, -, ⟨back, hb, -, -, -, hstatus⟩, -⟩ :=
    @mannKendall_well_defined risingRates seriesMath seriesMath_lawful (1 / 20) (by decide)
      (by norm_num) (by norm_num)
  have hrun : (@mannKendallTrendTest seriesMath risingRates (1 / 20)).toOption.map
      (fun test => test.status) = some .significantIncrease := by decide +kernel
  rw [ht] at hrun
  have hup : test.status = .significantIncrease := Option.some.inj hrun
  refine ⟨test, back, ht, hb, hup, ?_⟩
  rw [hstatus, hup]
  rfl

end Sediment.Proofs.TrendTest
