import Sediment.Base.Ranks
import Sediment.Export.Calibration

namespace Sediment.Proofs.Calibration
open Sediment.Base Sediment.Base.Ranks Sediment.Export.Calibration

def predictions (pairs : List CalibrationPair) : List ℚ := pairs.map Prod.fst

def positives (pairs : List CalibrationPair) : List ℚ :=
  predictions (pairs.filter fun pair => pair.2)

def negatives (pairs : List CalibrationPair) : List ℚ :=
  predictions (pairs.filter fun pair => !pair.2)

/-- The share of the positive and negative pairs in which the positive outranks the negative;
a tie counts one half. -/
def concordance (pairs : List CalibrationPair) : ℚ :=
  (wins (positives pairs) (negatives pairs) + (ties (positives pairs) (negatives pairs) : ℚ) / 2) /
    (positives pairs ×ˢ negatives pairs).length

def flipOutcomes (pairs : List CalibrationPair) : List CalibrationPair :=
  pairs.map fun pair => (pair.1, !pair.2)

def mapPredictions (f : ℚ → ℚ) (pairs : List CalibrationPair) : List CalibrationPair :=
  pairs.map fun pair => (f pair.1, pair.2)

/-- Both outcomes occur and every prediction is a probability. -/
structure Discriminable (pairs : List CalibrationPair) : Prop where
  predicted : ∀ x ∈ predictions pairs, 0 ≤ x ∧ x ≤ 1
  positive : positives pairs ≠ []
  negative : negatives pairs ≠ []

instance (pairs : List CalibrationPair) : Decidable (Discriminable pairs) :=
  decidable_of_iff ((∀ x ∈ predictions pairs, 0 ≤ x ∧ x ≤ 1) ∧ positives pairs ≠ [] ∧
    negatives pairs ≠ []) ⟨fun h => ⟨h.1, h.2.1, h.2.2⟩, fun h => ⟨h.1, h.2, h.3⟩⟩

variable {pairs ys : List CalibrationPair}

theorem validatePairs_ok (h : ∀ x ∈ predictions pairs, 0 ≤ x ∧ x ≤ 1) :
    validatePairs pairs = .ok () := by
  induction pairs with
  | nil => rfl
  | cons pair pairs ih =>
    have hp := h pair.1 (by simp [predictions])
    have hrest : ∀ x ∈ predictions pairs, 0 ≤ x ∧ x ≤ 1 := by
      intro x hx
      exact h x (List.mem_cons_of_mem _ hx)
    have hno : ¬ (pair.1 < 0 ∨ pair.1 > 1) := by
      rintro (hlt | hgt)
      · exact absurd hp.1 hlt.not_ge
      · exact absurd hp.2 hgt.not_ge
    unfold validatePairs at ih ⊢
    rw [List.forM_eq_forM, List.forM_cons, if_neg hno]
    exact ih hrest

theorem length_positives (pairs : List CalibrationPair) :
    (positives pairs).length = pairs.countP fun pair => pair.2 := by
  simp [positives, predictions, List.countP_eq_length_filter]

theorem length_negatives (pairs : List CalibrationPair) :
    (negatives pairs).length = pairs.length - pairs.countP fun pair => pair.2 := by
  have h := List.length_eq_countP_add_countP (fun pair : CalibrationPair => pair.2) (l := pairs)
  have hn : (negatives pairs).length = pairs.countP fun pair => !pair.2 := by
    simp [negatives, predictions, List.countP_eq_length_filter]
  simp only [Bool.not_eq_true, Bool.decide_eq_false] at h
  omega

theorem predictions_perm (h : pairs.Perm ys) : (predictions pairs).Perm (predictions ys) :=
  h.map _

theorem positives_perm (h : pairs.Perm ys) : (positives pairs).Perm (positives ys) :=
  (h.filter _).map _

theorem negatives_perm (h : pairs.Perm ys) : (negatives pairs).Perm (negatives ys) :=
  (h.filter _).map _

theorem positives_append_negatives (pairs : List CalibrationPair) :
    (positives pairs ++ negatives pairs).Perm (predictions pairs) := by
  unfold positives negatives predictions
  rw [← List.map_append]
  exact (List.filter_append_perm (fun pair : CalibrationPair => pair.2) pairs).map _

theorem midrank_perm {xs zs : List ℚ} (h : xs.Perm zs) (a : ℚ) : midrank xs a = midrank zs a := by
  unfold midrank
  rw [(h.map _).sum_eq]

/-- In a sorted list what follows the pairs tied with the first one is above it. -/
theorem dropWhile_above {first : CalibrationPair} {rest : List CalibrationPair}
    (h : (first :: rest).Pairwise fun a b => a.1 ≤ b.1) :
    ∀ pair ∈ rest.dropWhile (fun pair => pair.1 = first.1), first.1 < pair.1 := by
  obtain ⟨hfirst, hrest⟩ := List.pairwise_cons.mp h
  induction rest with
  | nil =>
    intro pair hp
    cases hp
  | cons next rest ih =>
    obtain ⟨hnext, hrest'⟩ := List.pairwise_cons.mp hrest
    by_cases heq : next.1 = first.1
    · rw [List.dropWhile_cons_of_pos (by simpa using heq)]
      have hf : ∀ pair ∈ rest, first.1 ≤ pair.1 := fun pair hp =>
        hfirst pair (List.mem_cons_of_mem _ hp)
      exact ih (List.pairwise_cons.mpr ⟨hf, hrest'⟩) hf hrest'
    · rw [List.dropWhile_cons_of_neg (by simpa using heq)]
      have hlt : first.1 < next.1 := lt_of_le_of_ne (hfirst next (by simp)) (Ne.symm heq)
      intro pair hp
      rcases List.mem_cons.mp hp with rfl | hp
      · exact hlt
      · exact lt_of_lt_of_le hlt (hnext pair hp)

/-- The positives of one group of tied pairs, each with the average rank of the group. -/
theorem sum_group {low tied high : List CalibrationPair} {x : ℚ}
    (hlow : ∀ pair ∈ low, pair.1 < x) (htied : ∀ pair ∈ tied, pair.1 = x)
    (hhigh : ∀ pair ∈ high, x < pair.1) :
    ((positives tied).map (midrank (predictions (low ++ tied ++ high)))).sum =
      (low.length + (tied.length + 1 : ℚ) / 2) * tied.countP fun pair => pair.2 := by
  have hmid : midrank (predictions (low ++ tied ++ high)) x =
      low.length + (tied.length + 1 : ℚ) / 2 := by
    have h : midrank (predictions low ++ predictions tied ++ predictions high) x =
        (predictions low).length + ((predictions tied).length + 1 : ℚ) / 2 :=
      midrank_group (List.forall_mem_map.mpr hlow) (List.forall_mem_map.mpr htied)
        (List.forall_mem_map.mpr hhigh)
    simpa [predictions] using h
  have hconst : (positives tied).map (midrank (predictions (low ++ tied ++ high))) =
      (positives tied).map fun _ => low.length + (tied.length + 1 : ℚ) / 2 := by
    apply List.map_congr_left
    intro b hb
    obtain ⟨pair, hp, rfl⟩ := List.mem_map.mp hb
    rw [htied pair (List.mem_of_mem_filter hp), hmid]
  rw [hconst, List.map_const', List.sum_replicate, nsmul_eq_mul, length_positives, mul_comm]

/-- The loop adds the average rank of every positive that is still to come. -/
theorem rankSumPos_eq (s : ℚ) (low rest : List CalibrationPair)
    (hsorted : rest.Pairwise fun a b => a.1 ≤ b.1) (hlow : ∀ a ∈ low, ∀ b ∈ rest, a.1 < b.1) :
    rankSumPos s low.length rest =
      s + ((positives rest).map (midrank (predictions (low ++ rest)))).sum := by
  induction hn : rest.length using Nat.strong_induction_on generalizing s low rest with
  | _ n ih =>
    cases rest with
    | nil =>
      rw [rankSumPos]
      simp [positives, predictions]
    | cons first rest =>
      let tied := first :: rest.takeWhile fun pair => pair.1 = first.1
      let high := rest.dropWhile fun pair => pair.1 = first.1
      have hsplit : first :: rest = tied ++ high := by
        simp [tied, high, List.takeWhile_append_dropWhile]
      have htied : ∀ pair ∈ tied, pair.1 = first.1 := by
        intro pair hp
        rcases List.mem_cons.mp hp with rfl | hp
        · rfl
        · simpa using List.mem_takeWhile_imp hp
      have hhigh : ∀ pair ∈ high, first.1 < pair.1 := dropWhile_above hsorted
      have hlen : high.length < n := by
        rw [← hn]
        exact Nat.lt_succ_of_le (List.dropWhile_sublist _).length_le
      have hpos : positives (first :: rest) = positives tied ++ positives high := by
        rw [hsplit]
        simp [positives, predictions]
      have hlow' : ∀ a ∈ low ++ tied, ∀ b ∈ high, a.1 < b.1 := by
        intro a ha b hb
        rcases List.mem_append.mp ha with ha | ha
        · apply hlow a ha b
          rw [hsplit]
          exact List.mem_append_right _ hb
        · rw [htied a ha]
          exact hhigh b hb
      have hsorted' : high.Pairwise fun a b => a.1 ≤ b.1 :=
        hsorted.sublist ((List.dropWhile_sublist _).trans (List.sublist_cons_self _ _))
      have hgroup := sum_group (fun a ha => hlow a ha first (by simp)) htied hhigh
      rw [rankSumPos]
      change rankSumPos (s + ((low.length : ℚ) + 1 + ↑(low.length + tied.length)) / 2 *
        tied.countP fun pair => pair.2) (low.length + tied.length) high = _
      rw [← List.length_append, ih high.length hlen _ (low ++ tied) high hsorted' hlow' rfl,
        hpos, hsplit, ← List.append_assoc, List.map_append, List.sum_append, hgroup,
        List.length_append]
      push_cast
      ring

/-- The statistic of the sorted pairs is the score of the positives against the negatives. -/
theorem uStatistic_eq (pairs : List CalibrationPair) :
    rankSumPos 0 0 (sortedBy Prod.fst pairs) -
        ((positives pairs).length * ((positives pairs).length + 1) : ℚ) / 2 =
      pairScore (positives pairs) (negatives pairs) := by
  have hperm := sortedBy_perm Prod.fst pairs
  have hrank := rankSumPos_eq 0 [] (sortedBy Prod.fst pairs) (sortedBy_pairwise _ _) (by simp)
  simp only [List.length_nil, List.nil_append, zero_add] at hrank
  rw [hrank, ((positives_perm hperm).map _).sum_eq]
  have hall : (predictions (sortedBy Prod.fst pairs)).Perm
      (positives pairs ++ negatives pairs) :=
    (predictions_perm hperm).trans (positives_append_negatives pairs).symm
  rw [funext (midrank_perm hall)]
  exact rankSum_sub _ _

/-- The value of `auroc` in terms of the scores. -/
theorem auroc_eq_score (h : Discriminable pairs) :
    auroc pairs = .ok (pairScore (positives pairs) (negatives pairs) /
      ((positives pairs).length * (negatives pairs).length)) := by
  have hpos : pairs.countP (fun pair => pair.2) ≠ 0 := by
    rw [← length_positives]
    exact fun h0 => h.positive (List.length_eq_zero_iff.mp h0)
  have hneg : pairs.length - pairs.countP (fun pair => pair.2) ≠ 0 := by
    rw [← length_negatives]
    exact fun h0 => h.negative (List.length_eq_zero_iff.mp h0)
  unfold auroc
  rw [validatePairs_ok h.predicted]
  simp only [bind, Except.bind, pure, Except.pure]
  rw [if_neg (by simp only [not_or]; exact ⟨hpos, hneg⟩), ← length_negatives,
    ← length_positives, uStatistic_eq]

theorem concordance_eq_score (pairs : List CalibrationPair) :
    concordance pairs = pairScore (positives pairs) (negatives pairs) /
      ((positives pairs).length * (negatives pairs).length) := by
  unfold concordance
  rw [pairScore_eq_wins, List.length_product]
  push_cast
  rfl

theorem auroc_eq_concordance (h : Discriminable pairs) :
    auroc pairs = .ok (concordance pairs) := by
  rw [auroc_eq_score h, concordance_eq_score]

theorem concordance_perm (h : pairs.Perm ys) : concordance pairs = concordance ys := by
  rw [concordance_eq_score, concordance_eq_score,
    pairScore_perm (positives_perm h) (negatives_perm h), (positives_perm h).length_eq,
    (negatives_perm h).length_eq]

theorem positives_map (f : ℚ → ℚ) (pairs : List CalibrationPair) :
    positives (mapPredictions f pairs) = (positives pairs).map f := by
  simp [positives, predictions, mapPredictions, List.filter_map, Function.comp_def]

theorem negatives_map (f : ℚ → ℚ) (pairs : List CalibrationPair) :
    negatives (mapPredictions f pairs) = (negatives pairs).map f := by
  simp [negatives, predictions, mapPredictions, List.filter_map, Function.comp_def]

theorem positives_flip (pairs : List CalibrationPair) :
    positives (flipOutcomes pairs) = negatives pairs := by
  simp [positives, negatives, predictions, flipOutcomes, List.filter_map, Function.comp_def]

theorem negatives_flip (pairs : List CalibrationPair) :
    negatives (flipOutcomes pairs) = positives pairs := by
  simp [positives, negatives, predictions, flipOutcomes, List.filter_map, Function.comp_def]

theorem concordance_map {f : ℚ → ℚ}
    (h : ∀ x ∈ predictions pairs, ∀ y ∈ predictions pairs, x < y → f x < f y) :
    concordance (mapPredictions f pairs) = concordance pairs := by
  have hmem : ∀ x ∈ positives pairs ++ negatives pairs, x ∈ predictions pairs := fun x hx =>
    (positives_append_negatives pairs).mem_iff.mp hx
  rw [concordance_eq_score, concordance_eq_score, positives_map, negatives_map,
    pairScore_map fun x hx y hy => h x (hmem x hx) y (hmem y hy), List.length_map,
    List.length_map]

theorem Discriminable.pairs_pos (h : Discriminable pairs) :
    (0 : ℚ) < (positives pairs).length * (negatives pairs).length := by
  have hp := List.length_pos_iff.mpr h.positive
  have hn := List.length_pos_iff.mpr h.negative
  exact_mod_cast Nat.mul_pos hp hn

theorem concordance_flip (h : Discriminable pairs) :
    concordance (flipOutcomes pairs) = 1 - concordance pairs := by
  have hswap := pairScore_add_swap (positives pairs) (negatives pairs)
  have hpos := h.pairs_pos
  rw [concordance_eq_score, concordance_eq_score, positives_flip, negatives_flip,
    mul_comm ((negatives pairs).length : ℚ), eq_sub_iff_add_eq, ← add_div, add_comm, hswap,
    div_self hpos.ne']

theorem concordance_nonneg (pairs : List CalibrationPair) : 0 ≤ concordance pairs := by
  rw [concordance_eq_score]
  exact div_nonneg (pairScore_nonneg _ _) (by positivity)

theorem Discriminable.flip (h : Discriminable pairs) : Discriminable (flipOutcomes pairs) := by
  refine ⟨?_, ?_, ?_⟩
  · intro x hx
    apply h.predicted x
    simpa [predictions, flipOutcomes] using hx
  · rw [positives_flip]
    exact h.negative
  · rw [negatives_flip]
    exact h.positive

theorem Discriminable.perm (h : Discriminable pairs) (hp : pairs.Perm ys) : Discriminable ys := by
  refine ⟨fun x hx => h.predicted x ((predictions_perm hp).mem_iff.mpr hx), ?_, ?_⟩
  · intro h0
    exact h.positive (List.Perm.eq_nil (h0 ▸ positives_perm hp))
  · intro h0
    exact h.negative (List.Perm.eq_nil (h0 ▸ negatives_perm hp))

theorem Discriminable.map (h : Discriminable pairs) {f : ℚ → ℚ}
    (hf : ∀ x ∈ predictions pairs, 0 ≤ f x ∧ f x ≤ 1) :
    Discriminable (mapPredictions f pairs) := by
  refine ⟨?_, ?_, ?_⟩
  · intro x hx
    obtain ⟨pair, hp, rfl⟩ := List.mem_map.mp hx
    obtain ⟨own, hown, rfl⟩ := List.mem_map.mp hp
    exact hf own.1 (List.mem_map_of_mem hown)
  · rw [positives_map]
    simpa using h.positive
  · rw [negatives_map]
    simpa using h.negative

/-- `auroc` is the probability that a positive outranks a negative. -/
theorem auroc_pairwise (h : Discriminable pairs) :
    auroc pairs = .ok (concordance pairs) ∧
      (0 ≤ concordance pairs ∧ concordance pairs ≤ 1) ∧
      (∀ ys, pairs.Perm ys → auroc ys = auroc pairs) ∧
      (∀ f : ℚ → ℚ, (∀ x ∈ predictions pairs, ∀ y ∈ predictions pairs, x < y → f x < f y) →
        (∀ x ∈ predictions pairs, 0 ≤ f x ∧ f x ≤ 1) →
        auroc (mapPredictions f pairs) = auroc pairs) ∧
      auroc (flipOutcomes pairs) = .ok (1 - concordance pairs) := by
  have hvalue := auroc_eq_concordance h
  refine ⟨hvalue, ⟨concordance_nonneg pairs, ?_⟩, ?_, ?_, ?_⟩
  · have hflip := concordance_nonneg (flipOutcomes pairs)
    rw [concordance_flip h] at hflip
    linarith
  · intro ys hperm
    rw [hvalue, auroc_eq_concordance (h.perm hperm), concordance_perm hperm]
  · intro f hmono hrange
    rw [hvalue, auroc_eq_concordance (h.map hrange), concordance_map hmono]
  · rw [auroc_eq_concordance h.flip, concordance_flip h]

def tiedPairs : List CalibrationPair :=
  [(1 / 2, true), (1 / 4, false), (1 / 2, false), (3 / 4, true), (1 / 2, true)]

theorem tied_pairs_score :
    auroc tiedPairs = .ok (5 / 6) ∧ auroc (flipOutcomes tiedPairs) = .ok (1 / 6) := by
  have hvalue : concordance tiedPairs = 5 / 6 := by decide +kernel
  have h := @auroc_pairwise tiedPairs (by decide +kernel)
  rw [hvalue] at h
  refine ⟨h.1, ?_⟩
  rw [h.2.2.2.2]
  norm_num

end Sediment.Proofs.Calibration
