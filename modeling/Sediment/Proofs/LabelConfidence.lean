import Sediment.Proofs.CiResolution
import Sediment.Export.LabelConfidence

namespace Sediment.Proofs.LabelConfidence
open Sediment.Base Sediment.Core Sediment.Derive Sediment.Export

/-- The same row, whose decisions and outcomes may be listed in another order. -/
structure Reordered (row row' : CompletionFields) : Prop where
  decisions : row.decisions.Perm row'.decisions
  ciOutcomes : row.ciOutcomes.Perm row'.ciOutcomes
  rest : { row with decisions := row'.decisions, ciOutcomes := row'.ciOutcomes } = row'

theorem nil_iff_of_perm {α : Type} {xs ys : List α} (h : xs.Perm ys) : xs = [] ↔ ys = [] :=
  ⟨fun hn => List.nil_perm.mp (hn ▸ h), fun hn => List.nil_perm.mp (hn ▸ h.symm)⟩

theorem branch_of_perm {row : CompletionFields} {decisions : List DeveloperDecision}
    {outcomes : List CIOutcome} (h : row.decisions.Perm decisions) :
    decisionBranch { row with decisions := decisions, ciOutcomes := outcomes } =
      decisionBranch row := by
  have hexplicit := h.filter (fun d => d.explicit)
  have hall : decisions.all (fun d => d.agentHarness = .codex) =
      row.decisions.all (fun d => d.agentHarness = .codex) := by
    rw [List.all_eq_not_any_not, List.all_eq_not_any_not, h.any_eq]
  simp only [decisionBranch, nil_iff_of_perm h, ne_eq, nil_iff_of_perm hexplicit, h.any_eq,
    hexplicit.any_eq, hall]

theorem min_perm {xs ys : List ℚ} (h : xs.Perm ys) : xs.min? = ys.min? := by
  cases hx : xs.min? with
  | none =>
    rw [List.min?_eq_none_iff] at hx
    subst hx
    rw [List.nil_perm.mp h, List.min?_nil]
  | some a =>
    symm
    rw [List.min?_eq_some_iff] at hx ⊢
    exact ⟨h.subset hx.1, fun b hb => hx.2 b (h.symm.subset hb)⟩

theorem Reordered.branch {row row' : CompletionFields} (h : Reordered row row') :
    decisionBranch row' = decisionBranch row := by
  rw [← h.rest]
  exact branch_of_perm h.decisions

theorem Reordered.factor {row row' : CompletionFields} (h : Reordered row row')
    (policy : LabelConfidencePolicy) : decisionFactor row' policy = decisionFactor row policy := by
  have hscores : (editRetentionScores row').min? = (editRetentionScores row).min? :=
    min_perm (h.decisions.filterMap _).symm
  simp only [decisionFactor, implicitAcceptFactor, h.branch, hscores,
    nil_iff_of_perm h.decisions]

section
variable [Interpreter] (digest : CIResolutionPolicy → String)
  (repositoryContext : Option RepositoryContext)

/-- Any two refusals agree. -/
theorem Reordered.resolution {row row' : CompletionFields} (h : Reordered row row')
    (policy : CIResolutionPolicy) :
    Agree Eq (resolveCiResolution digest repositoryContext row policy)
      (resolveCiResolution digest repositoryContext row' policy) := by
  rw [← h.rest]
  unfold resolveCiResolution
  refine ((CiResolution.derive_perm policy digest _ repositoryContext
    h.ciOutcomes).mapError ConfidenceError.ci).bind ?_
  intro result result' hsame
  rw [hsame.resolutions]
  exact Agree.refl (fun _ => rfl) _

/-- The order of the evidence is not observable in the breakdown. -/
theorem Reordered.breakdown {row row' : CompletionFields} (h : Reordered row row')
    (policy : LabelConfidencePolicy) :
    Agree Eq (resolveConfidenceBreakdown digest repositoryContext policy row)
      (resolveConfidenceBreakdown digest repositoryContext policy row') := by
  have hdiscount : similarityDiscount row' = similarityDiscount row := by
    rw [← h.rest]
    rfl
  have habandonment : row'.abandonment = row.abandonment := by rw [← h.rest]
  unfold resolveConfidenceBreakdown
  rw [habandonment, hdiscount, h.factor]
  simp only [nil_iff_of_perm h.decisions, nil_iff_of_perm h.ciOutcomes]
  split
  · exact rfl
  · refine (h.resolution digest repositoryContext policy.ciResolution).bind ?_
    intro resolution _ heq
    subst heq
    exact Agree.refl (fun _ => rfl) _

end

/-- The ladder: what each decision branch resolves to. -/
def branchFactor (policy : LabelConfidencePolicy) (row : CompletionFields) : DecisionBranch → ℚ
  | .abandoned => policy.explicitRejectConfidence
  | .noDecision => policy.baselineConfidence
  | .explicitReject => policy.explicitRejectConfidence
  | .explicitAccept => policy.explicitAcceptConfidence
  | .implicitReject => policy.baselineConfidence * policy.implicitRejectMultiplier
  | .implicitAcceptCodexNeutral => policy.baselineConfidence
  | .implicitAccept => implicitAcceptFactor row policy

theorem branch_ne_noDecision {row : CompletionFields} (h : row.decisions ≠ []) :
    decisionBranch row ≠ .noDecision := by
  simp only [decisionBranch, h, if_false]
  split_ifs <;> nofun

/-- The factor and the label of a completion come from one branch. -/
theorem factor_of_branch (row : AttributedCompletion) (policy : LabelConfidencePolicy) :
    (decisionFactor row.toCompletionFields policy).getD policy.baselineConfidence =
      branchFactor policy row.toCompletionFields (decisionBranch row.toCompletionFields) := by
  unfold decisionFactor
  by_cases hd : row.decisions = []
  · have habandoned : ¬ row.abandonment.isSome := fun ha => row.decisions_ne_nil ha hd
    have hbranch : decisionBranch row.toCompletionFields = .noDecision := by
      unfold decisionBranch
      rw [if_neg habandoned, if_pos hd]
    rw [if_pos hd, hbranch]
    rfl
  · rw [if_neg hd]
    have hbranch := branch_ne_noDecision hd
    cases hb : decisionBranch row.toCompletionFields with
    | noDecision => exact absurd hb hbranch
    | _ => rfl

/-- A policy under which no reject is worth more than what it is held against. -/
structure RejectsLow (policy : LabelConfidencePolicy) : Prop where
  belowImplicit : policy.explicitRejectConfidence ≤
    policy.baselineConfidence * policy.implicitRejectMultiplier
  belowAccept : policy.explicitRejectConfidence ≤ policy.explicitAcceptConfidence
  atMostNeutral : policy.implicitRejectMultiplier ≤ 1
  belowBonus : policy.implicitRejectMultiplier ≤ policy.implicitAcceptMultiplier

variable {policy : LabelConfidencePolicy}

theorem baseline_bounds : 0 ≤ policy.baselineConfidence :=
  (policy.confidences _ (by simp)).1

theorem implicitReject_le_baseline (hp : RejectsLow policy) :
    policy.baselineConfidence * policy.implicitRejectMultiplier ≤ policy.baselineConfidence :=
  mul_le_of_le_one_right baseline_bounds hp.atMostNeutral

/-- A grade only raises the multiplier above that of a reject. -/
theorem lerp_bounds {low high t : ℚ} (h : low ≤ high) (ht : 0 ≤ t) : low ≤ lerp low high t := by
  have hgap : 0 ≤ (high - low) * t := mul_nonneg (by linarith) ht
  unfold lerp
  linarith

theorem implicitReject_le_accept (hp : RejectsLow policy) (row : AttributedCompletion) :
    policy.baselineConfidence * policy.implicitRejectMultiplier ≤
      implicitAcceptFactor row.toCompletionFields policy := by
  unfold implicitAcceptFactor
  cases hm : (editRetentionScores row.toCompletionFields).min? with
  | none => exact mul_le_mul_of_nonneg_left hp.belowBonus baseline_bounds
  | some score =>
    have hmem := (List.min?_eq_some_iff.mp hm).1
    obtain ⟨d, hd, hscore⟩ := List.mem_filterMap.mp hmem
    have hrange := row.scores d hd score hscore
    exact mul_le_mul_of_nonneg_left (lerp_bounds hp.belowBonus hrange.1) baseline_bounds

/-- No branch is worth less than an explicit reject. -/
theorem reject_le_factor (hp : RejectsLow policy) (row : AttributedCompletion)
    (branch : DecisionBranch) :
    policy.explicitRejectConfidence ≤ branchFactor policy row.toCompletionFields branch := by
  cases branch with
  | abandoned => exact le_refl _
  | noDecision => exact hp.belowImplicit.trans (implicitReject_le_baseline hp)
  | explicitReject => exact le_refl _
  | explicitAccept => exact hp.belowAccept
  | implicitReject => exact hp.belowImplicit
  | implicitAcceptCodexNeutral => exact hp.belowImplicit.trans (implicitReject_le_baseline hp)
  | implicitAccept => exact hp.belowImplicit.trans (implicitReject_le_accept hp row)

theorem factor_nonneg (hp : RejectsLow policy) (row : AttributedCompletion)
    (branch : DecisionBranch) : 0 ≤ branchFactor policy row.toCompletionFields branch :=
  (policy.confidences _ (by simp)).1.trans (reject_le_factor hp row branch)

/-- A completion that gains one decision, wherever it is listed. -/
structure Gains (d : DeveloperDecision) (row row' : CompletionFields) : Prop where
  decisions : (d :: row.decisions).Perm row'.decisions
  rest : { row with decisions := row'.decisions } = row'

theorem Gains.branch {d : DeveloperDecision} {row row' : CompletionFields} (h : Gains d row row') :
    decisionBranch row' = decisionBranch { row with decisions := d :: row.decisions } := by
  have hsame : decisionBranch { row with decisions := row'.decisions } =
      decisionBranch { row with decisions := d :: row.decisions } :=
    @branch_of_perm { row with decisions := d :: row.decisions } _ row.ciOutcomes h.decisions
  rw [← hsame]
  exact congrArg decisionBranch h.rest.symm

/-- A reject moves a completion to an explicit reject, to an implicit one, or leaves it under
the explicit decisions that it already has. -/
theorem branch_cons_reject {d : DeveloperDecision} {row : CompletionFields}
    (hlive : row.abandonment = none) (hd : d.accepted = false) :
    decisionBranch { row with decisions := d :: row.decisions } = .explicitReject ∨
    (decisionBranch { row with decisions := d :: row.decisions } = .explicitAccept ∧
      decisionBranch row = .explicitAccept) ∨
    (decisionBranch { row with decisions := d :: row.decisions } = .implicitReject ∧
      decisionBranch row ∈ [.noDecision, .implicitReject, .implicitAcceptCodexNeutral,
        .implicitAccept]) := by
  by_cases he : d.explicit
  · left
    simp [decisionBranch, hlive, he, hd]
  have hfilter : (d :: row.decisions).filter (fun d => d.explicit) =
      row.decisions.filter (fun d => d.explicit) := List.filter_cons_of_neg he
  by_cases hn : row.decisions.filter (fun d => d.explicit) = []
  · right
    right
    constructor
    · simp [decisionBranch, hlive, hfilter, hn, hd]
    · simp only [decisionBranch, hlive, hn, Option.isSome_none, Bool.false_eq_true, if_false,
        ne_eq, not_true_eq_false]
      split_ifs <;> simp
  · have hrow : row.decisions ≠ [] := fun hnil => hn (by rw [hnil, List.filter_nil])
    by_cases hr : (row.decisions.filter (fun d => d.explicit)).any (fun d => !d.accepted)
    · left
      simp [decisionBranch, hlive, hfilter, hn, hr]
    · right
      left
      constructor
      · simp only [decisionBranch, hlive, hfilter, hn, hr, Option.isSome_none, reduceCtorEq,
          Bool.false_eq_true, if_false, ne_eq, not_false_eq_true, if_true]
      · simp only [decisionBranch, hlive, hn, hr, hrow, Option.isSome_none,
          Bool.false_eq_true, if_false, ne_eq, not_false_eq_true, if_true]

/-- One more reject lowers the factor, or leaves it. -/
theorem factor_gains_reject (hp : RejectsLow policy) {d : DeveloperDecision}
    {row row' : AttributedCompletion} (hlive : row.abandonment = none) (hd : d.accepted = false)
    (h : Gains d row.toCompletionFields row'.toCompletionFields) :
    branchFactor policy row'.toCompletionFields (decisionBranch row'.toCompletionFields) ≤
      branchFactor policy row.toCompletionFields (decisionBranch row.toCompletionFields) := by
  rw [h.branch]
  rcases branch_cons_reject hlive hd with hb | ⟨hb, hb'⟩ | ⟨hb, hb'⟩
  · rw [hb]
    exact reject_le_factor hp row _
  · rw [hb, hb']
    exact le_refl _
  · rw [hb]
    simp only [List.mem_cons, List.not_mem_nil, or_false] at hb'
    rcases hb' with hb' | hb' | hb' | hb'
    · rw [hb']
      exact implicitReject_le_baseline hp
    · rw [hb']
      exact le_refl _
    · rw [hb']
      exact implicitReject_le_baseline hp
    · rw [hb']
      exact implicitReject_le_accept hp row

theorem cap_bounds (c : ℚ) : 0 ≤ cap c ∧ cap c ≤ 1 :=
  ⟨le_max_left _ _, max_le zero_le_one (min_le_left _ _)⟩

theorem cap_mono {a b : ℚ} (h : a ≤ b) : cap a ≤ cap b :=
  max_le_max_left _ (min_le_min_left _ h)

/-- Scaling keeps the order after the cap, whatever the sign of the scale. -/
theorem cap_mul_mono {x y k : ℚ} (hx : 0 ≤ x) (h : x ≤ y) : cap (x * k) ≤ cap (y * k) := by
  rcases le_total 0 k with hk | hk
  · exact cap_mono (mul_le_mul_of_nonneg_right h hk)
  · have hzero : ∀ z : ℚ, 0 ≤ z → cap (z * k) = 0 := by
      intro z hz
      have hneg : z * k ≤ 0 := mul_nonpos_of_nonneg_of_nonpos hz hk
      exact max_eq_left ((min_le_right _ _).trans hneg)
    rw [hzero x hx, hzero y (hx.trans h)]

section
variable [Interpreter] {digest : CIResolutionPolicy → String}
  {repositoryContext : Option RepositoryContext}

/-- What a defined breakdown is made of. -/
theorem breakdown_ok {row : AttributedCompletion} {b : ConfidenceBreakdown}
    (h : resolveConfidenceBreakdown digest repositoryContext policy row.toCompletionFields =
      .ok (some b)) :
    b.decisionFactor =
      branchFactor policy row.toCompletionFields (decisionBranch row.toCompletionFields) ∧
    b.final = cap (b.decisionFactor * (b.ciFactor * b.ciReliability * b.similarityDiscount)) ∧
    ∃ resolution, resolveCiResolution digest repositoryContext row.toCompletionFields
        policy.ciResolution = .ok resolution ∧
      ciFactors policy resolution = .ok (b.ciFactor, b.ciReliability) ∧
      similarityDiscount row.toCompletionFields = .ok b.similarityDiscount := by
  unfold resolveConfidenceBreakdown at h
  split at h
  · cases h
  obtain ⟨resolution, hr, h⟩ := bind_ok.mp h
  obtain ⟨⟨ciFactor, ciReliability⟩, hc, h⟩ := bind_ok.mp h
  obtain ⟨discount, hs, h⟩ := bind_ok.mp h
  cases h
  refine ⟨factor_of_branch row policy, ?_, resolution, hr, hc, hs⟩
  simp only [mul_assoc]

/-- The breakdown of a completion with a decision follows its evidence. -/
theorem breakdown_of_parts {row : AttributedCompletion} {resolution : Option CIResolution}
    {ciFactor ciReliability discount : ℚ} (hd : row.decisions ≠ [])
    (hr : resolveCiResolution digest repositoryContext row.toCompletionFields
      policy.ciResolution = .ok resolution)
    (hc : ciFactors policy resolution = .ok (ciFactor, ciReliability))
    (hs : similarityDiscount row.toCompletionFields = .ok discount) :
    ∃ b, resolveConfidenceBreakdown digest repositoryContext policy row.toCompletionFields =
        .ok (some b) ∧
      b.ciFactor = ciFactor ∧ b.ciReliability = ciReliability ∧
      b.similarityDiscount = discount := by
  unfold resolveConfidenceBreakdown
  rw [if_neg (fun hn => hd hn.2.1), hr, ok_bind, hc, ok_bind, hs]
  exact ⟨_, rfl, rfl, rfl, rfl⟩

theorem gains_reject_final (hp : RejectsLow policy) {d : DeveloperDecision}
    {row row' : AttributedCompletion} (hlive : row.abandonment = none) (hd : d.accepted = false)
    (h : Gains d row.toCompletionFields row'.toCompletionFields) {b : ConfidenceBreakdown}
    (hb : resolveConfidenceBreakdown digest repositoryContext policy row.toCompletionFields =
      .ok (some b)) :
    ∃ b', resolveConfidenceBreakdown digest repositoryContext policy row'.toCompletionFields =
      .ok (some b') ∧ b'.final ≤ b.final := by
  obtain ⟨hfactor, hfinal, resolution, hr, hc, hs⟩ := breakdown_ok hb
  have hdecisions : row'.decisions ≠ [] := by
    intro hnil
    have hperm := h.decisions
    rw [hnil] at hperm
    exact List.cons_ne_nil _ _ (List.perm_nil.mp hperm)
  have hr' : resolveCiResolution digest repositoryContext row'.toCompletionFields
      policy.ciResolution = .ok resolution := by
    rw [← h.rest]
    exact hr
  have hs' : similarityDiscount row'.toCompletionFields = .ok b.similarityDiscount := by
    rw [← h.rest]
    exact hs
  obtain ⟨b', hb', hc₁, hc₂, hc₃⟩ := breakdown_of_parts hdecisions hr' hc hs'
  refine ⟨b', hb', ?_⟩
  obtain ⟨hfactor', hfinal', -⟩ := breakdown_ok hb'
  rw [hfinal, hfinal', hc₁, hc₂, hc₃, hfactor, hfactor']
  exact cap_mul_mono (factor_nonneg hp row' _) (factor_gains_reject hp hlive hd h)

omit [Interpreter] in
theorem branch_of_explicit_reject {row : CompletionFields} {d : DeveloperDecision}
    (hd : d ∈ row.decisions) (he : d.explicit) (hr : d.accepted = false) :
    decisionBranch row ∈ [.abandoned, .explicitReject] := by
  have hmem : d ∈ row.decisions.filter (fun d => d.explicit) := List.mem_filter.mpr ⟨hd, he⟩
  have hany : (row.decisions.filter (fun d => d.explicit)).any (fun d => !d.accepted) :=
    List.any_eq_true.mpr ⟨d, hmem, by simp [hr]⟩
  simp only [decisionBranch, List.ne_nil_of_mem hd, List.ne_nil_of_mem hmem, hany, ne_eq,
    not_false_eq_true, if_true, if_false]
  split_ifs <;> simp

/-- The resolved confidence is a confidence, follows the named branch and not the order of the
evidence, and another reject never raises it. -/
theorem confidence_order_and_rejects (hp : RejectsLow policy)
    (digest : CIResolutionPolicy → String) (repositoryContext : Option RepositoryContext) :
    (∀ (row : AttributedCompletion) b,
      resolveConfidenceBreakdown digest repositoryContext policy row.toCompletionFields =
        .ok (some b) →
      0 ≤ b.final ∧ b.final ≤ 1 ∧
      b.decisionFactor =
        branchFactor policy row.toCompletionFields (decisionBranch row.toCompletionFields) ∧
      b.final = cap (b.decisionFactor * (b.ciFactor * b.ciReliability * b.similarityDiscount)) ∧
      ((∃ d ∈ row.decisions, d.explicit ∧ d.accepted = false) →
        b.decisionFactor = policy.explicitRejectConfidence)) ∧
    (∀ row row' : AttributedCompletion,
      Reordered row.toCompletionFields row'.toCompletionFields →
      Agree Eq
        (resolveConfidenceBreakdown digest repositoryContext policy row.toCompletionFields)
        (resolveConfidenceBreakdown digest repositoryContext policy row'.toCompletionFields)) ∧
    (∀ (row row' : AttributedCompletion) (d : DeveloperDecision) b, row.abandonment = none →
      d.accepted = false → Gains d row.toCompletionFields row'.toCompletionFields →
      resolveConfidenceBreakdown digest repositoryContext policy row.toCompletionFields =
        .ok (some b) →
      ∃ b', resolveConfidenceBreakdown digest repositoryContext policy
          row'.toCompletionFields = .ok (some b') ∧ b'.final ≤ b.final) := by
  refine ⟨?_, ?_, ?_⟩
  · intro row b h
    obtain ⟨hfactor, hfinal, -⟩ := breakdown_ok h
    refine ⟨hfinal ▸ (cap_bounds _).1, hfinal ▸ (cap_bounds _).2, hfactor, hfinal, ?_⟩
    intro ⟨d, hd, he, hr⟩
    have hbranch := branch_of_explicit_reject hd he hr
    simp only [List.mem_cons, List.not_mem_nil, or_false] at hbranch
    rcases hbranch with hbranch | hbranch
    · rw [hfactor, hbranch]
      rfl
    · rw [hfactor, hbranch]
      rfl
  · intro row row' h
    exact h.breakdown digest repositoryContext policy
  · intro row row' d b hlive hd h hb
    exact gains_reject_final hp hlive hd h hb

end

def someTime : AwareDatetime := ⟨0, "1970-01-01T00:00:00+00:00", "UTC", 0⟩

/-- A decision on one file, human or not. -/
def gesture (accepted explicit : Bool) : DeveloperDecision :=
  { decisionId := "d1", orgId := "o", sessionId := "s", userId := none
    agentHarness := .claudeCode, filePath := "", accepted, explicit, interactionMode := .agent
    commitSha := none, callId := none, editRetentionScore := none, observationDelayMs := none
    occurredAt := someTime, capturedAt := someTime, raw := "" }

/-- A file that a session stamp attributes, with some decisions on it. -/
def stampedFields (decisions : List DeveloperDecision) : CompletionFields :=
  { orgId := "o", sessionId := "s", inferenceCallId := "c1", repo := some "a/b"
    commitSha := some "c", filePath := some "f", similarityScore := some 1
    attributionSource := some .gitNotes, decisions, ciOutcomes := []
    provenance := ⟨"1", 0, ""⟩, split := .train, abandonment := none
    sessionCommitObservations := [], repositoryIdentity := none, sourcePushId := none }

def stamped (decisions : List DeveloperDecision)
    (h : ∀ d ∈ decisions, d.editRetentionScore = none) : AttributedCompletion :=
  { stampedFields decisions with
    variant := ⟨rfl, rfl, rfl, rfl, rfl⟩
    scores := fun d hd score hs => by rw [h d hd] at hs; cases hs }

theorem default_rejectsLow : RejectsLow {} :=
  ⟨by norm_num, by norm_num, by norm_num, by norm_num⟩

/-- An explicit reject beside an accepted edit. -/
theorem reject_beside_accept :
    letI : Interpreter := ⟨id⟩
    ∃ b b',
      resolveConfidenceBreakdown (fun _ => "") none {} (stampedFields [gesture true false]) =
        .ok (some b) ∧
      resolveConfidenceBreakdown (fun _ => "") none {}
        (stampedFields [gesture true false, gesture false true]) = .ok (some b') ∧
      b'.final ≤ b.final := by
  let _ : Interpreter := ⟨id⟩
  have hgains : Gains (gesture false true) (stampedFields [gesture true false])
      (stampedFields [gesture true false, gesture false true]) := ⟨List.Perm.swap _ _ _, rfl⟩
  obtain ⟨b', hb', hle⟩ :=
    (confidence_order_and_rejects default_rejectsLow (fun _ => "") none).2.2
      (stamped [gesture true false] (by decide))
      (stamped [gesture true false, gesture false true] (by decide)) _ _ rfl rfl hgains rfl
  exact ⟨_, b', rfl, hb', hle⟩

end Sediment.Proofs.LabelConfidence
