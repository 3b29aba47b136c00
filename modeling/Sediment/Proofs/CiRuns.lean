import Sediment.Derive.CiResolution

namespace Sediment.Proofs.CiRuns
open Sediment.Base Sediment.Core Sediment.Derive

variable {rows rows' : List CIOutcome} {policy : CIResolutionPolicy} {identity : RunIdentity}

theorem toFinset_eq {α : Type} [DecidableEq α] {xs ys : List α} (h : xs.Perm ys) :
    xs.toFinset = ys.toFinset :=
  List.toFinset_eq_of_perm _ _ h

theorem present_congr {xs ys : List String} (h : xs.Perm ys) : present xs = present ys :=
  toFinset_eq (h.filter _)

theorem mem_byAttempt {n : Nat} {result : CIResult} :
    result ∈ (Dict.empty.collect (rows.map (fun o => (attemptOf o, o.result)))).members n ↔
      ∃ o ∈ rows, attemptOf o = n ∧ o.result = result := by
  rw [Dict.mem_members_collect]
  simp [Dict.members]

theorem byAttempt_any :
    (Dict.empty.collect (rows.map (fun o => (attemptOf o, o.result)))).values.any
        (fun results => 1 < results.card) = true ↔
      ∃ a ∈ rows, ∃ b ∈ rows, attemptOf a = attemptOf b ∧ a.result ≠ b.result := by
  simp only [List.any_eq_true, Dict.values, List.mem_map, Prod.exists, decide_eq_true_eq,
    exists_eq_right, Dict.mem_entries_iff]
  constructor
  · rintro ⟨results, ⟨n, hg⟩, hcard⟩
    obtain ⟨x, hx, y, hy, hne⟩ := Finset.one_lt_card.mp hcard
    have hmem : ∀ r ∈ results, ∃ o ∈ rows, attemptOf o = n ∧ o.result = r := by
      intro r hr
      apply mem_byAttempt.mp
      rw [Dict.members, hg]
      exact hr
    obtain ⟨a, ha, han, rfl⟩ := hmem x hx
    obtain ⟨b, hb, hbn, rfl⟩ := hmem y hy
    exact ⟨a, ha, b, hb, han.trans hbn.symm, hne⟩
  · rintro ⟨a, ha, b, hb, hab, hne⟩
    have hxa := mem_byAttempt.mpr ⟨a, ha, rfl, rfl⟩
    have hxb := mem_byAttempt.mpr ⟨b, hb, hab.symm, rfl⟩
    rw [Dict.members] at hxa hxb
    cases hg : (Dict.empty.collect (rows.map (fun o => (attemptOf o, o.result)))).get?
        (attemptOf a) with
    | none => simp [hg] at hxa
    | some results =>
      rw [hg] at hxa hxb
      exact ⟨results, ⟨_, hg⟩, Finset.one_lt_card.mpr ⟨_, hxa, _, hxb, hne⟩⟩

theorem runIdentity_congr (h : rows.Perm rows') : runIdentity rows = runIdentity rows' := by
  have hany : (Dict.empty.collect (rows.map (fun o => (attemptOf o, o.result)))).values.any
      (fun results => 1 < results.card) =
      (Dict.empty.collect (rows'.map (fun o => (attemptOf o, o.result)))).values.any
        (fun results => 1 < results.card) := by
    rw [Bool.eq_iff_iff, byAttempt_any, byAttempt_any]
    simp only [h.mem_iff]
  simp only [runIdentity, toFinset_eq (h.map _), present_congr (h.map _),
    present_congr (h.filterMap _), hany]

/-- A run with an identity has one result for each attempt. -/
theorem runIdentity_attempts (h : runIdentity rows = some identity) :
    ∀ a ∈ rows, ∀ b ∈ rows, attemptOf a = attemptOf b → a.result = b.result := by
  intro a ha b hb hab
  by_contra hne
  have hany := byAttempt_any.mpr ⟨a, ha, b, hb, hab, hne⟩
  simp only [runIdentity, hany, if_true, ite_self] at h
  split at h <;> cases h

/-- All that a resolution reads of a row: where it stands and what it says. -/
def standing (o : CIOutcome) : (Nat ×ₗ String) × CIResult := (attemptOrder o, o.result)

theorem standing_congr (h : rows.Perm rows') (hi : runIdentity rows = some identity) :
    (sortedBy attemptOrder rows).map standing = (sortedBy attemptOrder rows').map standing := by
  have hsorted : ∀ xs : List CIOutcome, ((sortedBy attemptOrder xs).map standing).Pairwise
      (fun a b => a.1 ≤ b.1) := by
    intro xs
    rw [List.pairwise_map]
    exact sortedBy_pairwise attemptOrder xs
  refine eq_of_perm_of_pairwise Prod.fst ?_ ?_ (hsorted rows) (hsorted rows')
  · exact ((sortedBy_perm _ _).trans (h.trans (sortedBy_perm _ _).symm)).map _
  · -- Rows that stand in one place are copies of one attempt, so they agree.
    intro a ha b hb hab
    simp only [List.mem_map, mem_sortedBy] at ha hb
    obtain ⟨x, hx, rfl⟩ := ha
    obtain ⟨y, hy, rfl⟩ := hb
    have hxy : attemptOrder x = attemptOrder y := hab
    have hattempt : attemptOf x = attemptOf y := congrArg (fun k => (ofLex k).1) hxy
    simp only [standing, hxy, runIdentity_attempts hi x hx y hy hattempt]

variable (policy) in
theorem resolveWorkflow_congr (h : rows.Perm rows') (hi : runIdentity rows = some identity)
    {first first' : CIOutcome} (hp : first.provider = first'.provider)
    (hr : first.runId = first'.runId) :
    resolveWorkflow policy identity first rows = resolveWorkflow policy identity first' rows' := by
  have hst := standing_congr h hi
  -- Every part of the resolution is read from the standings of the rows it keeps.
  have hkept : ∀ p : CIResult → Bool,
      ((sortedBy attemptOrder rows).filter (fun o => p o.result)).map standing =
        ((sortedBy attemptOrder rows').filter (fun o => p o.result)).map standing := by
    intro p
    have hfilter : ∀ xs : List CIOutcome, (xs.filter (fun o => p o.result)).map standing =
        (xs.map standing).filter (fun s => p s.2) := fun xs => by rw [List.filter_map]; rfl
    rw [hfilter, hfilter, hst]
  have hresult : ∀ xs : List CIOutcome,
      xs.map CIOutcome.result = (xs.map standing).map (fun s => s.2) :=
    fun xs => by rw [List.map_map]; rfl
  have hid : ∀ xs : List CIOutcome,
      xs.map CIOutcome.outcomeId = (xs.map standing).map (fun s => (ofLex s.1).2) :=
    fun xs => by rw [List.map_map]; rfl
  have hsome : ∀ xs : List CIOutcome,
      xs.getLast?.isSome = (xs.map standing).getLast?.isSome :=
    fun xs => by rw [List.getLast?_map, Option.isSome_map]
  have hnil : ∀ xs : List CIOutcome, (xs ≠ []) = ((xs.map standing) ≠ []) :=
    fun xs => by simp
  have hsource : sortedBy id (rows.map CIOutcome.outcomeId) =
      sortedBy id (rows'.map CIOutcome.outcomeId) :=
    sortedBy_congr (h.map _) (fun _ _ _ _ he => he)
  simp only [resolveWorkflow, hp, hr, hsource]
  simp only [← List.getLast?_map, hid, hresult, hsome, hnil, hkept isVerdict,
    hkept (fun r => !isVerdict r)]

/-- The verdict of a run, in terms of its rows: that of the highest attempt
which passed or failed, a missing attempt number standing for 0. -/
def VerdictOf (rows : List CIOutcome) : Option CIResult → Prop
  | none => ∀ o ∈ rows, isVerdict o.result = false
  | some v => ∃ o ∈ rows, o.result = v ∧ isVerdict v = true ∧
      ∀ b ∈ rows, isVerdict b.result = true → attemptOf b ≤ attemptOf o

theorem attemptOf_le {a b : CIOutcome} (h : attemptOrder a ≤ attemptOrder b) :
    attemptOf a ≤ attemptOf b := by
  rcases (Prod.Lex.le_iff (x := attemptOrder a) (y := attemptOrder b)).mp h with hlt | ⟨he, -⟩
  · exact le_of_lt hlt
  · exact le_of_eq he

theorem resolveWorkflow_verdict (first : CIOutcome) :
    VerdictOf rows (resolveWorkflow policy identity first rows).verdict := by
  have hmem : ∀ o, o ∈ (sortedBy attemptOrder rows).filter (fun o => isVerdict o.result) ↔
      o ∈ rows ∧ isVerdict o.result = true := fun o => by rw [List.mem_filter, mem_sortedBy]
  have hsorted := (sortedBy_pairwise attemptOrder rows).sublist
    (List.filter_sublist (p := fun o => isVerdict o.result))
  simp only [resolveWorkflow]
  generalize (sortedBy attemptOrder rows).filter (fun o => isVerdict o.result) = kept
    at hmem hsorted
  cases hlast : kept.getLast? with
  | none =>
    rw [List.getLast?_eq_none_iff] at hlast
    subst hlast
    intro o ho
    by_contra hv
    rw [Bool.not_eq_false] at hv
    exact absurd ((hmem o).mpr ⟨ho, hv⟩) (by simp)
  | some last =>
    obtain ⟨front, rfl⟩ := List.getLast?_eq_some_iff.mp hlast
    obtain ⟨hl, hv⟩ := (hmem last).mp (by simp)
    refine ⟨last, hl, rfl, hv, ?_⟩
    intro b hb hbv
    rcases List.mem_append.mp ((hmem b).mpr ⟨hb, hbv⟩) with hf | hf
    · exact attemptOf_le ((List.pairwise_append.mp hsorted).2.2 b hf last (by simp))
    · rw [List.mem_singleton.mp hf]

end Sediment.Proofs.CiRuns
