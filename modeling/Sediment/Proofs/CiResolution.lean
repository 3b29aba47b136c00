import Sediment.Proofs.CiLedger
import Sediment.Proofs.RepositoryIdentity

namespace Sediment.Proofs.CiResolution
open Sediment.Base Sediment.Core Sediment.Derive
open Sediment.Proofs.CiRuns Sediment.Proofs.CiAttachment Sediment.Proofs.CiLedger
open Sediment.Proofs.RepositoryOrder Sediment.Proofs.RepositoryIdentity

variable {policy : CIResolutionPolicy} {outcomes outcomes' rows : List CIOutcome}
  {digest : CIResolutionPolicy → String} {quarantineRevision : Nat}
  {indexed indexed' : CIOutcomeIndexResult} {commit : CommitKey} {identity : RunIdentity}

theorem mem_keysBySource {source : SourceId} :
    commit ∈ (keysBySource indexed).members source ↔
      ∃ item ∈ indexed.outcomesByCommit.listed commit, sourceId item = source := by
  rw [keysBySource, Dict.mem_members_collect]
  simp only [Dict.members, Dict.get?_empty, Option.getD_none, Finset.notMem_empty, false_or,
    List.mem_map, Prod.exists, Prod.mk.injEq, Dict.mem_unroll]
  constructor
  · rintro ⟨c, item, hi, hs, rfl⟩
    exact ⟨item, hi, hs⟩
  · rintro ⟨item, hi, hs⟩
    exact ⟨commit, item, hi, hs, rfl⟩

theorem eq_of_card_le {s : Finset String} (h : ¬ 1 < s.card) {a b : String} (ha : a ∈ s)
    (hb : b ∈ s) : a = b :=
  Finset.card_le_one.mp (not_lt.mp h) a ha b hb

theorem mem_present {values : List String} {v : String} :
    v ∈ present values ↔ v ∈ values ∧ v ≠ "" := by
  simp [present]

/-- Rows of one run agree on every label they carry. -/
theorem runIdentity_labels (h : runIdentity rows = some identity) :
    ∀ a ∈ rows, ∀ b ∈ rows, a.branch = b.branch ∧
      (a.workflowName ≠ "" → b.workflowName ≠ "" → a.workflowName = b.workflowName) ∧
      (∀ i j, a.workflowId = some i → b.workflowId = some j → i ≠ "" → j ≠ "" → i = j) ∧
      (∀ i j, a.workflowPath = some i → b.workflowPath = some j → i ≠ "" → j ≠ "" → i = j) := by
  intro a ha b hb
  simp only [runIdentity] at h
  split at h
  · cases h
  · rename_i branch hbranch
    rw [onlyMember_eq_some] at hbranch
    split at h
    · cases h
    · rename_i hcard
      simp only [not_or] at hcard
      obtain ⟨hid, hname, hpath⟩ := hcard
      refine ⟨?_, ?_, ?_, ?_⟩
      · have hmem : ∀ o ∈ rows, o.branch = branch := by
          intro o ho
          have hm : o.branch ∈ (rows.map CIOutcome.branch).toFinset := by
            rw [List.mem_toFinset]
            exact List.mem_map_of_mem ho
          rwa [hbranch, Finset.mem_singleton] at hm
        rw [hmem a ha, hmem b hb]
      · intro hna hnb
        exact eq_of_card_le hname (mem_present.mpr ⟨List.mem_map_of_mem ha, hna⟩)
          (mem_present.mpr ⟨List.mem_map_of_mem hb, hnb⟩)
      · intro i j hi hj hne hne'
        exact eq_of_card_le hid (mem_present.mpr ⟨List.mem_filterMap.mpr ⟨a, ha, hi⟩, hne⟩)
          (mem_present.mpr ⟨List.mem_filterMap.mpr ⟨b, hb, hj⟩, hne'⟩)
      · intro i j hi hj hne hne'
        exact eq_of_card_le hpath (mem_present.mpr ⟨List.mem_filterMap.mpr ⟨a, ha, hi⟩, hne⟩)
          (mem_present.mpr ⟨List.mem_filterMap.mpr ⟨b, hb, hj⟩, hne'⟩)

/-- The whole of a run's rows behind one workflow resolution of a commit. -/
structure Contributes (indexed : CIOutcomeIndexResult) (rows : List CIOutcome)
    (commit : CommitKey) (w : CIWorkflowResolution) : Prop where
  nonempty : rows ≠ []
  qualified : ∀ o ∈ rows, sourceId o ∉ indexed.declinedSources
  attached : ∀ o ∈ rows, ∀ c,
    (∃ item ∈ indexed.outcomesByCommit.listed c, sourceId item = sourceId o) ↔ c = commit
  labels : ∀ a ∈ rows, ∀ b ∈ rows, a.branch = b.branch ∧
    (a.workflowName ≠ "" → b.workflowName ≠ "" → a.workflowName = b.workflowName) ∧
    (∀ i j, a.workflowId = some i → b.workflowId = some j → i ≠ "" → j ≠ "" → i = j) ∧
    (∀ i j, a.workflowPath = some i → b.workflowPath = some j → i ≠ "" → j ≠ "" → i = j)
  attempts : ∀ a ∈ rows, ∀ b ∈ rows, attemptOf a = attemptOf b → a.result = b.result
  run : ∀ o ∈ rows, w.provider = o.provider ∧ w.runId = o.runId
  sources : w.sourceOutcomeIds = sortedBy id (rows.map CIOutcome.outcomeId)
  verdict : VerdictOf rows w.verdict

theorem contributes_of_complete {key : List String} {w : CIWorkflowResolution}
    (hk : key ∈ completeRuns indexed outcomes)
    (hv : runVerdict policy (keysBySource indexed) (runRows outcomes key) = some (commit, w)) :
    Contributes indexed (runRows outcomes key) commit w := by
  obtain ⟨-, hq⟩ := mem_completeRuns.mp hk
  obtain ⟨identity, first, hi, hc, hf, rfl⟩ := runVerdict_some hv
  have hfirst := List.mem_of_mem_head? hf
  refine ⟨List.ne_nil_of_mem hfirst, fun o ho => (hq o ho).1, ?_, runIdentity_labels hi,
    runIdentity_attempts hi, ?_, rfl, resolveWorkflow_verdict first⟩
  · intro o ho c
    have hsub : ∀ d ∈ (keysBySource indexed).members (sourceId o), d = commit := by
      intro d hd
      have hm := mem_runCommits.mpr ⟨o, ho, hd⟩
      rwa [hc, Finset.mem_singleton] at hm
    rw [← mem_keysBySource]
    constructor
    · exact hsub c
    · rintro rfl
      obtain ⟨d, hd⟩ := Finset.nonempty_iff_ne_empty.mpr (hq o ho).2
      exact hsub d hd ▸ hd
  · intro o ho
    have hrun := (mem_runRows.mp hfirst).2.trans (mem_runRows.mp ho).2.symm
    exact (runKey_run hrun).2

/-- The runs behind the workflow resolutions of one commit. -/
theorem byCommit_runs (policy : CIResolutionPolicy) (indexed : CIOutcomeIndexResult)
    (outcomes : List CIOutcome)
    (commit : CommitKey) :
    ∃ runs : List (List String), runs.Nodup ∧
      List.Forall₂ (fun key w => Contributes indexed (runRows outcomes key) commit w) runs
        ((runLedger policy indexed outcomes).byCommit.listed commit) := by
  rw [byCommit_runLedger, Dict.listed_gather]
  have hrun : ∀ keys : List (List String), keys.Nodup →
      (∀ key ∈ keys, key ∈ completeRuns indexed outcomes) →
      ∃ runs : List (List String), runs.Sublist keys ∧
        List.Forall₂ (fun key w => Contributes indexed (runRows outcomes key) commit w) runs
          (((keys.filterMap (fun key => runVerdict policy (keysBySource indexed)
            (runRows outcomes key))).filter (fun p => p.1 = commit)).map Prod.snd) := by
    intro keys
    induction keys with
    | nil => exact fun _ _ => ⟨[], List.Sublist.refl _, List.Forall₂.nil⟩
    | cons key keys ih =>
      intro hn hm
      obtain ⟨runs, hs, hall⟩ := ih (List.nodup_cons.mp hn).2
        (fun k hk => hm k (List.mem_cons_of_mem _ hk))
      cases hv : runVerdict policy (keysBySource indexed) (runRows outcomes key) with
      | none =>
        simp only [List.filterMap_cons, hv]
        exact ⟨runs, hs.cons _, hall⟩
      | some v =>
        obtain ⟨c, w⟩ := v
        simp only [List.filterMap_cons, hv]
        by_cases hc : c = commit
        · subst hc
          refine ⟨key :: runs, hs.cons_cons _, ?_⟩
          simp only [List.filter_cons, decide_true, if_true, List.map_cons]
          exact List.Forall₂.cons (contributes_of_complete (hm key (by simp)) hv) hall
        · simp only [List.filter_cons, hc, decide_false, Bool.false_eq_true, if_false]
          exact ⟨runs, hs.cons _, hall⟩
  obtain ⟨runs, hs, hall⟩ := hrun _ (completeRuns_nodup indexed outcomes) (fun _ hk => hk)
  exact ⟨runs, (completeRuns_nodup indexed outcomes).sublist hs, hall⟩

section
variable [Interpreter] {context : Option RepositoryContext} {result : CIResolutionResult}

theorem localContext_org {orgId : String} {population : List CIOutcome} {c : RepositoryContext}
    (h : localContext orgId population = .ok c) : normalizeOrgId orgId = some c.orgId ∧
      ∀ fact key, (c.resolveFact fact).key = some key →
        key.orgId = c.orgId ∧ normalizeOrgId fact.orgId = some fact.orgId := by
  by_cases ho : normalizeOrgId orgId = none
  · simp only [localContext, if_pos ho] at h
    cases h
  · simp only [localContext, if_neg ho, bind_ok] at h
    obtain ⟨evidence, -, hbuild⟩ := h
    obtain ⟨org, names, ho, -, -, -, rfl⟩ := build_ok hbuild
    exact ⟨ho, fun fact key hk => resolveFact_org hk⟩

/-- The organization whose outcomes may be attached to the commit. -/
def commitOrg (context : Option RepositoryContext) (commit : CommitKey) : String :=
  match context with
  | some c => c.orgId
  | none => commit.repository.orgId

theorem attached_org (h : indexCiOutcomesByCommitKeyResult outcomes context = .ok indexed)
    {o : CIOutcome} (hc : commit ∈ (keysBySource indexed).members (sourceId o)) :
    o.orgId = commitOrg context commit := by
  obtain ⟨contexts, hlocal, hi⟩ := index_ok h
  obtain ⟨item, hm, hs, ha⟩ := (hi.keys _ _).mp hc
  have horg : item.orgId = o.orgId := congrArg SourceId.orgId hs
  rw [← horg]
  cases context with
  | some c =>
    simp only [scopedOutcomes, List.mem_filter, inContext, decide_eq_true_eq] at hm
    exact hm.2.1
  | none =>
    obtain ⟨c, hok, hlook⟩ := (localContexts_ok (hlocal rfl)).1 item hm
    obtain ⟨horg, hkey⟩ := localContext_org hok
    have hres : (c.resolveFact item.project).key = some commit.repository := by
      simp only [attachedTo, attachment, hlook, Option.isSome_none] at ha
      cases hk : (c.resolveFact item.project).key with
      | none => simp [hk] at ha
      | some key =>
        rw [hk] at ha
        cases key with
        | identified org i => simp at ha
        | legacy org repo =>
          cases hr : (c.resolveFact item.project).reason with
          | some reason => simp [hr] at ha
          | none => simp only [hr, Option.some.injEq] at ha; rw [← ha]
    obtain ⟨hko, hno⟩ := hkey _ _ hres
    have hraw : normalizeOrgId item.orgId = some item.orgId := hno
    rw [commitOrg, hko]
    exact Option.some.inj (hraw.symm.trans horg)

/-- What every result is made of. -/
theorem derive_ok (h : deriveCiResolutionResult outcomes policy digest quarantineRevision context =
      .ok result) :
    ∃ indexed, indexCiOutcomesByCommitKeyResult (scopedOutcomes context outcomes) context =
        .ok indexed ∧
      (sortedBy commitSortKey (runLedger policy indexed
          (scopedOutcomes context outcomes)).byCommit.keys).mapM (fun commit =>
        commitResolution context ⟨policy.policyVersion, quarantineRevision, digest policy⟩ commit
          ((runLedger policy indexed (scopedOutcomes context outcomes)).byCommit.listed commit)) =
        .ok result.resolutions ∧
      result.outcomesByCommit =
        (runLedger policy indexed (scopedOutcomes context outcomes)).outcomesByCommit := by
  simp only [deriveCiResolutionResult, bind_ok, mapError_ok] at h
  obtain ⟨indexed, hi, resolutions, hr, hout⟩ := h
  cases hout
  exact ⟨indexed, hi, hr, rfl⟩

/-- Results that hold the same. Only evidence placed alike may change places. -/
structure SameResolutions (a b : CIResolutionResult) : Prop where
  resolutions : a.resolutions = b.resolutions
  skipped : a.skipped = b.skipped
  conflictingCommitKeys : a.conflictingCommitKeys = b.conflictingCommitKeys
  outcomesByCommit : ∀ commit, Option.Rel List.Perm (a.outcomesByCommit.get? commit)
    (b.outcomesByCommit.get? commit)

omit [Interpreter] in
theorem scopedOutcomes_perm (context : Option RepositoryContext) (h : outcomes.Perm outcomes') :
    (scopedOutcomes context outcomes).Perm (scopedOutcomes context outcomes') := by
  cases context with
  | none => exact h
  | some c => exact h.filter _

variable (policy digest quarantineRevision context) in
theorem derive_perm (h : outcomes.Perm outcomes') :
    Agree SameResolutions
      (deriveCiResolutionResult outcomes policy digest quarantineRevision context)
      (deriveCiResolutionResult outcomes' policy digest quarantineRevision context) := by
  have hscope := scopedOutcomes_perm context h
  simp only [deriveCiResolutionResult]
  refine ((index_perm context hscope).mapError _).bind ?_
  intro indexed indexed' hi
  have hl := runLedger_perm policy hscope hi
  simp only [hl.byCommit]
  refine (Agree.refl (R := Eq) (fun _ => rfl) _).bind ?_
  rintro resolutions _ rfl
  refine ⟨rfl, ?_, hl.conflictingCommitKeys, hl.outcomesByCommit⟩
  funext reason
  cases reason with
  | conflictingRunIdentity => exact hl.conflicting
  | ambiguousWorkflowVerdicts => rfl
  | repository reason => exact congrFun hi.skipped reason

/-- Where the capture order tells the outcomes apart, the evidence keeps its order too. -/
theorem derive_perm_evidence {result' : CIResolutionResult} (h : outcomes.Perm outcomes')
    (hr : deriveCiResolutionResult outcomes policy digest quarantineRevision context = .ok result)
    (hr' : deriveCiResolutionResult outcomes' policy digest quarantineRevision context =
      .ok result')
    (hk : ∀ a ∈ outcomes, ∀ b ∈ outcomes, outcomeOrder a = outcomeOrder b → a = b) :
    result.outcomesByCommit.Same result'.outcomesByCommit := by
  have hsame := derive_perm policy digest quarantineRevision context h
  rw [hr, hr'] at hsame
  obtain ⟨indexed, -, -, hev⟩ := derive_ok hr
  obtain ⟨indexed', -, -, hev'⟩ := derive_ok hr'
  intro commit
  have hrel := hsame.outcomesByCommit commit
  cases hg : result.outcomesByCommit.get? commit with
  | none =>
    rw [hg] at hrel
    cases hg' : result'.outcomesByCommit.get? commit with
    | none => rfl
    | some items' => rw [hg'] at hrel; cases hrel
  | some items =>
    rw [hg] at hrel
    cases hg' : result'.outcomesByCommit.get? commit with
    | none => rw [hg'] at hrel; cases hrel
    | some items' =>
      rw [hg'] at hrel
      cases hrel
      rename_i hp
      rw [hev] at hg
      rw [hev'] at hg'
      obtain ⟨hmem, hsorted⟩ := retains_runLedger indexed _ commit items hg
      obtain ⟨-, hsorted'⟩ := retains_runLedger indexed' _ commit items' hg'
      have hin : ∀ a ∈ items, a ∈ outcomes := by
        intro a ha
        have hm := hmem a ha
        cases context with
        | none => exact hm
        | some c => exact List.mem_of_mem_filter hm
      exact congrArg some (eq_of_perm_of_pairwise outcomeOrder hp
        (fun a ha b hb => hk a (hin a ha) b (hin b hb)) hsorted hsorted')

theorem commitResolution_ok {provenance : Provenance} {workflows : List CIWorkflowResolution}
    {r : CIResolution} (h : commitResolution context provenance commit workflows = .ok r) :
    r.orgId = commit.repository.orgId ∧ r.commitSha = commit.commitSha ∧
      r.workflowResolutions = sortedBy workflowKey workflows ∧
      r.verdict = aggregateVerdict r.workflowResolutions ∧
      r.sourceOutcomeIds =
        sortedBy id (r.workflowResolutions.flatMap CIWorkflowResolution.sourceOutcomeIds) := by
  simp only [commitResolution, bind_ok] at h
  obtain ⟨⟨repo, repositoryIdentity⟩, -, hout⟩ := h
  cases hout
  exact ⟨rfl, rfl, rfl, rfl, rfl⟩

omit [Interpreter] in
/-- A commit has a verdict only where its workflows that have one agree. -/
theorem aggregateVerdict_some {workflows : List CIWorkflowResolution} {v : CIResult} :
    aggregateVerdict workflows = some v ↔ (∃ w ∈ workflows, w.verdict = some v) ∧
      ∀ w ∈ workflows, ∀ u, w.verdict = some u → u = v := by
  simp only [aggregateVerdict, onlyMember_eq_some, Finset.eq_singleton_iff_unique_mem,
    List.mem_toFinset, List.mem_filterMap]
  constructor
  · rintro ⟨hv, hall⟩
    exact ⟨hv, fun w hw u hu => hall u ⟨w, hw, hu⟩⟩
  · rintro ⟨hv, hall⟩
    exact ⟨hv, fun u ⟨w, hw, hu⟩ => hall w hw u hu⟩

/-- The runs behind one resolution, whatever order its workflows are listed in. -/
theorem resolution_runs {provenance : Provenance} {r : CIResolution}
    (hr : commitResolution context provenance commit
      ((runLedger policy indexed outcomes).byCommit.listed commit) = .ok r) :
    ∃ runs : List (List String), runs.Nodup ∧
      List.Forall₂ (fun key w => Contributes indexed (runRows outcomes key) commit w) runs
        r.workflowResolutions := by
  obtain ⟨runs, hn, hall⟩ := byCommit_runs policy indexed outcomes commit
  obtain ⟨-, -, hw, -⟩ := commitResolution_ok hr
  rw [hw]
  obtain ⟨runs', hall', hp⟩ := List.perm_comp_forall₂
    (sortedBy_perm workflowKey _) hall.flip
  exact ⟨runs', hp.nodup_iff.mpr hn, hall'.flip⟩

/-- Every id in a resolution is that of an outcome attached to its commit only. -/
theorem evidence_source {provenance : Provenance} {r : CIResolution}
    (hi : indexCiOutcomesByCommitKeyResult outcomes context = .ok indexed)
    (hr : commitResolution context provenance commit
      ((runLedger policy indexed rows).byCommit.listed commit) = .ok r)
    {outcomeId : String} (hid : outcomeId ∈ r.sourceOutcomeIds) :
    ∀ c, (∃ item ∈ indexed.outcomesByCommit.listed c,
      sourceId item = ⟨commitOrg context commit, outcomeId⟩) ↔ c = commit := by
  obtain ⟨runs, -, hall⟩ := resolution_runs hr
  obtain ⟨-, -, -, -, hids⟩ := commitResolution_ok hr
  rw [hids, mem_sortedBy, List.mem_flatMap] at hid
  obtain ⟨w, hw, hid⟩ := hid
  obtain ⟨key, hc⟩ : ∃ key, Contributes indexed (runRows rows key) commit w := by
    obtain ⟨i, hi, rfl⟩ := List.getElem_of_mem hw
    exact ⟨_, hall.get (hall.length_eq ▸ hi) hi⟩
  rw [hc.sources, mem_sortedBy, List.mem_map] at hid
  obtain ⟨o, ho, rfl⟩ := hid
  have hatt := hc.attached o ho
  have horg := attached_org hi (mem_keysBySource.mpr ((hatt commit).mpr rfl))
  rw [← horg]
  exact hatt

theorem resolutions_disjoint {provenance : Provenance} {commit' : CommitKey}
    {r r' : CIResolution}
    (hi : indexCiOutcomesByCommitKeyResult outcomes context = .ok indexed)
    (hr : commitResolution context provenance commit
      ((runLedger policy indexed rows).byCommit.listed commit) = .ok r)
    (hr' : commitResolution context provenance commit'
      ((runLedger policy indexed rows).byCommit.listed commit') = .ok r')
    (hne : commit ≠ commit') (ho : r.orgId = r'.orgId) :
    ∀ id ∈ r.sourceOutcomeIds, id ∉ r'.sourceOutcomeIds := by
  intro id hid hid'
  have horg : commitOrg context commit = commitOrg context commit' := by
    cases context with
    | some c => rfl
    | none =>
      obtain ⟨h, -⟩ := commitResolution_ok hr
      obtain ⟨h', -⟩ := commitResolution_ok hr'
      exact h.symm.trans (ho.trans h')
  have h := evidence_source hi hr hid
  have h' := evidence_source hi hr' hid'
  rw [← horg] at h'
  exact hne ((h' commit).mp ((h commit).mpr rfl))

/-- The result does not depend on the order of the outcomes. No outcome
supports two commits, and a resolution rests on whole runs only: one row that
is declined, unattached or at odds with its run keeps the run out. -/
theorem ci_resolution_never_falsely_clean (outcomes : List CIOutcome)
    (policy : CIResolutionPolicy) (digest : CIResolutionPolicy → String)
    (quarantineRevision : Nat) (context : Option RepositoryContext) :
    (∀ outcomes', outcomes.Perm outcomes' → Agree SameResolutions
      (deriveCiResolutionResult outcomes policy digest quarantineRevision context)
      (deriveCiResolutionResult outcomes' policy digest quarantineRevision context)) ∧
    ∀ result, deriveCiResolutionResult outcomes policy digest quarantineRevision context =
        .ok result →
      (∀ outcomes' result', outcomes.Perm outcomes' →
        deriveCiResolutionResult outcomes' policy digest quarantineRevision context =
          .ok result' →
        (∀ a ∈ outcomes, ∀ b ∈ outcomes, outcomeOrder a = outcomeOrder b → a = b) →
        result.outcomesByCommit.Same result'.outcomesByCommit) ∧
      result.resolutions.Pairwise (fun r r' => r.orgId = r'.orgId →
        ∀ id ∈ r.sourceOutcomeIds, id ∉ r'.sourceOutcomeIds) ∧
      (∀ r ∈ result.resolutions, ∀ v, r.verdict = some v ↔
        (∃ w ∈ r.workflowResolutions, w.verdict = some v) ∧
          ∀ w ∈ r.workflowResolutions, ∀ u, w.verdict = some u → u = v) ∧
      ∃ indexed, indexCiOutcomesByCommitKeyResult (scopedOutcomes context outcomes) context =
          .ok indexed ∧
        ∀ r ∈ result.resolutions, ∃ commit, r.orgId = commit.repository.orgId ∧
          r.commitSha = commit.commitSha ∧
          r.sourceOutcomeIds =
            sortedBy id (r.workflowResolutions.flatMap CIWorkflowResolution.sourceOutcomeIds) ∧
          ∃ runs : List (List String), runs.Nodup ∧ List.Forall₂ (fun key w =>
            Contributes indexed (runRows (scopedOutcomes context outcomes) key) commit w) runs
              r.workflowResolutions := by
  refine ⟨fun outcomes' hp => derive_perm _ _ _ _ hp, fun result h => ?_⟩
  obtain ⟨indexed, hi, hres, -⟩ := derive_ok h
  have hn : (sortedBy commitSortKey (runLedger policy indexed
      (scopedOutcomes context outcomes)).byCommit.keys).Nodup :=
    (sortedBy_perm _ _).nodup_iff.mpr (Dict.nodup_keys _)
  have hmem : ∀ r ∈ result.resolutions, ∃ commit, commitResolution context
      ⟨policy.policyVersion, quarantineRevision, digest policy⟩ commit
        ((runLedger policy indexed (scopedOutcomes context outcomes)).byCommit.listed commit) =
      .ok r := by
    intro r hr
    obtain ⟨commit, -, hc⟩ := (mem_of_mapM_ok hres r).mp hr
    exact ⟨commit, hc⟩
  refine ⟨fun outcomes' result' hp h' hk => derive_perm_evidence hp h h' hk, ?_, ?_, indexed, hi,
    ?_⟩
  · exact pairwise_of_forall₂ (forall₂_of_mapM_ok hres) hn
      (fun _ _ _ _ hne hr hr' => resolutions_disjoint hi hr hr' hne)
  · intro r hr v
    obtain ⟨commit, hc⟩ := hmem r hr
    obtain ⟨-, -, -, hverdict, -⟩ := commitResolution_ok hc
    rw [hverdict]
    exact aggregateVerdict_some
  · intro r hr
    obtain ⟨commit, hc⟩ := hmem r hr
    obtain ⟨horg, hsha, -, -, hids⟩ := commitResolution_ok hc
    exact ⟨commit, horg, hsha, hids, resolution_runs hc⟩

end

def headSha : String := "0123456789abcdef0123456789abcdef01234567"

/-- An outcome of one attempt of run 7. -/
def attempt (outcomeId : String) (runAttempt : Nat) (result : CIResult) (raw : String) :
    CIOutcome where
  outcomeId
  orgId := "acme"
  provider := .githubActions
  runId := "7"
  runAttempt := some runAttempt
  repo := "acme/a"
  commitSha := headSha
  branch := "main"
  result
  workflowName := "test"
  workflowId := none
  workflowPath := none
  capturedAt := noon
  repositoryProvider := none
  repositoryHost := none
  repositoryId := none
  raw

/-- The verdict survives a cancelled retry, and copies of one outcome which
differ in their payload stay in the order they came. -/
theorem cancelled_retry_keeps_verdict :
    (∃ result, @deriveCiResolutionResult lowerCase
        [attempt "o1" 1 .passed "", attempt "o2" 2 .cancelled ""] {} (fun _ => "") 0 none =
        .ok result ∧
      result.resolutions.map (fun r => r.workflowResolutions.map (fun w =>
        (w.sourceOutcomeIds, w.verdict))) = [[(["o1", "o2"], some .passed)]]) ∧
    (∃ result result', @deriveCiResolutionResult lowerCase
        [attempt "o1" 1 .passed "x", attempt "o1" 1 .passed "y"] {} (fun _ => "") 0 none =
        .ok result ∧
      @deriveCiResolutionResult lowerCase
        [attempt "o1" 1 .passed "y", attempt "o1" 1 .passed "x"] {} (fun _ => "") 0 none =
        .ok result' ∧
      ¬ result.outcomesByCommit.Same result'.outcomesByCommit) := by
  refine ⟨⟨_, rfl, by decide⟩, ⟨_, _, rfl, rfl, ?_⟩⟩
  intro h
  exact absurd (h ⟨.legacy "acme" "acme/a", headSha⟩) (by decide)

theorem retried_run_in_any_order :
    Agree SameResolutions
      (@deriveCiResolutionResult lowerCase
        [attempt "o1" 1 .passed "", attempt "o2" 2 .cancelled ""] {} (fun _ => "") 0 none)
      (@deriveCiResolutionResult lowerCase
        [attempt "o2" 2 .cancelled "", attempt "o1" 1 .passed ""] {} (fun _ => "") 0 none) ∧
    ∃ result, @deriveCiResolutionResult lowerCase
        [attempt "o1" 1 .passed "", attempt "o2" 2 .cancelled ""] {} (fun _ => "") 0 none =
        .ok result ∧
      ∀ r ∈ result.resolutions, r.verdict = some .passed ∧
        ∃ w ∈ r.workflowResolutions, w.verdict = some .passed := by
  have h := @ci_resolution_never_falsely_clean lowerCase
    [attempt "o1" 1 .passed "", attempt "o2" 2 .cancelled ""] {} (fun _ => "") 0 none
  obtain ⟨result, hok, hv⟩ : ∃ result, @deriveCiResolutionResult lowerCase
      [attempt "o1" 1 .passed "", attempt "o2" 2 .cancelled ""] {} (fun _ => "") 0 none =
      .ok result ∧ ∀ r ∈ result.resolutions, r.verdict = some .passed := ⟨_, rfl, by decide⟩
  obtain ⟨-, -, hagree, -⟩ := h.2 result hok
  exact ⟨h.1 _ (List.Perm.swap _ _ _), result, hok,
    fun r hr => ⟨hv r hr, ((hagree r hr .passed).mp (hv r hr)).1⟩⟩

end Sediment.Proofs.CiResolution
