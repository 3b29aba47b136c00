import Sediment.Proofs.CiAttachment

namespace Sediment.Proofs.CiLedger
open Sediment.Base Sediment.Core Sediment.Derive
open Sediment.Proofs.CiRuns Sediment.Proofs.CiAttachment

variable {policy : CIResolutionPolicy} {outcomes outcomes' rows rows' : List CIOutcome}
  {keys keys' : Dict SourceId (Finset CommitKey)} {s s' : RunLedger}

theorem ciProvider_value_injective : Function.Injective CIProvider.value := by
  intro a b h
  cases a <;> cases b <;> first | rfl | (exact absurd h (by decide))

/-- A run key names one provider's run. -/
theorem runKey_run {a b : CIOutcome} (h : runKey a = runKey b) :
    a.orgId = b.orgId ∧ a.provider = b.provider ∧ a.runId = b.runId := by
  have hrun : ∀ o, (runKey o)[0]? = some o.orgId ∧ (runKey o)[1]? = some o.provider.value ∧
      (runKey o)[5]? = some o.runId := by
    intro o
    unfold runKey
    split <;> simp
  obtain ⟨ha, hap, har⟩ := hrun a
  obtain ⟨hb, hbp, hbr⟩ := hrun b
  rw [h] at ha hap har
  exact ⟨Option.some.inj (ha.symm.trans hb),
    ciProvider_value_injective (Option.some.inj (hap.symm.trans hbp)),
    Option.some.inj (har.symm.trans hbr)⟩

def runRows (outcomes : List CIOutcome) (key : List String) : List CIOutcome :=
  outcomes.filter (fun item => runKey item = key)

theorem mem_runRows {key : List String} {item : CIOutcome} :
    item ∈ runRows outcomes key ↔ item ∈ outcomes ∧ runKey item = key := by
  simp [runRows]

theorem byRun_listed (key : List String) : (byRun outcomes).listed key = runRows outcomes key := by
  rw [byRun, Dict.listed_gather, List.filter_map, List.map_map]
  simp [Dict.listed, runRows, Function.comp_def]

theorem mem_byRun_keys {key : List String} :
    key ∈ (byRun outcomes).keys ↔ ∃ item ∈ outcomes, runKey item = key := by
  rw [byRun, Dict.mem_keys_gather]
  simp [Dict.keys, Dict.empty]

theorem mem_incompleteRuns {indexed : CIOutcomeIndexResult} {key : List String} :
    key ∈ incompleteRuns indexed outcomes ↔ ∃ item ∈ runRows outcomes key,
      sourceId item ∈ indexed.declinedSources ∨
        (keysBySource indexed).members (sourceId item) = ∅ := by
  simp only [incompleteRuns, List.mem_toFinset, List.mem_map, List.mem_filter, decide_eq_true_eq,
    mem_runRows]
  constructor
  · rintro ⟨item, ⟨hm, hd⟩, hk⟩
    exact ⟨item, ⟨hm, hk⟩, hd⟩
  · rintro ⟨item, ⟨hm, hk⟩, hd⟩
    exact ⟨item, ⟨hm, hd⟩, hk⟩

theorem mem_completeRuns {indexed : CIOutcomeIndexResult} {key : List String} :
    key ∈ completeRuns indexed outcomes ↔ (∃ item ∈ outcomes, runKey item = key) ∧
      ∀ item ∈ runRows outcomes key, sourceId item ∉ indexed.declinedSources ∧
        (keysBySource indexed).members (sourceId item) ≠ ∅ := by
  simp only [completeRuns, List.mem_filter, mem_sortedBy, mem_byRun_keys, decide_eq_true_eq,
    mem_incompleteRuns, not_exists, not_and, not_or]

theorem completeRuns_nodup (indexed : CIOutcomeIndexResult) (outcomes : List CIOutcome) :
    (completeRuns indexed outcomes).Nodup :=
  ((sortedBy_perm id _).nodup_iff.mpr (Dict.nodup_keys _)).filter _

theorem completeRuns_perm {indexed indexed' : CIOutcomeIndexResult} (h : outcomes.Perm outcomes')
    (hi : SameIndex indexed indexed') :
    completeRuns indexed outcomes = completeRuns indexed' outcomes' := by
  have hkeys : (byRun outcomes).keys.Perm (byRun outcomes').keys := by
    rw [List.perm_ext_iff_of_nodup (Dict.nodup_keys _) (Dict.nodup_keys _)]
    intro key
    simp only [mem_byRun_keys, h.mem_iff]
  have hinc : incompleteRuns indexed outcomes = incompleteRuns indexed' outcomes' := by
    ext key
    simp only [mem_incompleteRuns, hi.declined, hi.keys, (h.filter _).mem_iff, runRows]
  have hsort : sortedBy id (byRun outcomes).keys = sortedBy id (byRun outcomes').keys :=
    sortedBy_congr hkeys (fun _ _ _ _ he => he)
  rw [completeRuns, completeRuns, hinc, hsort]

theorem runCommits_congr (h : rows.Perm rows') (hk : keys.members = keys'.members) :
    runCommits keys rows = runCommits keys' rows' := by
  rw [runCommits, runCommits, toFinset_eq h, hk]

theorem mem_runCommits {commit : CommitKey} :
    commit ∈ runCommits keys rows ↔ ∃ item ∈ rows, commit ∈ keys.members (sourceId item) := by
  simp [runCommits]

/-- What a resolved run rests on. -/
theorem runVerdict_some {commit : CommitKey} {w : CIWorkflowResolution}
    (h : runVerdict policy keys rows = some (commit, w)) :
    ∃ identity first, runIdentity rows = some identity ∧ runCommits keys rows = {commit} ∧
      rows.head? = some first ∧ w = resolveWorkflow policy identity first rows := by
  simp only [runVerdict, Option.bind_eq_bind, Option.bind_eq_some_iff, Option.pure_def,
    Option.some.injEq, Prod.mk.injEq] at h
  obtain ⟨identity, hi, c, hc, first, hf, rfl, rfl⟩ := h
  exact ⟨identity, first, hi, onlyMember_eq_some.mp hc, hf, rfl⟩

variable (policy) in
theorem runVerdict_congr (h : rows.Perm rows') (hk : keys.members = keys'.members)
    (hrun : ∀ a ∈ rows, ∀ b ∈ rows, runKey a = runKey b) :
    runVerdict policy keys rows = runVerdict policy keys' rows' := by
  simp only [runVerdict, ← runIdentity_congr h, ← runCommits_congr h hk]
  cases hi : runIdentity rows with
  | none => rfl
  | some identity =>
    cases onlyMember (runCommits keys rows) with
    | none => rfl
    | some commit =>
      cases hr : rows with
      | nil =>
        rw [hr] at h
        rw [List.nil_perm.mp h]
      | cons a rest =>
        cases hr' : rows' with
        | nil =>
          rw [hr, hr'] at h
          cases h.eq_nil
        | cons b rest' =>
          have ha : a ∈ rows := by rw [hr]; simp
          have hb : b ∈ rows := h.mem_iff.mpr (by rw [hr']; simp)
          obtain ⟨-, hp, hid⟩ := runKey_run (hrun a ha b hb)
          have hw := resolveWorkflow_congr policy h hi hp hid
          rw [hr, hr'] at hw
          change some (commit, _) = some (commit, _)
          rw [hw]

/-- Ledgers that say the same, up to the order of equally placed evidence. -/
structure SameLedger (s s' : RunLedger) : Prop where
  conflicting : s.conflicting = s'.conflicting
  conflictingCommitKeys : s.conflictingCommitKeys = s'.conflictingCommitKeys
  byCommit : s.byCommit = s'.byCommit
  outcomesByCommit : ∀ commit, Option.Rel List.Perm (s.outcomesByCommit.get? commit)
    (s'.outcomesByCommit.get? commit)

theorem resolveRun_same (hs : SameLedger s s') (h : rows.Perm rows')
    (hk : keys.members = keys'.members) (hrun : ∀ a ∈ rows, ∀ b ∈ rows, runKey a = runKey b) :
    SameLedger (resolveRun policy keys s rows) (resolveRun policy keys' s' rows') := by
  simp only [resolveRun, ← runVerdict_congr policy h hk hrun,
    ← runCommits_congr h hk]
  cases runVerdict policy keys rows with
  | none =>
    exact ⟨by simp only [hs.conflicting], by simp only [hs.conflictingCommitKeys], hs.byCommit,
      hs.outcomesByCommit⟩
  | some v =>
    refine ⟨hs.conflicting, hs.conflictingCommitKeys, by simp only [hs.byCommit], ?_⟩
    intro commit
    simp only [Dict.get?_alter]
    split
    · refine Option.Rel.some ?_
      have hknown : ((s.outcomesByCommit.get? v.1).getD []).Perm
          ((s'.outcomesByCommit.get? v.1).getD []) := by
        have hrel := hs.outcomesByCommit v.1
        revert hrel
        cases s.outcomesByCommit.get? v.1 <;> cases s'.outcomesByCommit.get? v.1 <;>
          simp
      exact (sortedBy_perm _ _).trans ((hknown.append h).trans (sortedBy_perm _ _).symm)
    · exact hs.outcomesByCommit commit

theorem foldl_same {runs runs' : List (List CIOutcome)} (hr : List.Forall₂ List.Perm runs runs')
    (hk : keys.members = keys'.members)
    (hrun : ∀ rows ∈ runs, ∀ a ∈ rows, ∀ b ∈ rows, runKey a = runKey b)
    (hs : SameLedger s s') :
    SameLedger (runs.foldl (resolveRun policy keys) s) (runs'.foldl (resolveRun policy keys') s') := by
  induction hr generalizing s s' with
  | nil => exact hs
  | @cons rows rows' runs runs' h _ ih =>
    exact ih (fun r hm => hrun r (List.mem_cons_of_mem _ hm))
      (resolveRun_same hs h hk (hrun rows (by simp)))

variable (policy) in
theorem runLedger_perm {indexed indexed' : CIOutcomeIndexResult} (h : outcomes.Perm outcomes')
    (hi : SameIndex indexed indexed') :
    SameLedger (runLedger policy indexed outcomes) (runLedger policy indexed' outcomes') := by
  rw [runLedger, runLedger, completeRuns_perm h hi]
  apply foldl_same _ hi.keys
  · intro rows hm a ha b hb
    obtain ⟨key, -, rfl⟩ := List.mem_map.mp hm
    rw [byRun_listed, mem_runRows] at ha hb
    exact ha.2.trans hb.2.symm
  · exact ⟨rfl, rfl, rfl, fun _ => Option.Rel.none⟩
  · rw [List.forall₂_map_left_iff, List.forall₂_map_right_iff, List.forall₂_same]
    intro key _
    rw [byRun_listed, byRun_listed]
    exact h.filter _

/-- Retained evidence is evidence supplied, in capture order. -/
def Retains (outcomes : List CIOutcome) (s : RunLedger) : Prop :=
  ∀ commit items, s.outcomesByCommit.get? commit = some items →
    (∀ item ∈ items, item ∈ outcomes) ∧
      items.Pairwise (fun a b => outcomeOrder a ≤ outcomeOrder b)

theorem retains_resolveRun (hs : Retains outcomes s) (hr : ∀ item ∈ rows, item ∈ outcomes) :
    Retains outcomes (resolveRun policy keys s rows) := by
  intro commit items hg
  simp only [resolveRun] at hg
  cases hv : runVerdict policy keys rows with
  | none =>
    rw [hv] at hg
    exact hs commit items hg
  | some v =>
    rw [hv] at hg
    simp only [Dict.get?_alter] at hg
    split at hg
    · cases hg
      refine ⟨?_, sortedBy_pairwise _ _⟩
      intro item hi
      rw [mem_sortedBy, List.mem_append] at hi
      rcases hi with hi | hi
      · cases hk : s.outcomesByCommit.get? v.1 with
        | none => rw [hk] at hi; simp at hi
        | some known => rw [hk] at hi; exact (hs v.1 known hk).1 item hi
      · exact hr item hi
    · exact hs commit items hg

theorem retains_runLedger (indexed : CIOutcomeIndexResult) (outcomes : List CIOutcome) :
    Retains outcomes (runLedger policy indexed outcomes) := by
  have hrun : ∀ (runs : List (List CIOutcome)) (s : RunLedger), Retains outcomes s →
      (∀ rows ∈ runs, ∀ item ∈ rows, item ∈ outcomes) →
      Retains outcomes (runs.foldl (resolveRun policy (keysBySource indexed)) s) := by
    intro runs
    induction runs with
    | nil => exact fun s hs _ => hs
    | cons rows runs ih =>
      intro s hs hm
      exact ih _ (retains_resolveRun hs (hm rows (by simp)))
        (fun r hr => hm r (List.mem_cons_of_mem _ hr))
  refine hrun _ {} (fun commit items hg => by simp at hg) ?_
  intro rows hm item hi
  obtain ⟨key, -, rfl⟩ := List.mem_map.mp hm
  rw [byRun_listed] at hi
  exact (mem_runRows.mp hi).1

/-- The workflow resolutions of each commit are those of the runs resolved to it. -/
theorem byCommit_runLedger (indexed : CIOutcomeIndexResult) (outcomes : List CIOutcome) :
    (runLedger policy indexed outcomes).byCommit = Dict.empty.gather
      ((completeRuns indexed outcomes).filterMap (fun key =>
        runVerdict policy (keysBySource indexed) (runRows outcomes key))) := by
  have hrun : ∀ (runs : List (List CIOutcome)) (s : RunLedger),
      (runs.foldl (resolveRun policy (keysBySource indexed)) s).byCommit =
        s.byCommit.gather (runs.filterMap (runVerdict policy (keysBySource indexed))) := by
    intro runs
    induction runs with
    | nil => exact fun s => rfl
    | cons rows runs ih =>
      intro s
      rw [List.foldl_cons, ih, resolveRun]
      cases hv : runVerdict policy (keysBySource indexed) rows with
      | none => rw [List.filterMap_cons_none hv]
      | some v => rw [List.filterMap_cons_some hv]; rfl
  rw [runLedger, hrun, List.filterMap_map]
  congr 1
  apply List.filterMap_congr
  intro key _
  rw [Function.comp_apply, byRun_listed]

end Sediment.Proofs.CiLedger
