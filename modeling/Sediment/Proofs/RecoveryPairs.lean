import Sediment.Base.Spans
import Sediment.Derive.Recovery
import Sediment.Proofs.CiResolution

namespace Sediment.Proofs.RecoveryPairs
open Sediment.Base Sediment.Core Sediment.Derive Sediment.Derive.Recovery
open Sediment.Base.Spans (Mark Closes spans visit)
open Sediment.Proofs.CiResolution Sediment.Proofs.CiLedger Sediment.Proofs.CiAttachment
open Sediment.Proofs.RepositoryIdentity

/-- A failed outcome waits, a passed one is its fix, and no other is a boundary. -/
def mark (o : CIOutcome) : Mark :=
  match o.result with
  | .failed => .opens
  | .passed => .closes
  | _ => .passes

/-- The candidate transitions of one lineage. -/
def transitions (outcomes : List CIOutcome) : List (CIOutcome × CIOutcome) :=
  spans mark none (sortedBy outcomeOrder outcomes)

def endIds (t : CIOutcome × CIOutcome) : List String := [t.1.outcomeId, t.2.outcomeId]

def pairIds (pair : RecoverySample) : List String := [pair.failedOutcomeId, pair.fixedOutcomeId]

section
variable {scope : PairScope} {outcomes outcomes' : List CIOutcome}

theorem pairStep_visit (last : Option CIOutcome) (result : RecoveryResult) (o : CIOutcome) :
    pairStep scope ⟨last, result⟩ o =
      ⟨(visit mark (evaluatePair scope) (last, result) o).1,
        (visit mark (evaluatePair scope) (last, result) o).2⟩ := by
  unfold pairStep visit mark
  cases o.result <;> cases last <;> rfl

theorem foldl_pairStep (last : Option CIOutcome) (result : RecoveryResult)
    (ordered : List CIOutcome) :
    (ordered.foldl (pairStep scope) ⟨last, result⟩).result =
      (spans mark last ordered).foldl (fun r t => evaluatePair scope r t.1 t.2) result := by
  have hvisit : ∀ (ordered : List CIOutcome) (last : Option CIOutcome) (result : RecoveryResult),
      (ordered.foldl (pairStep scope) ⟨last, result⟩).result =
        (ordered.foldl (visit mark (evaluatePair scope)) (last, result)).2 := by
    intro ordered
    induction ordered with
    | nil => intro last result; rfl
    | cons o rest ih =>
      intro last result
      rw [List.foldl_cons, List.foldl_cons, pairStep_visit, ih]
  rw [hvisit, Spans.foldl_visit]

theorem foldl_countStep (last : Option CIOutcome) (n : Nat) (ordered : List CIOutcome) :
    (ordered.foldl countStep (n, last.isSome)).1 = n + (spans mark last ordered).length := by
  induction ordered generalizing last n with
  | nil => rfl
  | cons o rest ih =>
    rw [List.foldl_cons, spans]
    cases hr : o.result with
    | failed =>
      have hstep : countStep (n, last.isSome) o = (n, (some o).isSome) := by simp [countStep, hr]
      simp only [hstep, ih, mark, hr]
    | passed =>
      cases last with
      | none =>
        have hstep : countStep (n, (none : Option CIOutcome).isSome) o =
            (n, (none : Option CIOutcome).isSome) := by simp [countStep, hr]
        simp only [hstep, ih, mark, hr]
        rfl
      | some failed =>
        have hstep : countStep (n, (some failed).isSome) o =
            (n + 1, (none : Option CIOutcome).isSome) := by simp [countStep, hr]
        simp only [hstep, ih, mark, hr, Option.map_some, Option.toList_some, List.length_append,
          List.length_singleton]
        omega
    | _ =>
      have hstep : countStep (n, last.isSome) o = (n, last.isSome) := by simp [countStep, hr]
      simp only [hstep, ih, mark, hr]

theorem candidateTransitionCount_transitions (outcomes : List CIOutcome) :
    candidateTransitionCount (sortedBy outcomeOrder outcomes) = (transitions outcomes).length := by
  have h := foldl_countStep none 0 (sortedBy outcomeOrder outcomes)
  rw [Nat.zero_add] at h
  exact h

/-- Every outcome of a lineage stands in one transition at most. -/
theorem transitions_once (outcomes : List CIOutcome) :
    ((transitions outcomes).flatMap (fun t => [t.1, t.2])).Sublist
      (sortedBy outcomeOrder outcomes) :=
  Spans.spans_sublist mark none _

theorem mem_of_mem_transitions {t : CIOutcome × CIOutcome} (h : t ∈ transitions outcomes) :
    t.1 ∈ outcomes ∧ t.2 ∈ outcomes := by
  have hmem : ∀ o ∈ [t.1, t.2], o ∈ outcomes := by
    intro o ho
    exact mem_sortedBy.mp
      ((transitions_once outcomes).subset (List.mem_flatMap.mpr ⟨t, h, ho⟩))
  exact ⟨hmem _ (by simp), hmem _ (by simp)⟩

theorem flatMap_endIds (ts : List (CIOutcome × CIOutcome)) :
    ts.flatMap endIds = (ts.flatMap (fun t => [t.1, t.2])).map CIOutcome.outcomeId := by
  rw [List.map_flatMap]
  rfl

theorem transitions_ids_nodup (hn : (outcomes.map CIOutcome.outcomeId).Nodup) :
    ((transitions outcomes).flatMap endIds).Nodup := by
  rw [flatMap_endIds]
  have hsorted : ((sortedBy outcomeOrder outcomes).map CIOutcome.outcomeId).Nodup :=
    ((sortedBy_perm outcomeOrder outcomes).map _).nodup_iff.mpr hn
  exact hsorted.sublist ((transitions_once outcomes).map _)

theorem tryPair_ids {failed fixed : CIOutcome} {sample : RecoverySample}
    {reason : Option RecoverySkipReason} {n : Option Nat}
    (h : tryPair scope failed fixed = (some sample, reason, n)) :
    pairIds sample = endIds (failed, fixed) := by
  unfold tryPair at h
  split at h
  · cases h
  · split at h
    · cases h
    · cases h
    · split at h
      · cases h
      · dsimp only at h
        split at h
        · cases h
        · cases h
          rfl

/-- A candidate gives its sample or none. -/
theorem evaluatePair_pairs (scope : PairScope) (result : RecoveryResult)
    (failed fixed : CIOutcome) : ∃ new, (evaluatePair scope result failed fixed).pairs =
      result.pairs ++ new ∧ (new.map pairIds).Sublist [endIds (failed, fixed)] := by
  unfold evaluatePair
  split
  · rename_i sample reason n h
    refine ⟨_, rfl, ?_⟩
    rw [List.map_singleton, ← tryPair_ids h]
    exact List.Sublist.refl _
  · exact ⟨[], (List.append_nil _).symm, List.nil_sublist _⟩
  · exact ⟨[], (List.append_nil _).symm, List.nil_sublist _⟩

theorem foldl_evaluatePair (ts : List (CIOutcome × CIOutcome)) (result : RecoveryResult) :
    ∃ new, (ts.foldl (fun r t => evaluatePair scope r t.1 t.2) result).pairs =
      result.pairs ++ new ∧ (new.map pairIds).Sublist (ts.map endIds) := by
  induction ts generalizing result with
  | nil => exact ⟨[], (List.append_nil _).symm, List.nil_sublist _⟩
  | cons t ts ih =>
    obtain ⟨first, hfirst, hsub⟩ := evaluatePair_pairs scope result t.1 t.2
    obtain ⟨new, hnew, hrest⟩ := ih (evaluatePair scope result t.1 t.2)
    refine ⟨first ++ new, ?_, ?_⟩
    · rw [List.foldl_cons, hnew, hfirst, List.append_assoc]
    · rw [List.map_append, List.map_cons]
      exact hsub.append hrest

end

/-- Each outcome has an ID of its own, as the stored primary key gives it. -/
def UniqueIds (outcomes : List CIOutcome) : Prop := (outcomes.map CIOutcome.outcomeId).Nodup

theorem UniqueIds.eq {outcomes : List CIOutcome} (h : UniqueIds outcomes) {a b : CIOutcome}
    (ha : a ∈ outcomes) (hb : b ∈ outcomes) (hid : a.outcomeId = b.outcomeId) : a = b :=
  List.inj_on_of_nodup_map h ha hb hid

section
variable {policy : CIResolutionPolicy} {indexed : CIOutcomeIndexResult}
  {outcomes : List CIOutcome} {commit : CommitKey} {w : CIWorkflowResolution}

/-- The verdict of a run is that of one of its sources. -/
theorem resolveWorkflow_source (identity : RunIdentity) (first : CIOutcome)
    (rows : List CIOutcome) : ∀ id ∈ (resolveWorkflow policy identity first rows).verdictOutcomeId,
      id ∈ (resolveWorkflow policy identity first rows).sourceOutcomeIds := by
  intro id hid
  obtain ⟨last, hlast, rfl⟩ := Option.map_eq_some_iff.mp hid
  have hmem := List.mem_of_getLast? hlast
  rw [List.mem_filter, mem_sortedBy] at hmem
  exact mem_sortedBy.mpr (List.mem_map_of_mem hmem.1)

theorem byCommit_source (hw : w ∈ (runLedger policy indexed outcomes).byCommit.listed commit) :
    ∀ id ∈ w.verdictOutcomeId, id ∈ w.sourceOutcomeIds := by
  rw [byCommit_runLedger, ← Dict.mem_unroll, Dict.mem_unroll_gather, List.mem_filterMap] at hw
  obtain ⟨key, -, hv⟩ := hw
  obtain ⟨identity, first, -, -, -, rfl⟩ := runVerdict_some hv
  exact resolveWorkflow_source identity first _

theorem runRows_ids_disjoint (hn : UniqueIds outcomes) {key key' : List String} (hne : key ≠ key') :
    ((runRows outcomes key).map CIOutcome.outcomeId).Disjoint
      ((runRows outcomes key').map CIOutcome.outcomeId) := by
  intro id hid hid'
  obtain ⟨o, ho, rfl⟩ := List.mem_map.mp hid
  obtain ⟨o', ho', heq⟩ := List.mem_map.mp hid'
  obtain ⟨hm, hkey⟩ := mem_runRows.mp ho
  obtain ⟨hm', hkey'⟩ := mem_runRows.mp ho'
  apply hne
  rw [← hkey, ← hkey', hn.eq hm' hm heq]

/-- The runs behind one resolution share no source. -/
theorem resolution_sources_nodup [Interpreter] {context : Option RepositoryContext}
    {provenance : Provenance} {r : CIResolution} (hn : UniqueIds outcomes)
    (hr : commitResolution context provenance commit
      ((runLedger policy indexed outcomes).byCommit.listed commit) = .ok r) :
    (r.workflowResolutions.flatMap CIWorkflowResolution.sourceOutcomeIds).Nodup := by
  obtain ⟨runs, hruns, hall⟩ := resolution_runs hr
  rw [List.nodup_flatMap]
  constructor
  · intro w hw
    obtain ⟨i, hi, rfl⟩ := List.getElem_of_mem hw
    have hsources := (hall.get (hall.length_eq ▸ hi) hi).sources
    rw [List.get_eq_getElem] at hsources
    rw [hsources, (sortedBy_perm id _).nodup_iff]
    exact hn.sublist (List.filter_sublist.map _)
  · apply pairwise_of_forall₂ hall hruns
    intro key key' w w' hne hw hw'
    have hrows := runRows_ids_disjoint hn hne
    intro id hid hid'
    rw [hw.sources, mem_sortedBy] at hid
    rw [hw'.sources, mem_sortedBy] at hid'
    exact hrows hid hid'

end

/-- Values read from pieces that share nothing are told apart. -/
theorem nodup_filterMap_of_flatMap {α β : Type} {f : α → Option β} {g : α → List β}
    {xs : List α} (hf : ∀ x ∈ xs, ∀ b ∈ f x, b ∈ g x) (hn : (xs.flatMap g).Nodup) :
    (xs.filterMap f).Nodup := by
  obtain ⟨-, hpairs⟩ := List.nodup_flatMap.mp hn
  rw [List.nodup_iff_pairwise_ne, List.pairwise_filterMap]
  refine hpairs.imp_of_mem ?_
  intro x y hx hy hdisjoint b hb c hc heq
  exact hdisjoint (hf x hx b hb) (heq ▸ hf y hy c hc)

section
variable [Interpreter] {policy : CIResolutionPolicy} {digest : CIResolutionPolicy → String}
  {quarantineRevision : Nat} {outcomes : List CIOutcome} {context : RepositoryContext}
  {ci : CIResolutionResult}

/-- Of all workflow resolutions of a context, no two have one verdict outcome. -/
theorem verdict_ids_nodup (hn : UniqueIds (outcomes.filter (inContext context)))
    (h : deriveCiResolutionResult outcomes policy digest quarantineRevision (some context) =
      .ok ci) :
    ((ci.resolutions.flatMap CIResolution.workflowResolutions).filterMap
      CIWorkflowResolution.verdictOutcomeId).Nodup := by
  obtain ⟨indexed, hi, hres, -⟩ := derive_ok h
  have hall := forall₂_of_mapM_ok hres
  have hmem : ∀ r ∈ ci.resolutions, ∃ commit, commitResolution (some context)
      ⟨policy.policyVersion, quarantineRevision, digest policy⟩ commit ((runLedger policy indexed
        (outcomes.filter (inContext context))).byCommit.listed commit) = .ok r := by
    intro r hr
    obtain ⟨commit, -, hc⟩ := (mem_of_mapM_ok hres r).mp hr
    exact ⟨commit, hc⟩
  refine nodup_filterMap_of_flatMap (g := CIWorkflowResolution.sourceOutcomeIds) ?_ ?_
  · intro w hw
    obtain ⟨r, hr, hw⟩ := List.mem_flatMap.mp hw
    obtain ⟨commit, hc⟩ := hmem r hr
    obtain ⟨-, -, hworkflows, -⟩ := commitResolution_ok hc
    rw [hworkflows, mem_sortedBy] at hw
    exact byCommit_source hw
  · rw [List.flatMap_assoc, List.nodup_flatMap]
    constructor
    · intro r hr
      obtain ⟨commit, hc⟩ := hmem r hr
      exact resolution_sources_nodup hn hc
    · have hcommits : (sortedBy commitSortKey (runLedger policy indexed
          (outcomes.filter (inContext context))).byCommit.keys).Nodup :=
        (sortedBy_perm _ _).nodup_iff.mpr (Dict.nodup_keys _)
      refine pairwise_of_forall₂ hall hcommits ?_
      intro commit commit' r r' hne hr hr' id hid hid'
      have hid : id ∈ r.sourceOutcomeIds := by
        rw [(commitResolution_ok hr).2.2.2.2, mem_sortedBy]
        exact hid
      have hid' : id ∈ r'.sourceOutcomeIds := by
        rw [(commitResolution_ok hr').2.2.2.2, mem_sortedBy]
        exact hid'
      have h := evidence_source hi hr hid
      have h' := evidence_source hi hr' hid'
      exact hne ((h' commit).mp ((h commit).mpr rfl))

end

section
variable {outcomes : List CIOutcome}

theorem transitions_perm {outcomes' : List CIOutcome} (hn : UniqueIds outcomes)
    (hp : outcomes.Perm outcomes') : transitions outcomes' = transitions outcomes := by
  have hsorted : sortedBy outcomeOrder outcomes = sortedBy outcomeOrder outcomes' := by
    apply sortedBy_congr hp
    intro a ha b hb hkey
    have hid : a.outcomeId = b.outcomeId := congrArg (fun k => (ofLex k).2) hkey
    exact hn.eq ha hb hid
  unfold transitions
  rw [hsorted]

theorem outcomeById_pairs (outcomes : List CIOutcome) :
    outcomeById outcomes = (outcomes.map (fun o => (o.outcomeId, o))).foldl
      (fun d p => d.set p.1 p.2) Dict.empty := by
  rw [List.foldl_map]
  rfl

theorem get?_outcomeById {id : String} {o : CIOutcome}
    (h : (outcomeById outcomes).get? id = some o) : o ∈ outcomes ∧ o.outcomeId = id := by
  rw [outcomeById_pairs, ← Dict.mem_entries_iff] at h
  rcases Dict.mem_entries_foldl_set h with hempty | hpair
  · cases hempty
  · obtain ⟨o', ho, heq⟩ := List.mem_map.mp hpair
    cases heq
    exact ⟨ho, rfl⟩

theorem get?_outcomeById_mem (hn : UniqueIds outcomes) {o : CIOutcome} (ho : o ∈ outcomes) :
    (outcomeById outcomes).get? o.outcomeId = some o := by
  rw [outcomeById_pairs, ← Dict.mem_entries_iff, Dict.entries_foldl_set]
  · exact List.mem_append_right _ (List.mem_map.mpr ⟨o, ho, rfl⟩)
  · rw [List.map_map]
    exact hn
  · intro p _ hp
    cases hp

/-- Whatever order the outcomes come in, an ID finds the same one. -/
theorem outcomeById_perm {outcomes' : List CIOutcome} (hn : UniqueIds outcomes)
    (hp : outcomes.Perm outcomes') : (outcomeById outcomes).Same (outcomeById outcomes') := by
  intro id
  have hn' : UniqueIds outcomes' := (hp.map _).nodup_iff.mp hn
  apply Option.ext
  intro o
  constructor
  · intro h
    obtain ⟨ho, rfl⟩ := get?_outcomeById h
    exact get?_outcomeById_mem hn' (hp.mem_iff.mp ho)
  · intro h
    obtain ⟨ho, rfl⟩ := get?_outcomeById h
    exact get?_outcomeById_mem hn (hp.mem_iff.mpr ho)

/-- The lists of a grouping hold each ID in `ids` once at most, and no other. -/
structure Grouped (ids : List String) (d : Dict LineageKey (List CIOutcome)) : Prop where
  known : ∀ key, ∀ o ∈ d.listed key, o.outcomeId ∈ ids
  once : ∀ key, UniqueIds (d.listed key)
  apart : ∀ key key', key ≠ key' → ∀ o ∈ d.listed key, ∀ o' ∈ d.listed key',
    o.outcomeId ≠ o'.outcomeId

theorem Grouped.widen {ids ids' : List String} {d : Dict LineageKey (List CIOutcome)}
    (h : Grouped ids d) (hsub : ids ⊆ ids') : Grouped ids' d :=
  ⟨fun key o ho => hsub (h.known key o ho), h.once, h.apart⟩

theorem mem_listed_push {d : Dict LineageKey (List CIOutcome)} {key k : LineageKey}
    {o p : CIOutcome} :
    p ∈ (d.push key o).listed k ↔ p ∈ d.listed k ∨ k = key ∧ p = o := by
  rw [Dict.listed_push]
  split
  · rename_i hk
    subst hk
    simp
  · rename_i hk
    simp [hk]

theorem Grouped.push {ids : List String} {d : Dict LineageKey (List CIOutcome)}
    (h : Grouped ids d) {o : CIOutcome} (hnew : o.outcomeId ∉ ids) (key : LineageKey) :
    Grouped (ids ++ [o.outcomeId]) (d.push key o) := by
  have hfresh : ∀ k, ∀ p ∈ d.listed k, p.outcomeId ≠ o.outcomeId := by
    intro k p hp heq
    exact hnew (heq ▸ h.known k p hp)
  refine ⟨?_, ?_, ?_⟩
  · intro k p hp
    rcases mem_listed_push.mp hp with hp | ⟨-, heq⟩
    · exact List.mem_append_left _ (h.known k p hp)
    · exact List.mem_append_right _ (List.mem_singleton.mpr (congrArg _ heq))
  · intro k
    rw [Dict.listed_push]
    split
    · unfold UniqueIds
      rw [List.map_append, List.map_singleton, List.nodup_append]
      refine ⟨h.once key, List.nodup_singleton _, ?_⟩
      intro id hid id' hid' heq
      obtain ⟨p, hp, rfl⟩ := List.mem_map.mp hid
      exact hfresh key p hp (heq.trans (List.mem_singleton.mp hid'))
    · exact h.once k
  · intro k k' hne p hp p' hp'
    rcases mem_listed_push.mp hp with hp | ⟨hk, heq⟩
    · rcases mem_listed_push.mp hp' with hp' | ⟨-, heq'⟩
      · exact h.apart k k' hne p hp p' hp'
      · rw [heq']
        exact hfresh k p hp
    · rcases mem_listed_push.mp hp' with hp' | ⟨hk', -⟩
      · rw [heq]
        exact (hfresh k' p' hp').symm
      · exact absurd (hk.trans hk'.symm) hne

end

section
variable [Interpreter] {outcomes : List CIOutcome} {context : RepositoryContext}
  {byId : Dict String CIOutcome} {s s' : Lineages}

theorem lineages_same {byId' : Dict String CIOutcome} (h : byId.Same byId')
    (resolutions : List CIResolution) (s : Lineages) :
    lineages byId context resolutions s = lineages byId' context resolutions s := by
  have hstep : addWorkflow byId context = addWorkflow byId' context := by
    funext s w
    unfold addWorkflow
    simp only [h _]
  unfold lineages
  rw [hstep]

/-- A workflow joins the lineages with its verdict outcome or not at all. -/
theorem addWorkflow_cases {w : CIWorkflowResolution}
    (h : addWorkflow byId context s w = .ok s') : s'.byLineage = s.byLineage ∨
      ∃ key id o, w.verdictOutcomeId = some id ∧ byId.get? id = some o ∧
        s'.byLineage = s.byLineage.push key o := by
  unfold addWorkflow at h
  split at h
  · cases h
    exact Or.inl rfl
  · split at h
    · cases h
      exact Or.inl rfl
    · split at h
      · cases h
        exact Or.inl rfl
      · rename_i id hid
        split at h
        · cases h
        · rename_i o ho
          split at h
          · cases h
            exact Or.inl rfl
          · split at h
            · cases h
            · cases h
              exact Or.inr ⟨_, id, o, hid, ho, rfl⟩

theorem lineages_mem {resolutions : List CIResolution} (hs : s.byLineage = Dict.empty)
    (h : lineages (outcomeById outcomes) context resolutions s = .ok s') :
    ∀ key, ∀ o ∈ s'.byLineage.listed key, o ∈ outcomes := by
  refine foldlM_induct (fun _ s => ∀ key, ∀ o ∈ s.byLineage.listed key, o ∈ outcomes) ?_ ?_ h
  · intro key o ho
    rw [hs] at ho
    cases ho
  · intro seen w st st' hm hw key o ho
    rcases addWorkflow_cases hw with heq | ⟨key', id, p, -, hp, heq⟩
    · rw [heq] at ho
      exact hm key o ho
    · rw [heq] at ho
      rcases mem_listed_push.mp ho with ho | ⟨-, rfl⟩
      · exact hm key o ho
      · exact (get?_outcomeById hp).1

/-- No verdict outcome is in two lineages, or twice in one. -/
theorem lineages_grouped {resolutions : List CIResolution} (hs : s.byLineage = Dict.empty)
    (hn : ((resolutions.flatMap CIResolution.workflowResolutions).filterMap
      CIWorkflowResolution.verdictOutcomeId).Nodup)
    (h : lineages (outcomeById outcomes) context resolutions s = .ok s') :
    ∃ ids, Grouped ids s'.byLineage := by
  have hverdicts : (((resolutions.filter (fun r => r.verdict.isSome)).flatMap
      CIResolution.workflowResolutions).filterMap
        CIWorkflowResolution.verdictOutcomeId).Nodup := by
    refine hn.sublist (List.Sublist.filterMap _ ?_)
    rw [List.flatMap_def, List.flatMap_def]
    exact (List.filter_sublist.map _).flatten
  refine ⟨_, foldlM_induct (fun seen s =>
    (seen.filterMap CIWorkflowResolution.verdictOutcomeId).Nodup →
      Grouped (seen.filterMap CIWorkflowResolution.verdictOutcomeId) s.byLineage)
    ?_ ?_ h hverdicts⟩
  · intro _
    rw [hs]
    refine ⟨?_, fun _ => List.nodup_nil, ?_⟩
    · intro key o ho
      cases ho
    · intro key key' _ o ho
      cases ho
  · intro seen w st st' hm hw hseen
    rw [List.filterMap_append] at hseen ⊢
    have hgrouped := hm (hseen.sublist (List.sublist_append_left _ _))
    rcases addWorkflow_cases hw with heq | ⟨key, id, o, hid, ho, heq⟩
    · rw [heq]
      exact hgrouped.widen (List.subset_append_left _ _)
    · have hlast : [w].filterMap CIWorkflowResolution.verdictOutcomeId = [o.outcomeId] := by
        rw [List.filterMap_cons, hid, (get?_outcomeById ho).2]
        rfl
      rw [hlast] at hseen ⊢
      rw [heq]
      apply hgrouped.push
      intro hin
      exact (List.nodup_append.mp hseen).2.2 _ hin _ (List.mem_singleton.mpr rfl) rfl

end

/-- Every transition of a grouping, lineage after lineage. -/
def lineageTransitions (d : Dict LineageKey (List CIOutcome)) : List (CIOutcome × CIOutcome) :=
  (sortedBy LineageKey.sortKey d.keys).flatMap (fun key => transitions (d.listed key))

theorem lineageTransitions_nodup {ids : List String} {d : Dict LineageKey (List CIOutcome)}
    (h : Grouped ids d) : ((lineageTransitions d).flatMap endIds).Nodup := by
  unfold lineageTransitions
  rw [List.flatMap_assoc, List.nodup_flatMap]
  constructor
  · intro key _
    exact transitions_ids_nodup (h.once key)
  · have hkeys : (sortedBy LineageKey.sortKey d.keys).Nodup :=
      (sortedBy_perm _ _).nodup_iff.mpr (Dict.nodup_keys d)
    refine hkeys.imp ?_
    intro key key' hne id hid hid'
    have hmem : ∀ k, id ∈ (transitions (d.listed k)).flatMap endIds →
        ∃ o ∈ d.listed k, o.outcomeId = id := by
      intro k hk
      rw [flatMap_endIds] at hk
      obtain ⟨o, ho, heq⟩ := List.mem_map.mp hk
      exact ⟨o, mem_sortedBy.mp ((transitions_once _).subset ho), heq⟩
    obtain ⟨o, ho, heq⟩ := hmem key hid
    obtain ⟨o', ho', heq'⟩ := hmem key' hid'
    exact h.apart key key' hne o ho o' ho' (heq.trans heq'.symm)

section
variable [Interpreter] {population population' : List CIOutcome} {context : RepositoryContext}
  {policy : RecoveryPolicy} {digest : CIResolutionPolicy → String} {policyDigest : String}
  {quarantineRevision : Nat} {sources : RecoverySources} {result : RecoveryResult}

theorem pairLineage_pairs {provenance : Provenance} {d : Dict LineageKey (List CIOutcome)}
    {start next : RecoveryResult} {key : LineageKey}
    (h : pairLineage context policy provenance sources d start key = .ok next) :
    ∃ new, next.pairs = start.pairs ++ new ∧
      (new.map pairIds).Sublist ((transitions (d.listed key)).map endIds) := by
  unfold pairLineage at h
  split at h
  · cases h
  · dsimp only at h
    split at h
    · cases h
      exact ⟨[], (List.append_nil _).symm, List.nil_sublist _⟩
    · cases h
      rw [foldl_pairStep]
      exact foldl_evaluatePair _ _

/-- The grouping that the derivation pairs. -/
structure Filed (population : List CIOutcome) (context : RepositoryContext)
    (policy : RecoveryPolicy) (digest : CIResolutionPolicy → String) (quarantineRevision : Nat)
    (d : Dict LineageKey (List CIOutcome)) : Prop where
  found : ∃ ci start s, deriveCiResolutionResult (population.filter (inContext context))
      policy.ciResolution digest quarantineRevision (some context) = .ok ci ∧
    start.byLineage = Dict.empty ∧
    lineages (outcomeById (population.filter (inContext context))) context ci.resolutions start =
      .ok s ∧ s.byLineage = d

theorem Filed.mem {d : Dict LineageKey (List CIOutcome)}
    (h : Filed population context policy digest quarantineRevision d) {key : LineageKey}
    {o : CIOutcome} (ho : o ∈ d.listed key) : o ∈ population.filter (inContext context) := by
  obtain ⟨ci, start, s, -, hempty, hs, rfl⟩ := h.found
  exact lineages_mem hempty hs key o ho

theorem Filed.grouped {d : Dict LineageKey (List CIOutcome)}
    (h : Filed population context policy digest quarantineRevision d)
    (hn : UniqueIds (population.filter (inContext context))) : ∃ ids, Grouped ids d := by
  obtain ⟨ci, start, s, hci, hempty, hs, rfl⟩ := h.found
  have hunique : UniqueIds ((population.filter (inContext context)).filter (inContext context)) :=
    hn.sublist (List.filter_sublist.map _)
  exact lineages_grouped hempty (verdict_ids_nodup hunique hci) hs

/-- The pairs of a derivation are transitions of its lineages, in their order. -/
theorem derive_pairs (h : deriveRecoveryResult population context policy digest policyDigest
      quarantineRevision sources = .ok result) :
    result.pairs = [] ∨ ∃ d, Filed population context policy digest quarantineRevision d ∧
      (result.pairs.map pairIds).Sublist ((lineageTransitions d).map endIds) := by
  unfold deriveRecoveryResult at h
  dsimp only at h
  split at h
  · cases h
    exact Or.inl rfl
  · rw [bind_ok] at h
    obtain ⟨ci, hci, h⟩ := h
    rw [bind_ok] at h
    obtain ⟨s, hs, h⟩ := h
    refine Or.inr ⟨s.byLineage, ⟨ci, _, s, mapError_ok.mp hci, ?_, hs, rfl⟩, ?_⟩
    · rfl
    · unfold lineageTransitions
      refine foldlM_induct (fun seen r => (r.pairs.map pairIds).Sublist
        ((seen.flatMap (fun key => transitions (s.byLineage.listed key))).map endIds)) ?_ ?_ h
      · exact List.nil_sublist _
      · intro seen key r r' hsub hr
        obtain ⟨new, hnew, hpairs⟩ := pairLineage_pairs hr
        rw [hnew, List.map_append, List.flatMap_append, List.map_append]
        refine hsub.append ?_
        rw [List.flatMap_singleton]
        exact hpairs

theorem derive_recovery_perm (hn : UniqueIds (population.filter (inContext context)))
    (hp : population.Perm population') :
    Agree Eq (deriveRecoveryResult population context policy digest policyDigest
        quarantineRevision sources)
      (deriveRecoveryResult population' context policy digest policyDigest quarantineRevision
        sources) := by
  have hfilter := hp.filter (inContext context)
  unfold deriveRecoveryResult
  dsimp only
  by_cases hnil : population.filter (inContext context) = []
  · have hnil' : population'.filter (inContext context) = [] :=
      (hnil ▸ hfilter).nil_eq.symm
    rw [if_pos hnil, if_pos hnil']
    exact Agree.refl (fun _ => rfl) _
  · have hnil' : population'.filter (inContext context) ≠ [] := by
      intro h
      exact hnil (h ▸ hfilter).eq_nil
    rw [if_neg hnil, if_neg hnil']
    refine ((derive_perm policy.ciResolution digest quarantineRevision (some context)
      hfilter).mapError _).bind ?_
    intro ci ci' hci
    rw [hci.resolutions, hci.skipped, lineages_same (outcomeById_perm hn hfilter)]
    exact Agree.refl (fun _ => rfl) _

/-- A pair is a passed outcome with the last failed one before it in its lineage, and
no other verdict between them. No outcome is in two pairs, in whatever order the outcomes
come, and the count of candidates is the number of pairs the loop tries. -/
theorem recovery_pairs_well_formed (outcomes : List CIOutcome) (context : RepositoryContext)
    (policy : RecoveryPolicy) (digest : CIResolutionPolicy → String) (policyDigest : String)
    (quarantineRevision : Nat) (sources : RecoverySources) :
    ((∀ scope result, ((sortedBy outcomeOrder outcomes).foldl (pairStep scope) { result }).result =
        (transitions outcomes).foldl (fun r t => evaluatePair scope r t.1 t.2) result) ∧
      candidateTransitionCount (sortedBy outcomeOrder outcomes) = (transitions outcomes).length ∧
      ((transitions outcomes).flatMap (fun t => [t.1, t.2])).Sublist
        (sortedBy outcomeOrder outcomes) ∧
      (∀ failed fixed, (failed, fixed) ∈ transitions outcomes ↔
        Closes mark (sortedBy outcomeOrder outcomes) failed fixed) ∧
      (UniqueIds outcomes → ∀ outcomes', outcomes.Perm outcomes' →
        transitions outcomes' = transitions outcomes)) ∧
    (∀ result, deriveRecoveryResult outcomes context policy digest policyDigest quarantineRevision
        sources = .ok result →
      (∀ pair ∈ result.pairs, ∃ d key failed fixed,
        Filed outcomes context policy digest quarantineRevision d ∧
        Closes mark (sortedBy outcomeOrder (d.listed key)) failed fixed ∧
        failed ∈ outcomes ∧ fixed ∈ outcomes ∧ pairIds pair = endIds (failed, fixed)) ∧
      (UniqueIds (outcomes.filter (inContext context)) →
        (result.pairs.flatMap pairIds).Nodup)) ∧
    (UniqueIds (outcomes.filter (inContext context)) → ∀ outcomes', outcomes.Perm outcomes' →
      Agree Eq (deriveRecoveryResult outcomes context policy digest policyDigest
          quarantineRevision sources)
        (deriveRecoveryResult outcomes' context policy digest policyDigest quarantineRevision
          sources)) := by
  refine ⟨⟨?_, candidateTransitionCount_transitions outcomes, transitions_once outcomes, ?_, ?_⟩,
    ?_, ?_⟩
  · intro scope result
    exact foldl_pairStep none result _
  · intro failed fixed
    exact Spans.mem_spans
  · intro hn outcomes' hp
    exact transitions_perm hn hp
  · intro result h
    rcases derive_pairs h with hnil | ⟨d, hfiled, hsub⟩
    · rw [hnil]
      exact ⟨List.forall_mem_nil _, fun _ => List.nodup_nil⟩
    · constructor
      · intro pair hpair
        obtain ⟨t, ht, heq⟩ := List.mem_map.mp (hsub.subset (List.mem_map_of_mem hpair))
        obtain ⟨key, -, ht⟩ := List.mem_flatMap.mp ht
        obtain ⟨hfailed, hfixed⟩ := mem_of_mem_transitions ht
        exact ⟨d, key, t.1, t.2, hfiled, Spans.mem_spans.mp ht,
          List.mem_of_mem_filter (hfiled.mem hfailed), List.mem_of_mem_filter (hfiled.mem hfixed),
          heq.symm⟩
      · intro hn
        obtain ⟨ids, hgrouped⟩ := hfiled.grouped hn
        have hall := lineageTransitions_nodup hgrouped
        rw [List.flatMap_def] at hall ⊢
        exact hall.sublist hsub.flatten
  · intro hn outcomes' hp
    exact derive_recovery_perm hn hp

end

/-- A run of the check `test`. -/
def checkRun (outcomeId runId commitSha : String) (result : CIResult) : CIOutcome :=
  { attempt outcomeId 1 result "" with runId, commitSha, workflowId := some "test" }

def redRun : CIOutcome := checkRun "o1" "7" headSha .failed

/-- The run at the next commit. -/
def greenRun : CIOutcome := checkRun "o2" "8" "123456789abcdef0123456789abcdef012345678" .passed

/-- A mirror in which every commit follows from every other by the same diff. -/
def lineMirror : RepoMirror := ⟨fun _ _ => some true, fun _ _ => some "+".toList⟩

theorem red_to_green_paired : ∃ context result, @localContext lowerCase "acme"
      [greenRun, redRun] = .ok context ∧
    @deriveRecoveryResult lowerCase
      [greenRun, redRun] context {} (fun _ => "") ""
      0 ⟨fun _ => some lineMirror, fun _ => [], fun _ => 0⟩ = .ok result ∧
    result.pairs.map pairIds = [["o1", "o2"]] ∧ (result.pairs.flatMap pairIds).Nodup ∧
    Agree Eq (.ok result) (@deriveRecoveryResult lowerCase
      [redRun, greenRun] context {} (fun _ => "") ""
      0 ⟨fun _ => some lineMirror, fun _ => [], fun _ => 0⟩) := by
  obtain ⟨context, result, hcontext, hrun, hids, hunique⟩ : ∃ context result,
      @localContext lowerCase "acme"
        [greenRun, redRun] = .ok context ∧
      @deriveRecoveryResult lowerCase
        [greenRun, redRun] context {} (fun _ => "")
        "" 0 ⟨fun _ => some lineMirror, fun _ => [], fun _ => 0⟩ = .ok result ∧
      result.pairs.map pairIds = [["o1", "o2"]] ∧
      ([greenRun, redRun].filter
        (inContext context)).map CIOutcome.outcomeId = ["o2", "o1"] :=
    ⟨_, _, rfl, rfl, by decide +kernel, by decide +kernel⟩
  have hall := @recovery_pairs_well_formed lowerCase
    [greenRun, redRun] context {} (fun _ => "") ""
    0 ⟨fun _ => some lineMirror, fun _ => [], fun _ => 0⟩
  obtain ⟨-, hpairs, hperm⟩ := hall
  have hn : UniqueIds ([greenRun, redRun].filter
      (inContext context)) := by
    unfold UniqueIds
    rw [hunique]
    decide
  refine ⟨context, result, hcontext, hrun, hids, (hpairs result hrun).2 hn, ?_⟩
  rw [← hrun]
  exact hperm hn _ (List.Perm.swap _ _ _)

end Sediment.Proofs.RecoveryPairs
