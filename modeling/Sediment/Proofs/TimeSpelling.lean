import Sediment.Proofs.CiResolution
import Sediment.Export.Sft

namespace Sediment.Proofs.TimeSpelling
open Sediment.Base Sediment.Core Sediment.Derive Sediment.Export
open Sediment.Proofs.RepositoryScan Sediment.Proofs.RepositoryContext
open Sediment.Proofs.RepositoryOrder Sediment.Proofs.CiAttachment Sediment.Proofs.CiLedger

/-- A row whose capture time is spelled plainly. -/
def plain (row : RepositoryIdentityEvidence) : RepositoryIdentityEvidence :=
  { row with capturedAt := instantOf row.capturedAt }

variable {rows : List RepositoryIdentityEvidence}

theorem contradicted_plain (k : SourceKey) :
    Contradicted (rows.map plain) k ↔ Contradicted rows k := by
  simp only [Contradicted, List.mem_map, exists_exists_and_eq_and]
  exact Iff.rfl

theorem conflicts_plain :
    (EvidenceScan.run (rows.map plain)).conflicts = (EvidenceScan.run rows).conflicts := by
  ext k
  rw [mem_conflicts, mem_conflicts, contradicted_plain]

/-- The copy kept of a source is the one kept before, in its plain spelling. -/
theorem sound_plain (k : SourceKey) :
    (EvidenceScan.run (rows.map plain)).sound.get? k =
      ((EvidenceScan.run rows).sound.get? k).map plain := by
  cases hk : (EvidenceScan.run rows).sound.get? k with
  | some row =>
    obtain ⟨hn, rfl, hrep⟩ := sound_eq_some.mp hk
    obtain ⟨kept, hkept, hsig⟩ := sound_isSome
      (List.mem_map_of_mem hrep.1 : plain row ∈ rows.map plain) ((contradicted_plain _).not.mpr hn)
    obtain ⟨-, -, hmem, -⟩ := sound_eq_some.mp hkept
    obtain ⟨origin, -, rfl⟩ := List.mem_map.mp hmem
    have heq : plain origin = plain row := evidence_ext hsig rfl
    exact hkept.trans (congrArg some heq)
  | none =>
    cases hk' : (EvidenceScan.run (rows.map plain)).sound.get? k with
    | none => rfl
    | some kept =>
      obtain ⟨hn, hkey, hmem, -⟩ := sound_eq_some.mp hk'
      obtain ⟨origin, horigin, rfl⟩ := List.mem_map.mp hmem
      have hsource : sourceKey origin = k := hkey
      obtain ⟨row, hrow, -⟩ := sound_isSome horigin
        (hsource ▸ (contradicted_plain _).not.mp hn)
      rw [hsource, hk] at hrow
      cases hrow

/-- A proof of an identity, in the plain spelling. -/
def plainSource (result : SourceIdentity) : SourceIdentity :=
  { result with proof := result.proof.map plain }

theorem sourceIdentity_plain {sources sources' : Dict SourceKey RepositoryIdentityEvidence}
    (hs : ∀ k, sources'.get? k = (sources.get? k).map plain) (conflicts : Finset SourceKey)
    (row : RepositoryIdentityEvidence) :
    sourceIdentity (plain row) sources' conflicts =
      plainSource (sourceIdentity row sources conflicts) := by
  have hid : repositoryIdentityOf (plain row) = repositoryIdentityOf row := rfl
  have hsort : ∀ push, sortedBy Derive.evidenceSortKey [plain row, plain push] =
      (sortedBy Derive.evidenceSortKey [row, push]).map plain :=
    fun push => sortedBy_map plain [row, push]
  have htable : (plain row).sourceTable = row.sourceTable := rfl
  have hpush : (plain row).sourcePushId = row.sourcePushId := rfl
  have hrepo : (plain row).repo = row.repo := rfl
  unfold sourceIdentity
  simp only [hid, htable, hpush, hrepo, hs]
  by_cases ht : row.sourceTable = .sessionCommitObservations
  · simp only [ht, ne_eq, not_true_eq_false, if_false]
    by_cases hc : (⟨.pushes, row.sourcePushId.getD "", .repo⟩ : SourceKey) ∈ conflicts
    · simp only [hc, if_true]
      rfl
    · simp only [hc, if_false]
      cases hg : sources.get? ⟨.pushes, row.sourcePushId.getD "", .repo⟩ with
      | none => rfl
      | some push =>
        have hpid : repositoryIdentityOf (plain push) = repositoryIdentityOf push := rfl
        have hprepo : (plain push).repo = push.repo := rfl
        simp only [Option.map_some, hpid, hprepo, hsort]
        cases repositoryIdentityOf push with
        | none =>
          simp only
          split
          · rfl
          · split <;> rfl
        | some identity =>
          simp only
          split <;> rfl
  · simp only [ht, ne_eq, not_false_eq_true, if_true]
    rfl

theorem resolve_plain (row : RepositoryIdentityEvidence) :
    (EvidenceScan.run (rows.map plain)).resolve (plain row) =
      plainSource ((EvidenceScan.run rows).resolve row) := by
  unfold EvidenceScan.resolve
  rw [conflicts_plain]
  exact sourceIdentity_plain sound_plain _ _

theorem declared_plain (slug : String) (identity : Option RepositoryIdentity) :
    (slug, identity) ∈ (EvidenceScan.run (rows.map plain)).declared ↔
      (slug, identity) ∈ (EvidenceScan.run rows).declared := by
  simp only [mem_declared, sound_plain, Option.map_eq_some_iff]
  constructor
  · intro h
    obtain ⟨k, row', ⟨row, hrow, hplain⟩, hrepo, hne, hreason, hidentity⟩ := h
    subst hplain
    rw [resolve_plain] at hreason hidentity
    exact ⟨k, row, hrow, hrepo, hne, hreason, hidentity⟩
  · intro h
    obtain ⟨k, row, hrow, hrepo, hne, hreason, hidentity⟩ := h
    refine ⟨k, plain row, ⟨row, hrow, rfl⟩, hrepo, hne, ?_, ?_⟩
    · rw [resolve_plain]
      exact hreason
    · rw [resolve_plain]
      exact hidentity

section
variable [Interpreter] (orgId : String) (asOf : Int)

variable (rows) in
theorem names_plain :
    SameNames (assembleContext (rows.map plain) [] orgId asOf)
      (assembleContext rows [] orgId asOf) := by
  apply sameNames_of_iff
  · intro key slug
    simp only [Named, declared_plain]
  · intro slug identity
    simp only [Claimed, declared_plain, List.mem_map, exists_exists_and_eq_and]
    exact Iff.rfl
  · intro slug
    simp only [Unsafe, contradicted_plain, List.mem_map, exists_exists_and_eq_and]
    exact Iff.rfl

/-- What an attachment reads of a resolution. -/
def SameAnswer (a b : RepositoryResolution) : Prop := a.key = b.key ∧ a.reason = b.reason

variable (rows) in
theorem resolveSource_plain (k : SourceKey) :
    SameAnswer
      ((assembleContext (rows.map plain) [] orgId asOf).resolveSource k.table k.factId k.role)
      ((assembleContext rows [] orgId asOf).resolveSource k.table k.factId k.role) := by
  have hlookup := (names_plain rows orgId asOf).lookup
  simp only [RepositoryContext.resolveSource, get?_resolutions, conflicts_plain, sound_plain]
  by_cases hk : k ∈ (EvidenceScan.run rows).conflicts
  · simp only [hk, if_true]
    exact ⟨rfl, rfl⟩
  · simp only [hk, if_false]
    cases (EvidenceScan.run rows).sound.get? k with
    | none => exact ⟨rfl, rfl⟩
    | some row =>
      simp only [Option.map_some, Option.getD_some, resolve_plain, hlookup.sourceResolution]
      unfold sourceResolution plainSource
      simp only
      cases ((EvidenceScan.run rows).resolve row).reason with
      | none => exact ⟨rfl, rfl⟩
      | some reason => exact ⟨rfl, rfl⟩

theorem evidenceModel_plain (row : RepositoryIdentityEvidence) :
    evidenceModel (plain row) = (evidenceModel row).map plain := by
  simp only [evidenceModel, plain, Option.bind_eq_bind, Option.map_bind, Function.comp_def,
    Option.pure_def, Option.map_some]
  rfl

theorem validateEvidence_plain (row : RepositoryIdentityEvidence) :
    validateEvidence (plain row) = (validateEvidence row).map plain := by
  unfold validateEvidence
  rw [evidenceModel_plain]
  cases evidenceModel row with
  | none => rfl
  | some validated =>
    have hpartial : partialIdentity (plain validated) = partialIdentity validated := rfl
    have hsig : ∀ r, evidenceSignature (plain r) = evidenceSignature r := fun _ => rfl
    have hrole : (plain validated).role = validated.role := rfl
    have htable : (plain validated).sourceTable = validated.sourceTable := rfl
    have hpush : (plain validated).sourcePushId = validated.sourcePushId := rfl
    simp only [Option.map_some, hpartial, hsig, hrole, htable, hpush]
    repeat' split
    all_goals rfl

theorem resolveFact_local (fact : RepositoryIdentityEvidence) :
    SameAnswer ((assembleContext (rows.map plain) [] orgId asOf).resolveFact (plain fact))
      ((assembleContext rows [] orgId asOf).resolveFact fact) := by
  simp only [RepositoryContext.resolveFact, validateEvidence_plain]
  cases hv : validateEvidence fact with
  | error e => exact ⟨rfl, rfl⟩
  | ok projection =>
    have hsource := resolveSource_plain rows orgId asOf (sourceKey projection)
    have hsound : (assembleContext (rows.map plain) [] orgId asOf).sources.get?
        (sourceKey projection) = ((assembleContext rows [] orgId asOf).sources.get?
          (sourceKey projection)).map plain := sound_plain _
    have hkey : sourceKey (plain projection) = sourceKey projection := rfl
    have hsig : ∀ r, evidenceSignature (plain r) = evidenceSignature r := fun _ => rfl
    change SameAnswer
      ((assembleContext (rows.map plain) [] orgId asOf).resolveSource projection.sourceTable
        projection.sourceFactId projection.role)
      ((assembleContext rows [] orgId asOf).resolveSource projection.sourceTable
        projection.sourceFactId projection.role) at hsource
    simp only [Except.map, hkey, hsig, hsound]
    change SameAnswer (if ((assembleContext (rows.map plain) [] orgId asOf).resolveSource
        projection.sourceTable projection.sourceFactId projection.role).reason =
          some .identityConflict then _ else _) _
    rw [hsource.2]
    split
    · exact hsource
    · cases (assembleContext rows [] orgId asOf).sources.get? (sourceKey projection) with
      | none => exact ⟨rfl, rfl⟩
      | some row =>
        simp only [Option.map_some, hsig]
        split
        · exact ⟨rfl, rfl⟩
        · exact hsource

omit [Interpreter] in
theorem inScope_plain : inScope orgId asOf (rows.map plain) = (inScope orgId asOf rows).map plain :=
  List.filter_map

theorem resolveFact_plain (c : RepositoryContext) (fact : RepositoryIdentityEvidence) :
    c.resolveFact (plain fact) = c.resolveFact fact := by
  simp only [RepositoryContext.resolveFact, validateEvidence_plain]
  cases validateEvidence fact with
  | error e => rfl
  | ok projection => rfl

end

section
variable [Interpreter] {orgId : String} {outcomes population : List CIOutcome}

/-- Contexts in which an outcome reads alike in either spelling. -/
def SameReading (c' c : RepositoryContext) : Prop :=
  ∀ item : CIOutcome,
    SameAnswer (c'.resolveFact (outcomePayload item).project) (c.resolveFact item.project)

theorem mapM_plain (items : List CIOutcome) :
    (items.map outcomePayload).mapM (fun item => validateEvidence item.project) =
      (items.mapM (fun item => validateEvidence item.project)).map (List.map plain) := by
  induction items with
  | nil => rfl
  | cons item items ih =>
    have hitem : validateEvidence (outcomePayload item).project =
        (validateEvidence item.project).map plain := validateEvidence_plain item.project
    rw [List.map_cons, List.mapM_cons, List.mapM_cons, ih, hitem]
    cases validateEvidence item.project with
    | error e => rfl
    | ok validated => cases items.mapM (fun item => validateEvidence item.project) <;> rfl

theorem mapM_validate_plain (evidence : List RepositoryIdentityEvidence) :
    (evidence.map plain).mapM validateEvidence =
      (evidence.mapM validateEvidence).map (List.map plain) := by
  induction evidence with
  | nil => rfl
  | cons row rest ih =>
    rw [List.map_cons, List.mapM_cons, List.mapM_cons, ih, validateEvidence_plain]
    cases validateEvidence row with
    | error e => rfl
    | ok validated => cases rest.mapM validateEvidence <;> rfl

theorem build_plain (evidence : List RepositoryIdentityEvidence) (asOf : Int) :
    Agree SameReading (buildRepositoryContext (evidence.map plain) [] orgId asOf)
      (buildRepositoryContext evidence [] orgId asOf) := by
  cases ho : normalizeOrgId orgId with
  | none =>
    rw [build_invalid ho, build_invalid ho]
    exact True.intro
  | some org =>
    by_cases hl : evidence.length ≤ repositoryIdentityLimit
    · rw [build_within org ho (by simpa using hl) (by simp),
        build_within org ho hl (by simp), mapM_validate_plain]
      cases hv : evidence.mapM validateEvidence with
      | error e => exact True.intro
      | ok rows =>
        change SameReading (assembleContext (inScope org asOf (rows.map plain)) [] org asOf)
          (assembleContext (inScope org asOf rows) [] org asOf)
        intro item
        rw [inScope_plain]
        exact resolveFact_local org asOf item.project
    · rw [build_over org ho (by simp; omega), build_over org ho (by omega)]
      exact True.intro

theorem localContext_plain (orgId : String) (population : List CIOutcome) :
    Agree SameReading (localContext orgId (population.map outcomePayload))
      (localContext orgId population) := by
  have hmax : (population.map outcomePayload).map (fun item => item.capturedAt.utc) =
      population.map (fun item => item.capturedAt.utc) := by
    rw [List.map_map]
    rfl
  simp only [localContext, hmax, ← List.map_take, mapM_plain]
  by_cases ho : normalizeOrgId orgId = none
  · simp only [if_pos ho]
    exact True.intro
  · simp only [if_neg ho]
    cases (population.take (repositoryIdentityLimit + 1)).mapM (fun item =>
        validateEvidence item.project) with
    | error e => exact True.intro
    | ok evidence => exact build_plain evidence _

/-- Contexts under which every outcome is attached alike in either spelling. -/
def SameAttachment (contexts' contexts : List (String × RepositoryContext)) : Prop :=
  ∀ supplied item, attachment contexts' supplied (outcomePayload item) =
    attachment contexts supplied item

theorem sameAttachment_self (contexts : List (String × RepositoryContext)) :
    SameAttachment contexts contexts := by
  intro supplied item
  have horg : (outcomePayload item).orgId = item.orgId := rfl
  have hfact : ∀ c : RepositoryContext,
      c.resolveFact (outcomePayload item).project = c.resolveFact item.project :=
    fun c => resolveFact_plain c item.project
  simp only [attachment, horg, hfact]

omit [Interpreter] in
theorem ofOrg_payload (org : String) :
    ofOrg org (outcomes.map outcomePayload) = (ofOrg org outcomes).map outcomePayload :=
  List.filter_map

theorem localContexts_plain (outcomes : List CIOutcome) :
    Agree SameAttachment (localContexts (outcomes.map outcomePayload))
      (localContexts outcomes) := by
  have hlocal : ∀ org, Agree SameReading
      (localContext org (ofOrg org (outcomes.map outcomePayload)))
      (localContext org (ofOrg org outcomes)) := by
    intro org
    rw [ofOrg_payload]
    exact localContext_plain org _
  cases hc' : localContexts (outcomes.map outcomePayload) with
  | error e' =>
    cases hc : localContexts outcomes with
    | error e => exact True.intro
    | ok contexts =>
      obtain ⟨item', hi', herr⟩ := localContexts_error hc'
      obtain ⟨item, hi, rfl⟩ := List.mem_map.mp hi'
      obtain ⟨c, hok, -⟩ := (localContexts_ok hc).1 item hi
      have ha := hlocal item.orgId
      change localContext item.orgId _ = .error e' at herr
      rw [hok] at ha
      rw [show ofOrg (outcomePayload item).orgId (outcomes.map outcomePayload) =
        ofOrg item.orgId (outcomes.map outcomePayload) from rfl] at herr
      rw [herr] at ha
      exact ha
  | ok contexts' =>
    cases hc : localContexts outcomes with
    | error e =>
      obtain ⟨item, hi, herr⟩ := localContexts_error hc
      obtain ⟨c, hok, -⟩ := (localContexts_ok hc').1 (outcomePayload item)
        (List.mem_map_of_mem hi)
      have ha := hlocal item.orgId
      change localContext item.orgId (ofOrg item.orgId (outcomes.map outcomePayload)) = .ok c at hok
      rw [herr, hok] at ha
      exact ha
    | ok contexts =>
      intro supplied item
      by_cases hex : ∃ known ∈ outcomes, known.orgId = item.orgId
      · obtain ⟨known, hi, horg⟩ := hex
        obtain ⟨c, hok, hlook⟩ := (localContexts_ok hc).1 known hi
        obtain ⟨c', hok', hlook'⟩ := (localContexts_ok hc').1 (outcomePayload known)
          (List.mem_map_of_mem hi)
        have ha := hlocal known.orgId
        change localContext known.orgId (ofOrg known.orgId (outcomes.map outcomePayload)) =
          .ok c' at hok'
        change contexts'.lookup known.orgId = some c' at hlook'
        rw [hok, hok'] at ha
        obtain ⟨hkey, hreason⟩ := ha item
        rw [horg] at hlook hlook'
        simp only [attachment, show (outcomePayload item).orgId = item.orgId from rfl, hlook,
          hlook', hkey, hreason]
      · simp only [not_exists, not_and] at hex
        have hnone := (localContexts_ok hc).2 item.orgId hex
        have hnone' := (localContexts_ok hc').2 item.orgId (by
          intro known hknown
          obtain ⟨origin, ho, rfl⟩ := List.mem_map.mp hknown
          exact hex origin ho)
        simp only [attachment, show (outcomePayload item).orgId = item.orgId from rfl, hnone,
          hnone']

theorem sameIndex_payload {contexts' contexts : List (String × RepositoryContext)}
    {supplied : Bool} {indexed' indexed : CIOutcomeIndexResult}
    (hc : SameAttachment contexts' contexts)
    (hi' : Indexed contexts' supplied (outcomes.map outcomePayload) indexed')
    (hi : Indexed contexts supplied outcomes indexed) : SameIndex indexed' indexed := by
  have hd : ∀ item, declinedBy contexts' supplied (outcomePayload item) =
      declinedBy contexts supplied item := fun item => congrArg Prod.snd (hc supplied item)
  have ha : ∀ item, attachedTo contexts' supplied (outcomePayload item) =
      attachedTo contexts supplied item := by
    intro item
    simp only [attachedTo, hc supplied item]
    rfl
  have hs : ∀ item, sourceId (outcomePayload item) = sourceId item := fun _ => rfl
  refine ⟨?_, ?_, ?_⟩
  · funext reason
    rw [hi'.skipped, hi.skipped, List.countP_map]
    simp only [Function.comp_def, hd]
  · ext source
    simp only [hi'.declined, hi.declined, List.mem_map, exists_exists_and_eq_and, hd, hs]
  · funext source
    ext commit
    simp only [hi'.keys, hi.keys, List.mem_map, exists_exists_and_eq_and, ha, hs]

omit [Interpreter] in
theorem scopedOutcomes_payload (context : Option RepositoryContext) :
    scopedOutcomes context (outcomes.map outcomePayload) =
      (scopedOutcomes context outcomes).map outcomePayload := by
  cases context with
  | none => rfl
  | some c => exact List.filter_map

theorem index_payload (context : Option RepositoryContext) (outcomes : List CIOutcome) :
    Agree SameIndex (indexCiOutcomesByCommitKeyResult (outcomes.map outcomePayload) context)
      (indexCiOutcomesByCommitKeyResult outcomes context) := by
  cases context with
  | none =>
    apply (localContexts_plain outcomes).bind
    intro contexts' contexts hc
    exact sameIndex_payload hc (indexed_run contexts' false (outcomes.map outcomePayload))
      (indexed_run contexts false outcomes)
  | some c =>
    have hscoped : scopedOutcomes (some c) (outcomes.map outcomePayload) =
        (scopedOutcomes (some c) outcomes).map outcomePayload := scopedOutcomes_payload (some c)
    refine sameIndex_payload (sameAttachment_self [(c.orgId, c)]) ?_
      (indexed_run [(c.orgId, c)] true (scopedOutcomes (some c) outcomes))
    rw [← hscoped]
    exact indexed_run [(c.orgId, c)] true _

variable {indexed' indexed : CIOutcomeIndexResult}
  {keys' keys : Dict SourceId (Finset CommitKey)} {runs : List CIOutcome}

omit [Interpreter] in
theorem runRows_payload (key : List String) :
    runRows (outcomes.map outcomePayload) key = (runRows outcomes key).map outcomePayload :=
  List.filter_map

omit [Interpreter] in
theorem completeRuns_payload (hi : SameIndex indexed' indexed) :
    completeRuns indexed' (outcomes.map outcomePayload) = completeRuns indexed outcomes := by
  have hrun : ∀ item, runKey (outcomePayload item) = runKey item := fun _ => rfl
  have hsource : ∀ item, sourceId (outcomePayload item) = sourceId item := fun _ => rfl
  have hkeys : (byRun (outcomes.map outcomePayload)).keys.Perm (byRun outcomes).keys := by
    rw [List.perm_ext_iff_of_nodup (Dict.nodup_keys _) (Dict.nodup_keys _)]
    intro key
    simp only [mem_byRun_keys, List.mem_map, exists_exists_and_eq_and, hrun]
  have hinc : incompleteRuns indexed' (outcomes.map outcomePayload) =
      incompleteRuns indexed outcomes := by
    ext key
    simp only [mem_incompleteRuns, runRows_payload, List.mem_map, exists_exists_and_eq_and,
      hsource, hi.declined, hi.keys]
  have hsort : sortedBy id (byRun (outcomes.map outcomePayload)).keys =
      sortedBy id (byRun outcomes).keys := sortedBy_congr hkeys (fun _ _ _ _ he => he)
  rw [completeRuns, completeRuns, hinc, hsort]

omit [Interpreter] in
theorem runIdentity_payload : runIdentity (runs.map outcomePayload) = runIdentity runs := by
  simp only [runIdentity, List.map_map, List.filterMap_map, Function.comp_def]
  rfl

omit [Interpreter] in
theorem runCommits_payload (hk : keys'.members = keys.members) :
    runCommits keys' (runs.map outcomePayload) = runCommits keys runs := by
  have hsource : ∀ item, sourceId (outcomePayload item) = sourceId item := fun _ => rfl
  ext commit
  simp only [mem_runCommits, List.mem_map, exists_exists_and_eq_and, hk, hsource]

omit [Interpreter] in
theorem resolveWorkflow_payload (policy : CIResolutionPolicy) (identity : RunIdentity)
    (first : CIOutcome) :
    resolveWorkflow policy identity (outcomePayload first) (runs.map outcomePayload) =
      resolveWorkflow policy identity first runs := by
  have horder : sortedBy attemptOrder (runs.map outcomePayload) =
      (sortedBy attemptOrder runs).map outcomePayload := sortedBy_map outcomePayload runs
  have hresult : ∀ item, (outcomePayload item).result = item.result := fun _ => rfl
  have hid : CIOutcome.outcomeId ∘ outcomePayload = CIOutcome.outcomeId := rfl
  have hres : CIOutcome.result ∘ outcomePayload = CIOutcome.result := rfl
  simp only [resolveWorkflow, horder, List.filter_map, Function.comp_def, hresult, List.map_map,
    List.getLast?_map, Option.isSome_map, Option.map_map, ne_eq, List.map_eq_nil_iff]
  rfl

omit [Interpreter] in
theorem runVerdict_payload (policy : CIResolutionPolicy) (hk : keys'.members = keys.members) :
    runVerdict policy keys' (runs.map outcomePayload) = runVerdict policy keys runs := by
  simp only [runVerdict, runIdentity_payload, runCommits_payload hk, List.head?_map]
  cases runIdentity runs with
  | none => rfl
  | some identity =>
    cases onlyMember (runCommits keys runs) with
    | none => rfl
    | some commit =>
      cases runs.head? with
      | none => rfl
      | some first =>
        change some (commit, _) = some (commit, _)
        rw [resolveWorkflow_payload]

/-- Ledgers that count and resolve alike. -/
def SameVerdicts (s' s : RunLedger) : Prop :=
  s'.conflicting = s.conflicting ∧ s'.byCommit = s.byCommit

omit [Interpreter] in
theorem resolveRun_payload (policy : CIResolutionPolicy) (hk : keys'.members = keys.members)
    {s' s : RunLedger} (hs : SameVerdicts s' s) :
    SameVerdicts (resolveRun policy keys' s' (runs.map outcomePayload))
      (resolveRun policy keys s runs) := by
  obtain ⟨hcount, hverdicts⟩ := hs
  simp only [resolveRun, runVerdict_payload policy hk]
  cases runVerdict policy keys runs with
  | none => exact ⟨by simp only [hcount], hverdicts⟩
  | some v => exact ⟨hcount, by simp only [hverdicts]⟩

variable (outcomes) in
omit [Interpreter] in
theorem runLedger_payload (policy : CIResolutionPolicy) (hi : SameIndex indexed' indexed) :
    SameVerdicts (runLedger policy indexed' (outcomes.map outcomePayload))
      (runLedger policy indexed outcomes) := by
  have hlisted : (byRun (outcomes.map outcomePayload)).listed =
      fun key => ((byRun outcomes).listed key).map outcomePayload := by
    funext key
    rw [byRun_listed, byRun_listed, runRows_payload]
  have hfold : ∀ (keyed : List (List String)) (s' s : RunLedger), SameVerdicts s' s →
      SameVerdicts
        ((keyed.map (fun key => ((byRun outcomes).listed key).map outcomePayload)).foldl
          (resolveRun policy (keysBySource indexed')) s')
        ((keyed.map (byRun outcomes).listed).foldl
          (resolveRun policy (keysBySource indexed)) s) := by
    intro keyed
    induction keyed with
    | nil => exact fun s' s hs => hs
    | cons key keyed ih => exact fun s' s hs => ih _ _ (resolveRun_payload policy hi.keys hs)
  rw [runLedger, runLedger, completeRuns_payload hi, hlisted]
  exact hfold _ _ _ ⟨rfl, rfl⟩

/-- Results with the same resolutions and the same tally. -/
def SameTally (a b : CIResolutionResult) : Prop :=
  a.resolutions = b.resolutions ∧ a.skipped = b.skipped

theorem derive_payload (policy : CIResolutionPolicy) (digest : CIResolutionPolicy → String)
    (quarantineRevision : Nat) (context : Option RepositoryContext) (outcomes : List CIOutcome) :
    Agree SameTally
      (deriveCiResolutionResult (outcomes.map outcomePayload) policy digest quarantineRevision
        context)
      (deriveCiResolutionResult outcomes policy digest quarantineRevision context) := by
  simp only [deriveCiResolutionResult, scopedOutcomes_payload]
  apply ((index_payload context (scopedOutcomes context outcomes)).mapError _).bind
  intro indexed' indexed hi
  obtain ⟨hcount, hverdicts⟩ := runLedger_payload (scopedOutcomes context outcomes) policy hi
  simp only [hverdicts]
  apply (Agree.refl (R := Eq) (fun _ => rfl) _).bind
  intro resolutions _ heq
  subst heq
  refine ⟨rfl, ?_⟩
  funext reason
  cases reason with
  | conflictingRunIdentity => exact hcount
  | ambiguousWorkflowVerdicts => rfl
  | repository reason => exact congrFun hi.skipped reason

theorem observes_payload (context : Option RepositoryContext) (row : CompletionFields)
    (item : SessionCommitObservation) :
    observesCommit context row.payload (observationPayload item) =
      observesCommit context row item := by
  cases context with
  | none => rfl
  | some c =>
    have hfact : c.resolveFact (observationPayload item).project = c.resolveFact item.project :=
      resolveFact_plain c item.project
    simp only [observesCommit, hfact]
    rfl

theorem observationIds_payload (context : Option RepositoryContext) (row : CompletionFields) :
    sessionCommitObservationIds context row.payload = sessionCommitObservationIds context row := by
  have habandoned : row.payload.abandonment.isSome = row.abandonment.isSome :=
    Option.isSome_map
  have hitem : ∀ item, (observationPayload item).orgId = item.orgId ∧
      (observationPayload item).commitSha = item.commitSha ∧
      (observationPayload item).sessionId = item.sessionId := fun _ => ⟨rfl, rfl, rfl⟩
  have hlist : row.payload.sessionCommitObservations =
      row.sessionCommitObservations.map observationPayload := rfl
  unfold sessionCommitObservationIds
  simp only [habandoned, hlist, List.filter_map, Function.comp_def, observes_payload, hitem,
    List.map_map]
  rfl

section
variable (digest : CIResolutionPolicy → String) (context : Option RepositoryContext)

theorem resolutionResult_payload (row : CompletionFields) (policy : CIResolutionPolicy) :
    Agree SameTally (resolveCiResolutionResult digest context row.payload policy)
      (resolveCiResolutionResult digest context row policy) :=
  (derive_payload policy digest row.provenance.quarantineRevision context
    row.ciOutcomes).mapError ConfidenceError.ci

theorem resolution_payload (row : CompletionFields) (policy : CIResolutionPolicy) :
    Agree Eq (resolveCiResolution digest context row.payload policy)
      (resolveCiResolution digest context row policy) := by
  apply (resolutionResult_payload digest context row policy).bind
  intro result' result hr
  rw [hr.1]
  exact Agree.refl (fun _ => rfl) _

omit [Interpreter] in
theorem abandonment_payload (row : CompletionFields) :
    row.payload.abandonment = none ↔ row.abandonment = none := Option.map_eq_none_iff

omit [Interpreter] in
theorem decisions_payload (row : CompletionFields) :
    row.payload.decisions = row.decisions.map decisionPayload := rfl

omit [Interpreter] in
theorem decisionBranch_payload (row : CompletionFields) :
    decisionBranch row.payload = decisionBranch row := by
  have habandoned : row.payload.abandonment.isSome = row.abandonment.isSome :=
    Option.isSome_map
  simp only [decisionBranch, habandoned, decisions_payload, List.map_eq_nil_iff, List.filter_map,
    List.any_map, List.all_map, ne_eq]
  rfl

omit [Interpreter] in
theorem decisionFactor_payload (row : CompletionFields) (policy : LabelConfidencePolicy) :
    decisionFactor row.payload policy = decisionFactor row policy := by
  have hscores : editRetentionScores row.payload = editRetentionScores row := by
    rw [editRetentionScores, decisions_payload, List.filterMap_map]
    rfl
  have hfactor : implicitAcceptFactor row.payload policy = implicitAcceptFactor row policy := by
    simp only [implicitAcceptFactor, hscores]
  simp only [decisionFactor, decisionBranch_payload, hfactor, decisions_payload,
    List.map_eq_nil_iff]

theorem confidence_payload (row : CompletionFields) (policy : LabelConfidencePolicy) :
    Agree Eq (resolveConfidence digest context policy row.payload)
      (resolveConfidence digest context policy row) := by
  have houtcomes : row.payload.ciOutcomes = [] ↔ row.ciOutcomes = [] := List.map_eq_nil_iff
  have hdecisions : row.payload.decisions = [] ↔ row.decisions = [] := List.map_eq_nil_iff
  have hdiscount : similarityDiscount row.payload = similarityDiscount row := rfl
  have hbreakdown : Agree Eq (resolveConfidenceBreakdown digest context policy row.payload)
      (resolveConfidenceBreakdown digest context policy row) := by
    simp only [resolveConfidenceBreakdown, abandonment_payload, houtcomes, hdecisions,
      decisionFactor_payload, hdiscount]
    split
    · exact rfl
    · apply (resolution_payload digest context row policy.ciResolution).bind
      intro resolution _ heq
      subst heq
      exact Agree.refl (fun _ => rfl) _
  unfold resolveConfidence
  cases hp : resolveConfidenceBreakdown digest context policy row.payload with
  | error e =>
    cases hr : resolveConfidenceBreakdown digest context policy row with
    | error e' => exact True.intro
    | ok b =>
      rw [hp, hr] at hbreakdown
      exact hbreakdown.elim
  | ok a =>
    cases hr : resolveConfidenceBreakdown digest context policy row with
    | error e' =>
      rw [hp, hr] at hbreakdown
      exact hbreakdown.elim
    | ok b =>
      rw [hp, hr] at hbreakdown
      exact congrArg (Option.map ConfidenceBreakdown.final) hbreakdown

variable {φ : Type} [Captured.PyFloat φ] (policy : SFTPolicy) (calls : Calls φ)

theorem eligibilitySource_payload (row : CompletionFields) :
    Agree Eq (eligibilitySource digest context policy row.payload)
      (eligibilitySource digest context policy row) := by
  have habandoned : row.payload.abandonment.isSome = row.abandonment.isSome :=
    Option.isSome_map
  have hreject : explicitReject row.payload = explicitReject row := List.any_map
  have haccept : explicitAccept row.payload = explicitAccept row := List.any_map
  have hretained : retainedEdit row.payload = retainedEdit row := List.any_map
  simp only [eligibilitySource, habandoned, hreject, haccept, hretained]
  split
  · exact rfl
  · split
    · exact rfl
    · apply (resolution_payload digest context row _).bind
      intro resolution _ heq
      subst heq
      exact Agree.refl (fun _ => rfl) _

omit [Interpreter] in
theorem evidenceSortKey_payload (row : CompletionFields) :
    Export.evidenceSortKey row.payload = Export.evidenceSortKey row := by
  simp only [Export.evidenceSortKey, abandonment_payload]
  rfl

theorem sampleOf_payload (row : CompletionFields) (source : SFTEligibilitySource) :
    sampleOf (φ := φ) context policy row.payload source = sampleOf context policy row source := by
  funext confidence resolution model conversation
  simp only [sampleOf, observationIds_payload]
  rfl

theorem rankedSample_payload (row : CompletionFields) (source : SFTEligibilitySource) :
    Agree Eq (rankedSample digest context policy calls row.payload source)
      (rankedSample digest context policy calls row source) := by
  have hcall : mappedCall calls row.payload = mappedCall calls row := rfl
  simp only [rankedSample, hcall, evidenceSortKey_payload, sampleOf_payload]
  apply (confidence_payload digest context row policy.labelConfidence).bind
  intro confidence _ heq
  subst heq
  cases confidence with
  | none => exact rfl
  | some confidence =>
    simp only
    split
    · exact rfl
    · cases mappedCall calls row with
      | error reason => exact rfl
      | ok mapped =>
        apply (resolution_payload digest context row _).bind
        intro resolution _ heq
        subst heq
        exact rfl

/-- Rows with one payload are assessed alike. -/
theorem assess_payload (row : CompletionFields) :
    Agree Eq (assess digest context policy calls row.payload)
      (assess digest context policy calls row) := by
  have habandoned : row.payload.abandonment.isSome = row.abandonment.isSome :=
    Option.isSome_map
  have hreject : explicitReject row.payload = explicitReject row := List.any_map
  simp only [assess, habandoned, hreject]
  split
  · exact rfl
  · split
    · exact rfl
    · apply (resolutionResult_payload digest context row _).bind
      intro result' result hr
      apply (eligibilitySource_payload digest context policy row).bind
      intro eligible _ heq
      subst heq
      cases eligible with
      | error reason =>
        rw [hr.2]
        exact rfl
      | ok source =>
        apply (rankedSample_payload digest context policy calls row source).bind
        intro outcome _ heq
        subst heq
        rw [hr.2]
        exact rfl

end

end

end Sediment.Proofs.TimeSpelling
