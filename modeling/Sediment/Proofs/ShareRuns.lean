import Sediment.Proofs.AttributionShare

namespace Sediment.Proofs.ShareRuns
open Base Sediment.Core Sediment.Derive Sediment.Derive.Attributions
open Sediment.Derive.AttributionShare Base.Claims
open Sediment.Export (AttributionSource)
open Sediment.Proofs.AttributionMatch Sediment.Proofs.AttributionWalk
open Sediment.Proofs.AttributionShare Sediment.Proofs.ContextReads

theorem foldlM_extend {α σ τ ε : Type} {step : σ → α → Except ε σ} {one : α → Except ε τ}
    (extend : σ → τ → σ) (h : ∀ st x, step st x = (one x).map (extend st)) (xs : List α) (st : σ) :
    xs.foldlM step st = (xs.mapM one).map (fun outs => outs.foldl extend st) := by
  induction xs generalizing st with
  | nil => rfl
  | cons x xs ih =>
    rw [List.foldlM_cons, List.mapM_cons, h]
    cases one x with
    | error e => rfl
    | ok out =>
      change xs.foldlM step (extend st out) = _
      rw [ih]
      cases xs.mapM one <;> rfl

def extendShare (a b : AttributionShareResult) : AttributionShareResult :=
  ⟨a.rows ++ b.rows, a.skipped + b.skipped⟩

theorem foldl_extendShare (outs : List AttributionShareResult) (start : AttributionShareResult) :
    outs.foldl extendShare start =
      ⟨start.rows ++ outs.flatMap (·.rows), start.skipped + (outs.map (·.skipped)).sum⟩ := by
  induction outs generalizing start with
  | nil => simp
  | cons out outs ih =>
    rw [List.foldl_cons, ih]
    simp [extendShare, add_assoc]

section
variable [Interpreter] [Collation] [StoredBytes] [WilsonScore] (s : Snapshot) (mirrors : Mirrors)
  (orgId : String) (policy : AttributionSharePolicy) (scorer : Scorer)

/-- What the share reads before it counts. -/
structure ShareInputs where
  provenance : Attributions.Provenance
  context : RepositoryContext
  asOf : Int
  candidates : List Candidate := []
  explicit : Option NoteMap := none
  captured : NoteMap := Dict.empty
  groups : List (RepositoryKey × List Push) := []
  skipped : Multiset SkipReason

def scopePushes (scope : ShareScope) : List Push :=
  orderedPushes orgId (scope.asOf.or (scope.repositoryContext.map (·.asOf)))
    (scope.pushes.getD (s.readPushes orgId))

def scopeGroups (scope : ShareScope) (context : RepositoryContext) :
    Dict RepositoryKey (List Push) :=
  shareGroups context (scope.pushes.isSome && scope.repositoryContext.isNone)
    (scopePushes s orgId scope)

def scopeDeclined (scope : ShareScope) (context : RepositoryContext) : Multiset SkipReason :=
  ((scopePushes s orgId scope).filterMap (declinedGroup context
    (scope.pushes.isSome && scope.repositoryContext.isNone)) : Multiset _)

/-- The reads of the share, once its pushes are grouped. -/
def groupInputs (scope : ShareScope) (context : RepositoryContext)
    (provenance : Attributions.Provenance) : Except AttributionError ShareInputs := do
  let byRepo := scopeGroups s orgId scope context
  let declined := scopeDeclined s orgId scope context
  if byRepo.values.flatten = [] then
    pure { provenance, context, asOf := context.asOf, skipped := declined }
  else do
    let found ← (scopeCandidates s orgId byRepo.values.flatten policy.attribution
      scope.candidateLimit).mapError .candidates
    let bounded ← shareBoundary s orgId scope context found
    let notes ← shareNotes s orgId scope bounded.1 byRepo.keys
    pure {
      provenance
      context := bounded.1
      asOf := bounded.2
      candidates := found.filter (fun candidate => candidate.call.observedAt.utc ≤ bounded.2)
      explicit := notes.1
      captured := notes.2.1
      groups := sortedBy (fun group => repositorySortKey group.1) byRepo.entries
      skipped := declined + notes.2.2 }

def shareInputs (scope : ShareScope) : Except AttributionError ShareInputs := do
  checkNoteMaps scope.noteSessionsByCommit scope.noteSessionIdsByCommit
  let context ← scopeContext s orgId scope.attribution
  let provenance ← stampProvenance s orgId policy.policyVersion none
  groupInputs s orgId policy scope context provenance

/-- The share of one repository. -/
def repositoryShare (i : ShareInputs) (group : RepositoryKey × List Push) :
    Except AttributionError AttributionShareResult :=
  shareRepository s mirrors orgId policy scorer i.provenance i.context i.asOf i.candidates
    i.explicit i.captured {} group

theorem shareRepository_extend (i : ShareInputs) (result : AttributionShareResult)
    (group : RepositoryKey × List Push) :
    shareRepository s mirrors orgId policy scorer i.provenance i.context i.asOf i.candidates
        i.explicit i.captured result group =
      (repositoryShare s mirrors orgId policy scorer i group).map (extendShare result) := by
  unfold repositoryShare shareRepository
  dsimp only
  cases (i.context.repoFor group.1).mapError AttributionError.label with
  | error e => rfl
  | ok repo =>
    rw [ok_bind, ok_bind]
    split
    · simp [extendShare, pure, Except.pure, Except.map]
    · cases mirrors group.1 with
      | none => simp [extendShare, pure, Except.pure, Except.map]
      | some mirror =>
        dsimp only
        cases deriveAttributionResult s mirrors orgId policy.attribution scorer _ with
        | error e => rfl
        | ok attributed => simp [extendShare, pure, Except.pure, Except.map]

/-- The share reads, and then each of its repositories stands on its own. -/
theorem derive_eq (scope : ShareScope) :
    deriveAttributionShareResult s mirrors orgId policy scorer scope =
      (shareInputs s orgId policy scope).bind (fun i =>
        (i.groups.mapM (repositoryShare s mirrors orgId policy scorer i)).map (fun outs =>
          ⟨outs.flatMap (·.rows), i.skipped + (outs.map (·.skipped)).sum⟩)) := by
  have hloop : ∀ i : ShareInputs,
      (i.groups.mapM (repositoryShare s mirrors orgId policy scorer i)).map (fun outs =>
          (⟨outs.flatMap (·.rows), i.skipped + (outs.map (·.skipped)).sum⟩ :
            AttributionShareResult)) =
        i.groups.foldlM (shareRepository s mirrors orgId policy scorer i.provenance i.context
          i.asOf i.candidates i.explicit i.captured) { skipped := i.skipped } := by
    intro i
    rw [foldlM_extend extendShare (shareRepository_extend s mirrors orgId policy scorer i)]
    simp only [foldl_extendShare, List.nil_append]
  simp only [hloop]
  unfold deriveAttributionShareResult shareInputs groupInputs
  dsimp only
  cases checkNoteMaps scope.noteSessionsByCommit scope.noteSessionIdsByCommit with
  | error e => rfl
  | ok _ =>
    cases scopeContext s orgId scope.attribution with
    | error e => rfl
    | ok context =>
      cases stampProvenance s orgId policy.policyVersion none with
      | error e => rfl
      | ok provenance =>
        rw [ok_bind, ok_bind, ok_bind, ok_bind]
        change (if (scopeGroups s orgId scope context).values.flatten = [] then _ else _) =
          Except.bind (if (scopeGroups s orgId scope context).values.flatten = [] then _ else _) _
        by_cases hempty : (scopeGroups s orgId scope context).values.flatten = []
        · rw [if_pos hempty, if_pos hempty]
          rfl
        · rw [if_neg hempty, if_neg hempty]
          change ((scopeCandidates s orgId (scopeGroups s orgId scope context).values.flatten
            policy.attribution scope.candidateLimit).mapError AttributionError.candidates >>= _) = _
          cases (scopeCandidates s orgId (scopeGroups s orgId scope context).values.flatten
              policy.attribution scope.candidateLimit).mapError AttributionError.candidates with
          | error e => rfl
          | ok found =>
            rw [ok_bind, ok_bind]
            cases shareBoundary s orgId scope context found with
            | error e => rfl
            | ok bounded =>
              change (shareNotes s orgId scope bounded.1 (scopeGroups s orgId scope context).keys
                >>= _) = Except.bind (shareNotes s orgId scope bounded.1
                  (scopeGroups s orgId scope context).keys >>= _) _
              cases shareNotes s orgId scope bounded.1 (scopeGroups s orgId scope context).keys with
              | error e => rfl
              | ok notes => rfl

section
variable {s : Snapshot} {mirrors : Mirrors} {orgId : String} {policy : AttributionSharePolicy}
  {scorer : Scorer} {scope : ShareScope} {context : RepositoryContext}

omit [Collation] [StoredBytes] [WilsonScore] in
theorem groupPush_ok {preloaded : Bool} {push : Push} {g : RepositoryKey × Push} :
    groupPush context preloaded push = .ok g ↔
      g.2 = push ∧ (context.resolveFact push.project).key = some g.1 ∧
        (context.resolveFact push.project).reason = none ∧
        ¬ (preloaded && push.repositoryId.isSome) = true := by
  obtain ⟨key, p⟩ := g
  unfold groupPush
  by_cases hd : (preloaded && push.repositoryId.isSome) = true
  · simp [hd]
  · simp only [hd, Bool.false_eq_true, if_false]
    cases hr : (context.resolveFact push.project).reason with
    | some reason => simp
    | none =>
      cases hk : (context.resolveFact push.project).key with
      | none => simp
      | some key' =>
        simp only [Except.ok.injEq, Prod.mk.injEq, Option.some.injEq, not_false_eq_true, and_true]
        constructor
        · rintro ⟨rfl, rfl⟩
          exact ⟨rfl, rfl⟩
        · rintro ⟨rfl, rfl⟩
          exact ⟨rfl, rfl⟩

omit [Collation] [StoredBytes] [WilsonScore] in
/-- The pushes of a group, in the order of the scope. -/
theorem mem_shareGroups {preloaded : Bool} {pushes group : List Push} {key : RepositoryKey} :
    (key, group) ∈ (shareGroups context preloaded pushes).entries ↔
      group ≠ [] ∧ group = pushes.filter (fun push =>
        (groupPush context preloaded push).toOption = some (key, push)) := by
  let grouped : Push → Option (RepositoryKey × Push) := fun push =>
    (groupPush context preloaded push).toOption
  have hsnd : ∀ push g, grouped push = some g → g.2 = push := by
    intro push g hg
    have hok : groupPush context preloaded push = .ok g := by
      revert hg
      change (groupPush context preloaded push).toOption = some g → _
      cases groupPush context preloaded push with
      | error e => exact fun h => nomatch h
      | ok g' => exact fun h => congrArg Except.ok (Option.some.inj h)
    exact (groupPush_ok.mp hok).1
  have hfilter : ((pushes.filterMap grouped).filter (fun g => g.1 = key)).map Prod.snd =
      pushes.filter (fun push => grouped push = some (key, push)) := by
    induction pushes with
    | nil => rfl
    | cons push pushes ih =>
      cases hg : grouped push with
      | none =>
        rw [List.filterMap_cons_none hg, List.filter_cons_of_neg (by simp [hg]), ih]
      | some g =>
        have he := hsnd push g hg
        obtain ⟨key', push'⟩ := g
        change push' = push at he
        subst he
        rw [List.filterMap_cons_some hg]
        by_cases hk : key' = key
        · subst hk
          rw [List.filter_cons_of_pos (by simp), List.filter_cons_of_pos (by simpa using hg),
            List.map_cons, ih]
        · rw [List.filter_cons_of_neg (by simpa using hk), List.filter_cons_of_neg, ih]
          simp [hg, hk]
  have hentries := @Dict.mem_entries_gather _ _ _ (pushes.filterMap grouped) key group
  change (key, group) ∈ (Dict.empty.gather (pushes.filterMap grouped)).entries ↔ _
  rw [hentries, hfilter]
  constructor
  · rintro ⟨⟨push, hp⟩, rfl⟩
    refine ⟨?_, rfl⟩
    rw [← hfilter]
    intro hnil
    rw [List.map_eq_nil_iff, List.filter_eq_nil_iff] at hnil
    exact hnil _ hp (by simp)
  · rintro ⟨hne, hgroup⟩
    refine ⟨?_, hgroup⟩
    obtain ⟨push, hp⟩ := List.exists_mem_of_ne_nil _ hne
    rw [hgroup, List.mem_filter, decide_eq_true_eq] at hp
    exact ⟨push, List.mem_filterMap.mpr ⟨push, hp⟩⟩

omit [WilsonScore] [StoredBytes] in
theorem scopeContext_ok {scope : Scope} (h : scopeContext s orgId scope = .ok context) :
    context.orgId = orgId ∧
    (∀ boundary, scope.asOf.or (scope.repositoryContext.map (·.asOf)) = some boundary →
      context.asOf = boundary) ∧
    (scope.asOf.or (scope.repositoryContext.map (·.asOf)) = none →
      readRepositoryContext s.repositories orgId none (legacySupplements scope.pushes) =
        .ok context) := by
  have hcheck : ∀ (boundary : Option Int) (read : RepositoryContext),
      (if read.orgId ≠ orgId ∨ boundary.any (read.asOf ≠ ·) then throw .contextMismatch
        else pure read : Except AttributionError RepositoryContext) = .ok context →
      read = context ∧ context.orgId = orgId ∧ ∀ b, boundary = some b → context.asOf = b := by
    intro boundary read hr
    split at hr
    · cases hr
    · rename_i hmatch
      cases hr
      rw [not_or, not_not] at hmatch
      refine ⟨rfl, hmatch.1, ?_⟩
      rintro b rfl
      simpa using hmatch.2
  unfold scopeContext at h
  dsimp only at h
  cases hc : scope.repositoryContext with
  | some given =>
    rw [hc] at h
    obtain ⟨rfl, horg, hb⟩ := hcheck _ _ h
    refine ⟨horg, hb, fun hnone => ?_⟩
    simp at hnone
  | none =>
    rw [hc] at h
    obtain ⟨read, hread, hchecked⟩ := bind_ok.mp h
    obtain ⟨rfl, horg, hb⟩ := hcheck _ _ hchecked
    refine ⟨horg, hb, fun hnone => ?_⟩
    rw [mapError_ok, hnone] at hread
    exact hread

omit [WilsonScore] in
theorem scopeCandidates_org {pushes : List Push} {attribution : AttributionPolicy}
    {limit : Option Nat} {found : List Candidate}
    (h : scopeCandidates s orgId pushes attribution limit = .ok found) :
    ∃ org, normalizeOrgId orgId = some org := by
  cases ho : normalizeOrgId orgId with
  | some org => exact ⟨org, rfl⟩
  | none =>
    simp only [scopeCandidates, Snapshot.readAttributionCandidates, ho, bind_ok] at h
    obtain ⟨calls, ⟨org, horg, -⟩, -⟩ := h
    cases horg

omit [WilsonScore] in
theorem scopeCandidates_observed {pushes : List Push} {attribution : AttributionPolicy}
    {limit : Option Nat} {found : List Candidate}
    (h : scopeCandidates s orgId pushes attribution limit = .ok found) :
    ∀ c ∈ found, c.call.observedAt.utc ≤ wallMax := by
  obtain ⟨org, ho⟩ := scopeCandidates_org h
  intro c hc
  obtain ⟨call, rfl, hv, -⟩ := (mem_scopeCandidates ho h c).mp hc
  exact s.observedBefore call hv.1

omit [WilsonScore] in
/-- The boundary of the share moves its context at most past the last row of it. -/
theorem shareBoundary_ok {pushes : List Push} {attribution : AttributionPolicy}
    {limit : Option Nat} {found : List Candidate} {bounded : RepositoryContext × Int}
    (hc : scopeContext s orgId scope.attribution = .ok context)
    (hf : scopeCandidates s orgId pushes attribution limit = .ok found)
    (h : shareBoundary s orgId scope context found = .ok bounded) :
    bounded.1 = { context with asOf := bounded.2 } ∧ context.asOf ≤ bounded.2 := by
  obtain ⟨horg, hboundary, hread⟩ := scopeContext_ok hc
  unfold shareBoundary at h
  change ∀ boundary, scope.asOf.or (scope.repositoryContext.map (·.asOf)) = some boundary → _
    at hboundary
  change scope.asOf.or (scope.repositoryContext.map (·.asOf)) = none → _ at hread
  cases hb : scope.asOf.or (scope.repositoryContext.map (·.asOf)) with
  | some boundary =>
    rw [hb] at h
    cases h
    rw [← hboundary boundary hb]
    exact ⟨rfl, le_refl _⟩
  | none =>
    rw [hb] at h
    dsimp only at h
    have hmax : ((found.map (·.call.observedAt.utc)).max?).getD context.asOf ≤
        max wallMax context.asOf := by
      cases hm : (found.map (·.call.observedAt.utc)).max? with
      | none => exact le_max_right _ _
      | some greatest =>
        obtain ⟨c, hin, he⟩ := List.mem_map.mp (List.max?_eq_some_iff.mp hm).1
        rw [Option.getD_some, ← he]
        exact (scopeCandidates_observed hf c hin).trans (le_max_left _ _)
    split at h
    · rename_i hle
      cases h
      have heq := le_antisymm hle (le_max_right _ _)
      dsimp only
      rw [heq]
      exact ⟨rfl, le_refl _⟩
    · rename_i hlt
      obtain ⟨later, hl, hp⟩ := bind_ok.mp h
      cases hp
      rw [mapError_ok] at hl
      refine ⟨readRepositoryContext_later (hread hb) horg (le_max_right _ _) ?_ hl,
        le_max_right _ _⟩
      rcases le_max_iff.mp hmax with hm | hm
      · rcases le_total wallMax context.asOf with hw | hw
        · exact absurd (max_le (hm.trans hw) (le_refl _)) hlt
        · exact max_le hm hw
      · exact absurd (max_le hm (le_refl _)) hlt

omit [WilsonScore] in
/-- What the reads of a share have returned where any repository is left to count. -/
theorem groupInputs_ok {provenance : Attributions.Provenance} {i : ShareInputs}
    (h : groupInputs s orgId policy scope context provenance = .ok i) (hg : i.groups ≠ []) :
    ∃ found, scopeCandidates s orgId (scopeGroups s orgId scope context).values.flatten
        policy.attribution scope.candidateLimit = .ok found ∧
      shareBoundary s orgId scope context found = .ok (i.context, i.asOf) ∧
      i.provenance = provenance ∧
      i.candidates =
        found.filter (fun candidate => candidate.call.observedAt.utc ≤ i.asOf) ∧
      i.groups = sortedBy (fun group => repositorySortKey group.1)
        (scopeGroups s orgId scope context).entries := by
  unfold groupInputs at h
  dsimp only at h
  split at h
  · cases h
    exact absurd rfl hg
  · obtain ⟨found, hf, h⟩ := bind_ok.mp h
    obtain ⟨bounded, hb, h⟩ := bind_ok.mp h
    obtain ⟨notes, -, h⟩ := bind_ok.mp h
    cases h
    exact ⟨found, mapError_ok.mp hf, hb, rfl, rfl, rfl⟩

omit [WilsonScore] in
theorem shareInputs_found {i : ShareInputs} (h : shareInputs s orgId policy scope = .ok i)
    (hg : i.groups ≠ []) :
    ∃ context found, scopeContext s orgId scope.attribution = .ok context ∧
      scopeCandidates s orgId (scopeGroups s orgId scope context).values.flatten
        policy.attribution scope.candidateLimit = .ok found ∧
      shareBoundary s orgId scope context found = .ok (i.context, i.asOf) ∧
      i.candidates =
        found.filter (fun candidate => candidate.call.observedAt.utc ≤ i.asOf) ∧
      i.groups = sortedBy (fun group => repositorySortKey group.1)
        (scopeGroups s orgId scope context).entries := by
  obtain ⟨-, -, h⟩ := bind_ok.mp h
  obtain ⟨context, hc, h⟩ := bind_ok.mp h
  obtain ⟨provenance, -, h⟩ := bind_ok.mp h
  obtain ⟨found, hf, hb, -, hcandidates, hgroups⟩ := groupInputs_ok h hg
  exact ⟨context, found, hc, hf, hb, hcandidates, hgroups⟩

omit [WilsonScore] in
theorem distinctIds_inputs {i : ShareInputs} (h : shareInputs s orgId policy scope = .ok i)
    (hg : i.groups ≠ []) : DistinctIds i.candidates := by
  obtain ⟨context, found, -, hf, -, hcandidates, -⟩ := shareInputs_found h hg
  obtain ⟨org, ho⟩ := scopeCandidates_org hf
  rw [hcandidates]
  exact (distinctIds_scopeCandidates ho hf).filter _

omit [WilsonScore] in
/-- Each group that the share counts holds the pushes of one repository under its context. -/
theorem shareInputs_groups {i : ShareInputs} (h : shareInputs s orgId policy scope = .ok i)
    {group : RepositoryKey × List Push} (hg : group ∈ i.groups) :
    group.2 ≠ [] ∧ RepositoryGroup i.context orgId i.asOf group.1 group.2 ∧
      i.context.orgId = orgId ∧ i.context.asOf = i.asOf := by
  obtain ⟨context, found, hc, hf, hb, -, hgroups⟩ := shareInputs_found h (List.ne_nil_of_mem hg)
  rw [hgroups, mem_sortedBy] at hg
  obtain ⟨hbounded, hle⟩ := shareBoundary_ok hc hf hb
  obtain ⟨horg, hboundary, hread⟩ := scopeContext_ok hc
  dsimp only at hbounded hle
  obtain ⟨key, pushes⟩ := group
  obtain ⟨hne, hpushes⟩ := mem_shareGroups.mp hg
  have hkey : ∀ p ∈ pushes, p ∈ scopePushes s orgId scope ∧
      (context.resolveFact p.project).key = some key := by
    intro p hp
    rw [hpushes, List.mem_filter, decide_eq_true_eq] at hp
    refine ⟨hp.1, ?_⟩
    revert hp
    cases hgp : groupPush context (scope.pushes.isSome && scope.repositoryContext.isNone) p with
    | error e => exact fun hp => nomatch hp.2
    | ok g =>
      rintro ⟨-, he⟩
      cases he
      exact (groupPush_ok.mp hgp).2.1
  have heligible : ∀ p ∈ scopePushes s orgId scope, p.orgId = orgId ∧
      ∀ boundary, scope.asOf.or (scope.repositoryContext.map (·.asOf)) = some boundary →
        p.capturedAt.utc ≤ boundary := by
    intro p hp
    simp only [scopePushes, orderedPushes, mem_sortedBy, List.mem_filter, decide_eq_true_eq] at hp
    refine ⟨hp.2.1, ?_⟩
    intro boundary hb
    rw [hb] at hp
    simpa using hp.2.2
  refine ⟨hne, ⟨?_, ?_, ?_⟩, ?_, ?_⟩
  · change pushes.Pairwise _
    rw [hpushes]
    exact (sortedBy_pairwise pushOrder _).sublist List.filter_sublist
  · intro p hp
    obtain ⟨hin, hk⟩ := hkey p hp
    refine ⟨(heligible p hin).1, ?_⟩
    cases hb : scope.asOf.or (scope.repositoryContext.map (·.asOf)) with
    | some boundary =>
      exact ((heligible p hin).2 boundary hb).trans ((hboundary boundary hb).ge.trans hle)
    | none => exact (resolveFact_captured (hread hb) hk).trans hle
  · intro p hp
    rw [hbounded]
    exact (hkey p hp).2
  · rw [hbounded]
    exact horg
  · rw [hbounded]

omit [WilsonScore] in
/-- A push has the same windows in the candidates of the share as in those that an attribution
of its repository would read. -/
theorem window_perm {i : ShareInputs} (h : shareInputs s orgId policy scope = .ok i)
    {group : RepositoryKey × List Push} (hg : group ∈ i.groups) {pushes : List Push}
    (hp : ∀ p ∈ pushes, p ∈ group.2) {read : List Candidate}
    (hr : scopeCandidates s orgId pushes policy.attribution none = .ok read) {push : Push}
    (hpush : push ∈ pushes) {minutes : Int}
    (hm : minutes ≤ max policy.attribution.jaccard.lookbackWindowMinutes
      policy.attribution.gitNotes.lookbackWindowMinutes) :
    (window (eligibleCandidates orgId (some i.asOf) i.candidates) push minutes
        policy.attribution).Perm
      (window (eligibleCandidates orgId (some i.asOf) read) push minutes policy.attribution) := by
  obtain ⟨context, found, -, hf, -, hcandidates, hgroups⟩ :=
    shareInputs_found h (List.ne_nil_of_mem hg)
  rw [hgroups, mem_sortedBy] at hg
  have hflat : push ∈ (scopeGroups s orgId scope context).values.flatten :=
    List.mem_flatten.mpr ⟨group.2, List.mem_map_of_mem hg, hp push hpush⟩
  obtain ⟨org, ho⟩ := scopeCandidates_org hf
  have hsame : ∀ c, c ∈ window found push minutes policy.attribution ↔
      c ∈ window read push minutes policy.attribution := by
    intro c
    rw [window_scopeCandidates ho hf hflat hm, window_scopeCandidates ho hr hpush hm]
  rw [hcandidates, List.perm_ext_iff_of_nodup]
  · intro c
    have hc := hsame c
    simp only [window, eligibleCandidates, List.mem_filter, decide_eq_true_eq] at hc ⊢
    simp only [Option.all_some, decide_eq_true_eq]
    tauto
  · exact (((nodup_scopeCandidates hf).filter _).filter _).filter _
  · exact ((nodup_scopeCandidates hr).filter _).filter _

/-- The last capture of a group, and its pushes in the days before. -/
def groupEnd (pushes : List Push) : Int := (pushes.map (·.capturedAt.utc)).getLast?.getD 0

def groupWindow (policy : AttributionSharePolicy) (pushes : List Push) : List Push :=
  windowPushes (groupEnd pushes) policy.windowDays pushes

omit [Interpreter] [Collation] [StoredBytes] [WilsonScore] in
theorem groupWindow_ne_nil {pushes : List Push} (hne : pushes ≠ []) :
    groupWindow policy pushes ≠ [] := by
  have hend : groupEnd pushes = (pushes.getLast hne).capturedAt.utc := by
    rw [groupEnd, List.getLast?_map, List.getLast?_eq_some_getLast hne]
    rfl
  apply List.ne_nil_of_mem (a := pushes.getLast hne)
  rw [groupWindow, windowPushes, List.mem_filter, hend]
  refine ⟨List.getLast_mem hne, ?_⟩
  have hspan : 0 ≤ policy.windowDays * dayMicros :=
    mul_nonneg policy.window.le (by decide)
  rw [Bool.and_eq_true, decide_eq_true_eq, decide_eq_true_eq]
  exact ⟨by omega, le_refl _⟩

/-- The scope of the attributions of one repository's window. -/
def shareScope (policy : AttributionSharePolicy) (i : ShareInputs)
    (found : Option (List Candidate)) (group : RepositoryKey × List Push) : Scope :=
  windowScope i.context i.asOf found (repositoryNotes i.explicit i.captured group.1)
    (groupWindow policy group.2)

omit [Interpreter] [Collation] [StoredBytes] [WilsonScore] in
theorem repositoryNotes_none {i : ShareInputs} {key : RepositoryKey}
    (h : repositoryNotes i.explicit i.captured key = none) : isIdentified key = false := by
  unfold repositoryNotes at h
  cases hk : isIdentified key with
  | false => rfl
  | true =>
    rw [hk] at h
    cases he : i.explicit <;> rw [he] at h <;> cases h

omit [WilsonScore] in
/-- The attributions of a window are those of its claims, whether the candidates are supplied
or read for it. -/
theorem derive_shareScope {i : ShareInputs} (h : shareInputs s orgId policy scope = .ok i)
    {group : RepositoryKey × List Push} (hg : group ∈ i.groups) {mirror : RepoMirror}
    (hm : mirrors group.1 = some mirror) {found : Option (List Candidate)}
    (hf : found = none ∨ found = some i.candidates) {attributed : AttributionResult}
    (ha : deriveAttributionResult s mirrors orgId policy.attribution scorer
      (shareScope policy i found group) = .ok attributed) :
    ∃ provenance, stampProvenance s orgId policy.attribution.policyVersion none = .ok provenance ∧
      attributed.attributions = claimed scorer policy.attribution
        (eligibleCandidates orgId (some i.asOf) i.candidates)
        (repositoryNotes i.explicit i.captured group.1) provenance mirror i.context group.1
        (groupWindow policy group.2) := by
  obtain ⟨hne, hgroup, horg, hasOf⟩ := shareInputs_groups h hg
  have hsub : ∀ p ∈ groupWindow policy group.2, p ∈ group.2 :=
    fun p hp => List.mem_of_mem_filter hp
  have hkept : RepositoryGroup i.context orgId i.asOf group.1 (groupWindow policy group.2) :=
    hgroup.sublist List.filter_sublist
  rw [shareScope, derive_repository s mirrors policy.attribution scorer found hkept
    (groupWindow_ne_nil hne) horg hasOf repositoryNotes_none] at ha
  obtain ⟨provenance, hprovenance, ha⟩ := bind_ok.mp ha
  refine ⟨provenance, hprovenance, ?_⟩
  rcases hf with rfl | rfl
  · cases hread : scopeCandidates s orgId (groupWindow policy group.2) policy.attribution none with
    | error e =>
      simp [foundCandidates, windowScope, resolvedAs, Function.comp_def, hread, Except.map,
        Except.mapError] at ha
    | ok read =>
      simp only [foundCandidates, windowScope, resolvedAs, List.map_map, Function.comp_def,
        List.map_id', hread, Except.map, Except.mapError, Except.ok.injEq] at ha
      rw [← ha]
      rw [repositoryResult_attributions hm]
      symm
      apply claimed_windows
      · exact (distinctIds_inputs h (List.ne_nil_of_mem hg)).filter _
      · intro push hpush minutes hminutes
        exact window_perm h hg hsub hread hpush hminutes
  · cases ha
    exact repositoryResult_attributions hm

/-- The share of a group whose window has attributions. -/
def countedShare (orgId : String) (policy : AttributionSharePolicy) (i : ShareInputs)
    (group : RepositoryKey × List Push) (repo : String) (mirror : RepoMirror)
    (attributed : AttributionResult) : AttributionShareResult where
  rows := shareRow orgId policy i.provenance group.1 repo (groupEnd group.2)
    ((groupWindow policy group.2).foldl (tallyPush mirror policy.attribution i.candidates
      (repositoryNotes i.explicit i.captured group.1) group.1 (shareSources attributed)) {})
  skipped := attributed.skipped

theorem repositoryShare_eq (i : ShareInputs) {group : RepositoryKey × List Push}
    (hne : group.2 ≠ []) :
    repositoryShare s mirrors orgId policy scorer i group =
      ((i.context.repoFor group.1).mapError .label).bind (fun repo =>
        (mirrors group.1).elim
          (.ok { skipped := Multiset.replicate (groupWindow policy group.2).length .mirrorAbsent })
          (fun mirror => (deriveAttributionResult s mirrors orgId policy.attribution scorer
            (shareScope policy i (some i.candidates) group)).map
              (countedShare orgId policy i group repo mirror))) := by
  have hwindow : windowPushes ((group.2.map (·.capturedAt.utc)).getLast?.getD 0)
      policy.windowDays group.2 ≠ [] := groupWindow_ne_nil hne
  unfold repositoryShare shareRepository
  dsimp only
  cases (i.context.repoFor group.1).mapError AttributionError.label with
  | error e => rfl
  | ok repo =>
    rw [ok_bind]
    change _ = Option.elim _ _ _
    rw [if_neg hwindow]
    cases mirrors group.1 with
    | none =>
      simp only [zero_add]
      rfl
    | some mirror =>
      simp only [List.nil_append, zero_add]
      change (deriveAttributionResult s mirrors orgId policy.attribution scorer
        (shareScope policy i (some i.candidates) group) >>= _) = Except.map _
          (deriveAttributionResult s mirrors orgId policy.attribution scorer
            (shareScope policy i (some i.candidates) group))
      cases deriveAttributionResult s mirrors orgId policy.attribution scorer
          (shareScope policy i (some i.candidates) group) with
      | error e => rfl
      | ok attributed => rfl

/-- What a share says of the repository of a group: nothing, where nothing is attributed, or a
row that counts every attributed commit. -/
def Counted (group : RepositoryKey × List Push) (attributions : List Attribution)
    (rows : List RepoAttributionShare) : Prop :=
  (attributions = [] ∧ rows = []) ∨
    ∃ row, rows = [row] ∧ row.repositoryIdentity = identityOf group.1 ∧
      row.windowEnd = groupEnd group.2 ∧ ∃ commits, Counts attributions row commits

theorem repositoryShare_counted {i : ShareInputs} (h : shareInputs s orgId policy scope = .ok i)
    {group : RepositoryKey × List Push} (hg : group ∈ i.groups) {mirror : RepoMirror}
    (hm : mirrors group.1 = some mirror) {out : AttributionShareResult}
    (ho : repositoryShare s mirrors orgId policy scorer i group = .ok out)
    {found : Option (List Candidate)} (hf : found = none ∨ found = some i.candidates)
    {attributed : AttributionResult}
    (ha : deriveAttributionResult s mirrors orgId policy.attribution scorer
      (shareScope policy i found group) = .ok attributed) :
    Counted group attributed.attributions out.rows := by
  obtain ⟨hne, -, -, -⟩ := shareInputs_groups h hg
  rw [repositoryShare_eq i hne, hm] at ho
  obtain ⟨repo, -, ho⟩ := bind_ok.mp ho
  rw [Option.elim_some] at ho
  cases hown : deriveAttributionResult s mirrors orgId policy.attribution scorer
      (shareScope policy i (some i.candidates) group) with
  | error e =>
    rw [hown] at ho
    cases ho
  | ok own =>
  rw [hown] at ho
  cases ho
  obtain ⟨provenance, hp, hattributed⟩ := derive_shareScope h hg hm hf ha
  obtain ⟨provenance', hp', hattributed'⟩ := derive_shareScope h hg hm (Or.inr rfl) hown
  rw [hp] at hp'
  cases hp'
  have hsame : attributed.attributions = own.attributions := hattributed.trans hattributed'.symm
  have hkeeps : ∀ a ∈ own.attributions, a.commitSha ∈ plausibleCommits mirror
      policy.attribution i.candidates (repositoryNotes i.explicit i.captured group.1) group.1
      (groupWindow policy group.2) := by
    intro a hin
    rw [hattributed'] at hin
    exact attributed_plausible repositoryNotes_none hin
  unfold Counted countedShare shareRow
  rw [hsame]
  dsimp only
  split
  · rename_i hzero
    left
    refine ⟨?_, rfl⟩
    have hcount := (foldl_tallyPush mirror policy.attribution i.candidates
      (repositoryNotes i.explicit i.captured group.1) group.1 (shareSources own)
      (groupWindow policy group.2)).1
    rw [List.eq_nil_iff_forall_not_mem]
    intro a hin
    have hkept := List.length_pos_of_mem (hkeeps a hin)
    rw [← hcount] at hkept
    exact absurd hzero hkept.ne'
  · right
    refine ⟨_, rfl, rfl, rfl, _, counts_of_tally hkeeps ?_⟩
    rintro tally rfl
    exact ⟨rfl, rfl, rfl, rfl⟩

/-- The rows of a share are those of its repositories. -/
theorem derive_ok {out : AttributionShareResult}
    (h : deriveAttributionShareResult s mirrors orgId policy scorer scope = .ok out) :
    ∃ i, shareInputs s orgId policy scope = .ok i ∧
      (∀ group ∈ i.groups, ∃ part,
        repositoryShare s mirrors orgId policy scorer i group = .ok part ∧
        ∀ row ∈ part.rows, row ∈ out.rows) ∧
      ∀ row ∈ out.rows, ∃ group ∈ i.groups, ∃ part,
        repositoryShare s mirrors orgId policy scorer i group = .ok part ∧ row ∈ part.rows := by
  rw [derive_eq] at h
  obtain ⟨i, hi, h⟩ := bind_ok.mp h
  refine ⟨i, hi, ?_⟩
  cases hm : i.groups.mapM (repositoryShare s mirrors orgId policy scorer i) with
  | error e =>
    rw [hm] at h
    cases h
  | ok parts =>
    rw [hm] at h
    cases h
    constructor
    · intro group hg
      have hpart : ∃ part, repositoryShare s mirrors orgId policy scorer i group = .ok part := by
        cases hp : repositoryShare s mirrors orgId policy scorer i group with
        | ok part => exact ⟨part, rfl⟩
        | error e => exact absurd hp (not_error_of_forall₂ (forall₂_of_mapM_ok hm) hg)
      obtain ⟨part, hp⟩ := hpart
      refine ⟨part, hp, fun row hr => List.mem_flatMap.mpr ⟨part, ?_, hr⟩⟩
      exact (mem_of_mapM_ok hm part).mpr ⟨group, hg, hp⟩
    · intro row hr
      obtain ⟨part, hpart, hr⟩ := List.mem_flatMap.mp hr
      obtain ⟨group, hg, hp⟩ := (mem_of_mapM_ok hm part).mp hpart
      exact ⟨group, hg, part, hp, hr⟩

/-- A row of a repository counts the attributions of its window. -/
theorem row_counts {i : ShareInputs} (h : shareInputs s orgId policy scope = .ok i)
    {group : RepositoryKey × List Push} (hg : group ∈ i.groups) {part : AttributionShareResult}
    (hp : repositoryShare s mirrors orgId policy scorer i group = .ok part)
    {row : RepoAttributionShare} (hr : row ∈ part.rows) :
    ∃ attributions commits, Counts attributions row commits := by
  obtain ⟨hne, -, -, -⟩ := shareInputs_groups h hg
  have heq := hp
  rw [repositoryShare_eq i hne] at heq
  obtain ⟨repo, -, heq⟩ := bind_ok.mp heq
  cases hm : mirrors group.1 with
  | none =>
    rw [hm] at heq
    cases heq
    cases hr
  | some mirror =>
    rw [hm, Option.elim_some] at heq
    cases hown : deriveAttributionResult s mirrors orgId policy.attribution scorer
        (shareScope policy i (some i.candidates) group) with
    | error e =>
      rw [hown] at heq
      cases heq
    | ok own =>
      rcases repositoryShare_counted h hg hm hp (Or.inr rfl) hown with ⟨-, hnil⟩ | hcounted
      · rw [hnil] at hr
        cases hr
      · obtain ⟨counted, hrows, -, -, commits, hcounts⟩ := hcounted
        rw [hrows, List.mem_singleton] at hr
        exact ⟨own.attributions, commits, hr ▸ hcounts⟩

end

end

end Sediment.Proofs.ShareRuns
