import Sediment.Proofs.ShareRuns

namespace Sediment.Proofs.ShareOrder
open Base Sediment.Core Sediment.Derive Sediment.Derive.Attributions
open Sediment.Derive.AttributionShare Base.Claims
open Base.JsonScan (codePoints)
open Sediment.Export (AttributionSource)
open Sediment.Proofs.RepositoryContext Sediment.Proofs.RepositoryOrder
open Sediment.Proofs.AttributionMatch Sediment.Proofs.AttributionWalk
open Sediment.Proofs.AttributionShare Sediment.Proofs.ContextReads Sediment.Proofs.ShareRuns

/-- Snapshots with the same rows. -/
structure SameSnapshot (s s' : Snapshot) : Prop where
  repositories : s.repositories = s'.repositories
  calls : s.calls.calls.Perm s'.calls.calls
  pushes : s.pushes.Perm s'.pushes
  observations : s.observations = s'.observations

def SameMirrors (mirrors mirrors' : Mirrors) : Prop :=
  ∀ key, Option.Rel SameMirror (mirrors key) (mirrors' key)

/-- Scopes that supply the same pushes. -/
structure SameScope (scope scope' : ShareScope) : Prop where
  pushes : Option.Rel List.Perm scope.pushes scope'.pushes
  rest : scope' = { scope with pushes := scope'.pushes }

/-- Groups of one repository with the same pushes. -/
def SameGroup (a b : RepositoryKey × List Push) : Prop := a.1 = b.1 ∧ a.2.Perm b.2

structure SameInputs (i i' : ShareInputs) : Prop where
  provenance : i.provenance = i'.provenance
  context : SameContext i.context i'.context
  asOf : i.asOf = i'.asOf
  candidates : i.candidates.Perm i'.candidates
  explicit : i.explicit = i'.explicit
  captured : i.captured = i'.captured
  groups : List.Forall₂ SameGroup i.groups i'.groups
  skipped : i.skipped = i'.skipped

theorem SameSnapshot.symm {s s' : Snapshot} (h : SameSnapshot s s') : SameSnapshot s' s :=
  ⟨h.repositories.symm, h.calls.symm, h.pushes.symm, h.observations.symm⟩

section
variable {scope scope' : ShareScope}

theorem SameScope.asOf (h : SameScope scope scope') : scope'.asOf = scope.asOf := by
  rw [h.rest]

theorem SameScope.repositoryContext (h : SameScope scope scope') :
    scope'.repositoryContext = scope.repositoryContext := by
  rw [h.rest]

theorem SameScope.noteSessionsByCommit (h : SameScope scope scope') :
    scope'.noteSessionsByCommit = scope.noteSessionsByCommit := by
  rw [h.rest]

theorem SameScope.noteSessionIdsByCommit (h : SameScope scope scope') :
    scope'.noteSessionIdsByCommit = scope.noteSessionIdsByCommit := by
  rw [h.rest]

theorem SameScope.symm (h : SameScope scope scope') :
    SameScope scope' scope where
  pushes := by
    have hrel := h.pushes
    revert hrel
    cases scope.pushes <;> cases scope'.pushes <;> intro hrel
    · exact .none
    · cases hrel
    · cases hrel
    · cases hrel with
      | some hp => exact .some hp.symm
  rest := by rw [h.rest]

end

theorem forall₂_of_keys {α β κ : Type} {key : α → κ} {key' : β → κ} {R : α → β → Prop}
    {as : List α} {bs : List β} (h : as.map key = bs.map key')
    (hr : ∀ a ∈ as, ∀ b ∈ bs, key a = key' b → R a b) : List.Forall₂ R as bs := by
  induction as generalizing bs with
  | nil =>
    cases bs with
    | nil => exact .nil
    | cons b bs => cases h
  | cons a as ih =>
    cases bs with
    | nil => cases h
    | cons b bs =>
      rw [List.map_cons, List.map_cons, List.cons.injEq] at h
      exact .cons (hr a (by simp) b (by simp) h.1)
        (ih h.2 (fun x hx y hy => hr x (by simp [hx]) y (by simp [hy])))

theorem max?_congr {xs ys : List Int} (h : ∀ x, x ∈ xs ↔ x ∈ ys) : xs.max? = ys.max? := by
  apply Option.ext
  intro v
  simp only [List.max?_eq_some_iff, h]

theorem min?_congr {xs ys : List Int} (h : ∀ x, x ∈ xs ↔ x ∈ ys) : xs.min? = ys.min? := by
  apply Option.ext
  intro v
  simp only [List.min?_eq_some_iff, h]

section
variable [Interpreter] [Collation] [StoredBytes] {s s' : Snapshot} {orgId : String}
  {policy : AttributionSharePolicy} {scope scope' : ShareScope}
  {context context' : RepositoryContext}

omit [Interpreter] [StoredBytes] in
theorem scopePushes_perm (hs : SameSnapshot s s') (hc : SameScope scope scope') :
    (scopePushes s orgId scope).Perm (scopePushes s' orgId scope') := by
  have hread : (s.readPushes orgId).Perm (s'.readPushes orgId) := by
    unfold Snapshot.readPushes orderBy
    rw [hs.repositories]
    exact (List.perm_insertionSort _ _).trans ((hs.pushes.filter _).trans
      (List.perm_insertionSort _ _).symm)
  have hpushes : (scope.pushes.getD (s.readPushes orgId)).Perm
      (scope'.pushes.getD (s'.readPushes orgId)) := by
    have hrel := hc.pushes
    revert hrel
    cases scope.pushes <;> cases scope'.pushes <;> intro hrel
    · exact hread
    · cases hrel
    · cases hrel
    · cases hrel with
      | some hp => exact hp
  unfold scopePushes orderedPushes
  rw [hc.rest]
  exact (sortedBy_perm _ _).trans ((hpushes.filter _).trans (sortedBy_perm _ _).symm)

omit [StoredBytes] [Collation] in
theorem groupPush_congr (h : SameContext context context') (preloaded : Bool) :
    groupPush context preloaded = groupPush context' preloaded := by
  funext push
  unfold groupPush
  rw [h.resolveFact]

omit [Interpreter] [Collation] [StoredBytes] in
theorem preloaded_congr (hc : SameScope scope scope') :
    (scope.pushes.isSome && scope.repositoryContext.isNone) =
      (scope'.pushes.isSome && scope'.repositoryContext.isNone) := by
  have hrel := hc.pushes
  rw [hc.rest]
  revert hrel
  cases scope.pushes <;> cases scope'.pushes <;> intro hrel
  · rfl
  · cases hrel
  · cases hrel
  · rfl

omit [StoredBytes] in
theorem scopeGroups_congr (hs : SameSnapshot s s') (hc : SameScope scope scope')
    (h : SameContext context context') :
    (∀ key group, (key, group) ∈ (scopeGroups s orgId scope context).entries →
      ∃ group', (key, group') ∈ (scopeGroups s' orgId scope' context').entries ∧
        group.Perm group') := by
  intro key group hg
  obtain ⟨hne, hgroup⟩ := mem_shareGroups.mp hg
  have hp := @scopePushes_perm _ _ _ orgId _ _ hs hc
  rw [preloaded_congr hc, groupPush_congr h] at hgroup
  rw [hgroup] at hne ⊢
  have hperm := hp.filter (fun push => decide ((groupPush context'
    (scope'.pushes.isSome && scope'.repositoryContext.isNone) push).toOption = some (key, push)))
  refine ⟨_, mem_shareGroups.mpr ⟨?_, rfl⟩, hperm⟩
  intro hnil
  rw [hnil] at hperm
  exact hne hperm.eq_nil

omit [StoredBytes] in
theorem scopeKeys_perm (hs : SameSnapshot s s') (hc : SameScope scope scope')
    (h : SameContext context context') :
    (scopeGroups s orgId scope context).keys.Perm (scopeGroups s' orgId scope' context').keys := by
  have hmem : ∀ key, key ∈ (scopeGroups s orgId scope context).keys ↔
      key ∈ (scopeGroups s' orgId scope' context').keys := by
    intro key
    rw [Dict.keys, Dict.keys, List.mem_map, List.mem_map]
    constructor
    · rintro ⟨⟨key, group⟩, hg, rfl⟩
      obtain ⟨group', hg', -⟩ := scopeGroups_congr hs hc h key group hg
      exact ⟨(key, group'), hg', rfl⟩
    · rintro ⟨⟨key, group⟩, hg, rfl⟩
      obtain ⟨group', hg', -⟩ := scopeGroups_congr hs.symm hc.symm h.symm key group hg
      exact ⟨(key, group'), hg', rfl⟩
  exact (List.perm_ext_iff_of_nodup (Dict.nodup_keys _) (Dict.nodup_keys _)).mpr hmem

omit [StoredBytes] in
theorem entries_forall₂ (hs : SameSnapshot s s') (hc : SameScope scope scope')
    (h : SameContext context context') :
    List.Forall₂ SameGroup
      (sortedBy (fun group => repositorySortKey group.1)
        (scopeGroups s orgId scope context).entries)
      (sortedBy (fun group => repositorySortKey group.1)
        (scopeGroups s' orgId scope' context').entries) := by
  have hsorted : (sortedBy (fun group => repositorySortKey group.1)
        (scopeGroups s orgId scope context).entries).map Prod.fst =
      (sortedBy (fun group => repositorySortKey group.1)
        (scopeGroups s' orgId scope' context').entries).map Prod.fst := by
    rw [← @sortedBy_map _ _ _ repositorySortKey _ Prod.fst,
      ← @sortedBy_map _ _ _ repositorySortKey _ Prod.fst]
    exact sortedBy_congr (scopeKeys_perm hs hc h) (fun _ _ _ _ he => repositorySortKey_injective he)
  apply forall₂_of_keys hsorted
  rintro ⟨key, group⟩ hg ⟨key', group'⟩ hg' (rfl : key = key')
  rw [mem_sortedBy] at hg hg'
  obtain ⟨other, ho, hp⟩ := scopeGroups_congr hs hc h key group hg
  have heq : other = group' := Option.some.inj
    ((Dict.mem_entries_iff _ |>.mp ho).symm.trans (Dict.mem_entries_iff _ |>.mp hg'))
  exact ⟨rfl, heq ▸ hp⟩

omit [Interpreter] [Collation] in
theorem checkInferencePayloadBudget_perm {rows rows' : List InferenceCall}
    (hp : rows.Perm rows') (limit : Option Nat) :
    checkInferencePayloadBudget limit rows = checkInferencePayloadBudget limit rows' := by
  unfold checkInferencePayloadBudget
  rw [hp.length_eq, hp.any_eq, (hp.map StoredBytes.outputMessages).sum_eq]

omit [Interpreter] [StoredBytes] [Collation] in
theorem latestAction_congr (hs : SameSnapshot s s') :
    s.calls.latestAction = s'.calls.latestAction := by
  funext call
  unfold CallStore.latestAction
  rw [s.quarantined, s'.quarantined, hs.repositories]

theorem readAttributionCandidates_perm (hs : SameSnapshot s s') (lower upper : Int)
    (limit : Option Nat) :
    Agree List.Perm (s.readAttributionCandidates orgId lower upper limit none)
      (s'.readAttributionCandidates orgId lower upper limit none) := by
  have hrows : ∀ (le : InferenceCall → InferenceCall → Bool) (keep : InferenceCall → Bool),
      (orderBy le (s.calls.calls.filter keep)).Perm (orderBy le (s'.calls.calls.filter keep)) :=
    fun le keep => (List.perm_insertionSort _ _).trans
      ((hs.calls.filter keep).trans (List.perm_insertionSort _ _).symm)
  unfold Snapshot.readAttributionCandidates
  apply Agree.bind (Agree.refl (R := Eq) (fun _ => rfl) _)
  rintro org _ rfl
  apply Agree.bind (Agree.refl (R := Eq) (fun _ => rfl) _)
  rintro _ _ rfl
  apply Agree.bind (Agree.refl (R := Eq) (fun _ => rfl) _)
  rintro named _ rfl
  dsimp only
  rw [latestAction_congr hs, checkInferencePayloadBudget_perm (hrows _ _) limit]
  apply Agree.bind (Agree.refl (R := Eq) (fun _ => rfl) _)
  rintro _ _ rfl
  exact hrows _ _

theorem scopeCandidates_perm (hs : SameSnapshot s s') {pushes pushes' : List Push}
    (hp : ∀ p, p ∈ pushes ↔ p ∈ pushes') (attribution : AttributionPolicy) (limit : Option Nat) :
    Agree List.Perm (scopeCandidates s orgId pushes attribution limit)
      (scopeCandidates s' orgId pushes' attribution limit) := by
  have hcaptures : ∀ x, x ∈ pushes.map (·.capturedAt.utc) ↔ x ∈ pushes'.map (·.capturedAt.utc) := by
    intro x
    simp only [List.mem_map, hp]
  unfold scopeCandidates
  dsimp only
  rw [min?_congr hcaptures, max?_congr hcaptures]
  apply Agree.bind (readAttributionCandidates_perm hs _ _ limit)
  intro calls calls' hcalls
  exact hcalls.map tokenized

omit [StoredBytes] [Interpreter] [Collation] in
theorem legacySupplements_perm {pushes pushes' : Option (List Push)}
    (h : Option.Rel List.Perm pushes pushes') :
    (legacySupplements pushes).Perm (legacySupplements pushes') := by
  cases h with
  | none => exact List.Perm.refl _
  | some hp => exact (hp.filter _).map _

omit [StoredBytes] in
theorem scopeContext_congr (hs : SameSnapshot s s') (hc : SameScope scope scope') :
    Agree SameContext (scopeContext s orgId scope.attribution)
      (scopeContext s' orgId scope'.attribution) := by
  have hcheck : ∀ (boundary : Option Int) (c d : RepositoryContext), SameContext c d →
      Agree SameContext
        (if c.orgId ≠ orgId ∨ boundary.any (c.asOf ≠ ·) then throw .contextMismatch
          else pure c : Except AttributionError RepositoryContext)
        (if d.orgId ≠ orgId ∨ boundary.any (d.asOf ≠ ·) then throw .contextMismatch
          else pure d : Except AttributionError RepositoryContext) := by
    intro boundary c d h
    rw [h.orgId, h.asOf]
    split
    · trivial
    · exact h
  unfold scopeContext ShareScope.attribution
  dsimp only
  rw [hc.asOf, hc.repositoryContext, hs.repositories]
  cases scope.repositoryContext with
  | some given => exact hcheck _ given given (SameContext.refl given)
  | none =>
    apply Agree.bind (Agree.mapError (readRepositoryContext_perm _
      (legacySupplements_perm hc.pushes)) _)
    exact hcheck _

omit [StoredBytes] in
theorem shareBoundary_congr (hs : SameSnapshot s s') (hc : SameScope scope scope')
    (h : SameContext context context') {found found' : List Candidate} (hf : found.Perm found') :
    Agree (fun b b' => SameContext b.1 b'.1 ∧ b.2 = b'.2) (shareBoundary s orgId scope context found)
      (shareBoundary s' orgId scope' context' found') := by
  have hmax := max?_congr (fun x => (hf.map (·.call.observedAt.utc)).mem_iff (a := x))
  unfold shareBoundary
  dsimp only
  rw [hc.asOf, hc.repositoryContext, hs.repositories, hmax, h.asOf]
  cases scope.asOf.or (scope.repositoryContext.map (·.asOf)) with
  | some boundary => exact ⟨h, rfl⟩
  | none =>
    dsimp only
    split
    · exact ⟨h, rfl⟩
    · apply Agree.bind (Agree.mapError (readRepositoryContext_perm _
        (legacySupplements_perm hc.pushes)) _)
      intro c d hcd
      exact ⟨hcd, rfl⟩

omit [StoredBytes] [Collation] in
theorem bindings_congr (h : SameContext context context')
    (observations : List Export.SessionCommitObservation) (asOf : Int) :
    bindSessionCommitKeysResult context observations orgId asOf =
      bindSessionCommitKeysResult context' observations orgId asOf := by
  unfold bindSessionCommitKeysResult observedEdge declinedReason
  rw [h.orgId, h.asOf]
  simp only [h.resolveFact]

omit [StoredBytes] [Collation] in
theorem shareNotes_congr (hs : SameSnapshot s s') (hc : SameScope scope scope')
    (h : SameContext context context') {keys keys' : List RepositoryKey} (hk : keys.Perm keys') :
    shareNotes s orgId scope context keys = shareNotes s' orgId scope' context' keys' := by
  have hentry : qualifyEntry context orgId = qualifyEntry context' orgId := by
    funext entry
    unfold qualifyEntry
    rw [h.toSameNames.resolveReference]
  unfold shareNotes qualifyLegacyNoteSessions Snapshot.readSessionCommitObservations
  rw [hc.noteSessionsByCommit, hc.noteSessionIdsByCommit, hentry, hk.any_eq, h.asOf,
    bindings_congr h, hs.repositories,
    hs.observations]

omit [StoredBytes] in
theorem mem_grouped (hs : SameSnapshot s s') (hc : SameScope scope scope')
    (h : SameContext context context') {p : Push}
    (hp : p ∈ (scopeGroups s orgId scope context).values.flatten) :
    p ∈ (scopeGroups s' orgId scope' context').values.flatten := by
  obtain ⟨group, hg, hin⟩ := List.mem_flatten.mp hp
  obtain ⟨entry, he, rfl⟩ := List.mem_map.mp hg
  obtain ⟨group', hg', hperm⟩ := scopeGroups_congr hs hc h entry.1 entry.2 he
  exact List.mem_flatten.mpr ⟨group', List.mem_map_of_mem (f := Prod.snd) hg', hperm.mem_iff.mp hin⟩

omit [StoredBytes] in
theorem scopeDeclined_congr (hs : SameSnapshot s s') (hc : SameScope scope scope')
    (h : SameContext context context') :
    scopeDeclined s orgId scope context = scopeDeclined s' orgId scope' context' := by
  unfold scopeDeclined declinedGroup
  rw [preloaded_congr hc, groupPush_congr h]
  exact Multiset.coe_eq_coe.mpr ((scopePushes_perm hs hc).filterMap _)

/-- The share reads the same in any order of the rows and of the supplied pushes. -/
theorem shareInputs_congr (hs : SameSnapshot s s') (hc : SameScope scope scope') :
    Agree SameInputs (shareInputs s orgId policy scope) (shareInputs s' orgId policy scope') := by
  unfold shareInputs
  rw [hc.noteSessionsByCommit, hc.noteSessionIdsByCommit]
  apply Agree.bind (Agree.refl (R := Eq) (fun _ => rfl) _)
  rintro _ _ rfl
  apply Agree.bind (scopeContext_congr hs hc)
  intro context context' h
  have hstamp : stampProvenance s orgId policy.policyVersion none =
      stampProvenance s' orgId policy.policyVersion none := by
    unfold stampProvenance Snapshot.quarantineRevision
    rw [hs.repositories]
  rw [hstamp]
  apply Agree.bind (Agree.refl (R := Eq) (fun _ => rfl) _)
  rintro provenance _ rfl
  have hmem : ∀ p, p ∈ (scopeGroups s orgId scope context).values.flatten ↔
      p ∈ (scopeGroups s' orgId scope' context').values.flatten :=
    fun p => ⟨mem_grouped hs hc h, mem_grouped hs.symm hc.symm h.symm⟩
  have hempty : (scopeGroups s orgId scope context).values.flatten = [] ↔
      (scopeGroups s' orgId scope' context').values.flatten = [] := by
    simp only [List.eq_nil_iff_forall_not_mem, hmem]
  unfold groupInputs
  dsimp only
  rw [scopeDeclined_congr hs hc h]
  by_cases hnil : (scopeGroups s' orgId scope' context').values.flatten = []
  · rw [if_pos hnil, if_pos (hempty.mpr hnil)]
    exact ⟨rfl, h, h.asOf, List.Perm.refl _, rfl, rfl, .nil, rfl⟩
  · rw [if_neg hnil, if_neg (fun he => hnil (hempty.mp he))]
    have hlimit : scope'.candidateLimit = scope.candidateLimit := by rw [hc.rest]
    rw [hlimit]
    apply Agree.bind (Agree.mapError (scopeCandidates_perm hs hmem _ _) _)
    intro found found' hf
    apply Agree.bind (shareBoundary_congr hs hc h hf)
    rintro ⟨later, asOf⟩ ⟨later', asOf'⟩ ⟨hl, hasOf⟩
    dsimp only at hl hasOf
    subst hasOf
    rw [shareNotes_congr hs hc hl (scopeKeys_perm hs hc h)]
    apply Agree.bind (Agree.refl (R := Eq) (fun _ => rfl) _)
    rintro notes _ rfl
    exact ⟨rfl, hl, rfl, hf.filter _, rfl, rfl, entries_forall₂ hs hc h, rfl⟩

end

section
variable [Interpreter] {c d : RepositoryContext} {orgId : String} {asOf : Int}
  {key : RepositoryKey} {pushes pushes' : List Push} {mirror mirror' : RepoMirror}
  {attribution : AttributionPolicy}

theorem SameContext.repoFor (h : SameContext c d) (key : RepositoryKey) :
    c.repoFor key = d.repoFor key := by
  unfold RepositoryContext.repoFor
  rw [h.toSameNames.observedRepoSlugs]
  simp only [h.toSameNames.resolveReference]

/-- A Fact that resolves is resolved by its table, its id and its role. -/
theorem resolveFact_source {fact : RepositoryIdentityEvidence}
    (h : (c.resolveFact fact).key = some key) :
    c.resolveFact fact = c.resolveSource fact.sourceTable fact.sourceFactId fact.role := by
  unfold RepositoryContext.resolveFact at h ⊢
  split at h
  · cases h
  · rename_i projection hp
    cases validateEvidence_ok hp
    dsimp only at h ⊢
    split at h
    · rename_i hconflict
      rw [if_pos hconflict]
    · rename_i hconflict
      rw [if_neg hconflict]
      split at h
      · cases h
      · split at h
        · cases h
        · rename_i hs
          rw [if_neg hs]

/-- The windows of a group in either order. -/
structure SameWindow (c d : RepositoryContext) (orgId : String) (asOf : Int) (key : RepositoryKey)
    (pushes pushes' : List Push) : Prop where
  context : SameContext c d
  left : RepositoryGroup c orgId asOf key pushes
  right : RepositoryGroup d orgId asOf key pushes'
  perm : pushes.Perm pushes'

theorem SameWindow.claimant (h : SameWindow c d orgId asOf key pushes pushes') {p q : Push}
    (hp : p ∈ pushes) (hq : q ∈ pushes') (ho : pushOrder p = pushOrder q) :
    SameClaimant (resolvedAs c key p) (resolvedAs d key q) := by
  have hid : p.pushId = q.pushId := congrArg (fun o : Int ×ₗ String => (ofLex o).2) ho
  refine ⟨rfl, ?_, ?_, ho⟩
  · change (c.resolveFact p.project).repo = (d.resolveFact q.project).repo
    have hq' := h.right.resolved q hq
    rw [← h.context.resolveFact] at hq' ⊢
    rw [resolveFact_source (h.left.resolved p hp), resolveFact_source hq']
    change (c.resolveSource .pushes p.pushId .repo).repo =
      (c.resolveSource .pushes q.pushId .repo).repo
    rw [hid]
  · exact (h.left.eligible p hp).1.trans (h.right.eligible q hq).1.symm

/-- What is read off the claims of a window does not depend on its order. -/
theorem SameWindow.map_claims (h : SameWindow c d orgId asOf key pushes pushes')
    (hm : SameMirror mirror mirror') {γ : Type} {f g : Push × String → γ}
    (hfg : ∀ p ∈ pushes, ∀ q ∈ pushes', ∀ sha, pushOrder p = pushOrder q →
      f (p, sha) = g (q, sha)) :
    ((claims (commits mirror attribution) pushes).map f).Perm
      ((claims (commits mirror' attribution) pushes').map g) := by
  have hkeys := @claims_perm _ _ _ _ _ (commits mirror attribution)
    (commits mirror' attribution) _ _ pushOrder h.perm
    (fun p _ => listPushCommits_perm hm p _) h.left.sorted h.right.sorted
  apply perm_map_of_keys hkeys
  rintro ⟨p, sha⟩ hx ⟨q, sha'⟩ hy he
  obtain ⟨ho, rfl⟩ := Prod.mk.inj he
  exact hfg p (mem_of_mem_claims hx).1 q (mem_of_mem_claims hy).1 sha ho

omit [Interpreter] in
theorem window_capturedAt {candidates candidates' : List Candidate}
    (hc : candidates.Perm candidates') {p q : Push} (ho : pushOrder p = pushOrder q)
    (minutes : Int) : (window candidates p minutes attribution).Perm
      (window candidates' q minutes attribution) := by
  have hcaptured : p.capturedAt.utc = q.capturedAt.utc :=
    congrArg (fun o : Int ×ₗ String => (ofLex o).1) ho
  unfold window
  rw [hcaptured]
  exact hc.filter _

omit [Interpreter] in
theorem plausible_congr (hm : SameMirror mirror mirror') {candidates candidates' : List Candidate}
    (hc : candidates.Perm candidates') {notes : Option NoteMap} {p q : Push}
    (ho : pushOrder p = pushOrder q) (sha : String) :
    agentPlausible mirror attribution candidates notes key p sha =
      agentPlausible mirror' attribution candidates' notes key q sha := by
  unfold agentPlausible commitSessions
  rw [hm.commitNote, (window_capturedAt hc ho _).isEmpty_eq, (window_capturedAt hc ho _).any_eq]

/-- The plausible commits of a window, in any order of it. -/
theorem SameWindow.plausibleCommits (h : SameWindow c d orgId asOf key pushes pushes')
    (hm : SameMirror mirror mirror') {candidates candidates' : List Candidate}
    (hc : candidates.Perm candidates') (notes : Option NoteMap) :
    (plausibleCommits mirror attribution candidates notes key pushes).Perm
      (plausibleCommits mirror' attribution candidates' notes key pushes') := by
  have hread : ∀ (mirror : RepoMirror) (candidates : List Candidate) (xs : List (Push × String)),
      (xs.filter (claimPlausible mirror attribution candidates notes key)).map Prod.snd =
        (xs.map (fun x => if claimPlausible mirror attribution candidates notes key x then some x.2
          else none)).filterMap id := by
    intro mirror candidates xs
    induction xs with
    | nil => rfl
    | cons x xs ih =>
      by_cases hx : claimPlausible mirror attribution candidates notes key x = true
      · rw [List.filter_cons_of_pos hx, List.map_cons, ih]
        simp [hx]
      · rw [List.filter_cons_of_neg hx, ih]
        simp [hx]
  unfold AttributionShare.plausibleCommits
  rw [hread, hread]
  apply List.Perm.filterMap
  apply h.map_claims hm
  intro p _ q _ sha ho
  unfold claimPlausible
  rw [plausible_congr hm hc ho]

/-- The attributions of a window, in any order of it. -/
theorem SameWindow.repositoryResult (h : SameWindow c d orgId asOf key pushes pushes')
    {mirrors mirrors' : Mirrors} (hm : mirrors key = some mirror)
    (hm' : mirrors' key = some mirror') (hs : SameMirror mirror mirror') (scorer : Scorer)
    {candidates candidates' : List Candidate} (hc : candidates.Perm candidates')
    (hd : DistinctIds candidates) (notes : Option NoteMap) (provenance : Attributions.Provenance) :
    let out := repositoryResult mirrors attribution scorer candidates notes provenance
      (pushes.map (resolvedAs c key))
    let out' := repositoryResult mirrors' attribution scorer candidates' notes provenance
      (pushes'.map (resolvedAs d key))
    out.attributions.Perm out'.attributions ∧ out.skipped = out'.skipped := by
  have hclaims : ∀ {γ : Type} (read : AttributionResult → γ),
      ((claims (commits mirror attribution) pushes).map (fun x =>
        read (attributeClaim scorer attribution provenance candidates
          (noteSessions notes Dict.empty) mirror (resolvedAs c key x.1) x.2))).Perm
      ((claims (commits mirror' attribution) pushes').map (fun x =>
        read (attributeClaim scorer attribution provenance candidates'
          (noteSessions notes Dict.empty) mirror' (resolvedAs d key x.1) x.2))) := by
    intro γ read
    apply h.map_claims hs
    intro p hp q hq sha ho
    rw [attributeClaim_congr hs (h.claimant hp hq ho) hc hd]
  dsimp only
  rw [repositoryResult_eq hm, repositoryResult_eq hm']
  by_cases hnil : candidates = []
  · have hnil' : candidates' = [] := by
      rw [hnil] at hc
      exact hc.nil_eq.symm
    rw [if_pos hnil, if_pos hnil', h.perm.length_eq]
    exact ⟨List.Perm.refl _, rfl⟩
  · have hnil' : candidates' ≠ [] := by
      rintro rfl
      exact hnil hc.eq_nil
    rw [if_neg hnil, if_neg hnil']
    refine ⟨?_, (hclaims (·.skipped)).sum_eq⟩
    rw [List.flatMap_def, List.flatMap_def]
    exact (hclaims (·.attributions)).flatten

end

section
variable [Interpreter] [Collation] [StoredBytes] [WilsonScore] {s s' : Snapshot}
  {mirrors mirrors' : Mirrors} {orgId : String} {policy : AttributionSharePolicy} {scorer : Scorer}
  {scope scope' : ShareScope} {i i' : ShareInputs} {group group' : RepositoryKey × List Push}

omit [Collation] [StoredBytes] [WilsonScore] [Interpreter] in
theorem groupEnd_congr {pushes pushes' : List Push} (hp : pushes.Perm pushes')
    (hs : pushes.Pairwise (fun a b => pushOrder a ≤ pushOrder b))
    (hs' : pushes'.Pairwise (fun a b => pushOrder a ≤ pushOrder b)) :
    groupEnd pushes = groupEnd pushes' := by
  have hcaptured : ∀ {xs : List Push}, xs.Pairwise (fun a b => pushOrder a ≤ pushOrder b) →
      (xs.map (·.capturedAt.utc)).Pairwise (· ≤ ·) := by
    intro xs hxs
    rw [List.pairwise_map]
    apply hxs.imp
    intro a b hab
    rcases Prod.Lex.toLex_le_toLex.mp hab with h | h
    · exact h.le
    · exact h.1.le
  unfold groupEnd
  rw [(hp.map (·.capturedAt.utc)).eq_of_pairwise (fun a b _ _ hab hba => le_antisymm hab hba)
    (hcaptured hs) (hcaptured hs')]

omit [Collation] [StoredBytes] [WilsonScore] in
theorem groupWindow_same (hi : SameInputs i i')
    (hl : RepositoryGroup i.context orgId i.asOf group.1 group.2)
    (hr : RepositoryGroup i'.context orgId i'.asOf group'.1 group'.2) (hg : SameGroup group group') :
    SameWindow i.context i'.context orgId i.asOf group.1 (groupWindow policy group.2)
      (groupWindow policy group'.2) where
  context := hi.context
  left := hl.sublist List.filter_sublist
  right := by
    rw [hi.asOf, hg.1]
    exact hr.sublist List.filter_sublist
  perm := by
    unfold groupWindow
    rw [groupEnd_congr hg.2 hl.sorted hr.sorted]
    exact hg.2.filter _

omit [WilsonScore] in
/-- What an attribution of the window derives, in any order of it. -/
theorem derive_same (hs : SameSnapshot s s') {mirror mirror' : RepoMirror}
    (hml : mirrors group.1 = some mirror) (hmr : mirrors' group.1 = some mirror')
    (hsame : SameMirror mirror mirror') (h : shareInputs s orgId policy scope = .ok i)
    (h' : shareInputs s' orgId policy scope' = .ok i') (hi : SameInputs i i')
    (hl : group ∈ i.groups) (hr : group' ∈ i'.groups) (hg : SameGroup group group') :
    Agree (fun a a' => a.attributions.Perm a'.attributions ∧ a.skipped = a'.skipped)
      (deriveAttributionResult s mirrors orgId policy.attribution scorer
        (shareScope policy i (some i.candidates) group))
      (deriveAttributionResult s' mirrors' orgId policy.attribution scorer
        (shareScope policy i' (some i'.candidates) group')) := by
  obtain ⟨hne, hgroup, horg, hasOf⟩ := shareInputs_groups h hl
  obtain ⟨hne', hgroup', horg', hasOf'⟩ := shareInputs_groups h' hr
  have hwindow := @groupWindow_same _ _ policy _ _ _ _ hi hgroup hgroup' hg
  have hright := hwindow.right
  have hstamp : stampProvenance s orgId policy.attribution.policyVersion none =
      stampProvenance s' orgId policy.attribution.policyVersion none := by
    unfold stampProvenance Snapshot.quarantineRevision
    rw [hs.repositories]
  have hnotes : repositoryNotes i'.explicit i'.captured group'.1 =
      repositoryNotes i.explicit i.captured group.1 := by
    rw [hi.explicit, hi.captured, hg.1]
  rw [hi.asOf] at hright
  unfold shareScope
  rw [hnotes, derive_repository s mirrors policy.attribution scorer (some i.candidates)
      hwindow.left (groupWindow_ne_nil hne) horg hasOf repositoryNotes_none,
    derive_repository s' mirrors' policy.attribution scorer (some i'.candidates) hright
      (groupWindow_ne_nil hne') horg' hasOf' repositoryNotes_none, hstamp]
  apply Agree.bind (Agree.refl (R := Eq) (fun _ => rfl) _)
  rintro provenance _ rfl
  have hcandidates : (eligibleCandidates orgId (some i.asOf) i.candidates).Perm
      (eligibleCandidates orgId (some i'.asOf) i'.candidates) := by
    rw [hi.asOf]
    exact hi.candidates.filter _
  exact hwindow.repositoryResult hml hmr hsame scorer hcandidates
    ((distinctIds_inputs h (List.ne_nil_of_mem hl)).filter _) _ provenance

omit [Collation] [StoredBytes] in
/-- What is counted against an attribution of the window, in any order of it. -/
theorem countedShare_congr {mirror mirror' : RepoMirror} (hsame : SameMirror mirror mirror')
    (hi : SameInputs i i') (hl : RepositoryGroup i.context orgId i.asOf group.1 group.2)
    (hr : RepositoryGroup i'.context orgId i'.asOf group'.1 group'.2) (hg : SameGroup group group')
    {a a' : AttributionResult} (ha : a.attributions.Perm a'.attributions)
    (hskipped : a.skipped = a'.skipped) (repo : String) :
    countedShare orgId policy i group repo mirror a =
      countedShare orgId policy i' group' repo mirror' a' := by
  have hsources : (shareSources a).members = (shareSources a').members := by
    funext sha
    ext source
    rw [mem_shareSources, mem_shareSources, attributedBy, attributedBy, ha.any_eq]
  have hkept := @SameWindow.plausibleCommits _ _ _ _ _ _ _ _ _ _ policy.attribution
    (@groupWindow_same _ _ policy _ _ _ _ hi hl hr hg) hsame _ _ hi.candidates
    (repositoryNotes i.explicit i.captured group.1)
  obtain ⟨h1, h2, h3, h4⟩ := foldl_tallyPush mirror policy.attribution i.candidates
    (repositoryNotes i.explicit i.captured group.1) group.1 (shareSources a)
    (groupWindow policy group.2)
  obtain ⟨h1', h2', h3', h4'⟩ := foldl_tallyPush mirror' policy.attribution i'.candidates
    (repositoryNotes i.explicit i.captured group.1) group.1 (shareSources a')
    (groupWindow policy group'.2)
  rw [hkept.length_eq, ← h1'] at h1
  rw [hkept.countP_eq, hsources, ← h2'] at h2
  rw [hkept.countP_eq, hsources, ← h3'] at h3
  rw [hkept.countP_eq, hsources, ← h4'] at h4
  unfold countedShare shareRow
  rw [← hi.explicit, ← hi.captured, ← hi.provenance, ← hg.1, groupEnd_congr hg.2 hl.sorted hr.sorted,
    hskipped, h1, h2, h3, h4]

/-- The share of a repository is the same in any order of its pushes. -/
theorem repositoryShare_congr (hs : SameSnapshot s s') (hm : SameMirrors mirrors mirrors')
    (h : shareInputs s orgId policy scope = .ok i)
    (h' : shareInputs s' orgId policy scope' = .ok i') (hi : SameInputs i i')
    (hl : group ∈ i.groups) (hr : group' ∈ i'.groups) (hg : SameGroup group group') :
    Agree Eq (repositoryShare s mirrors orgId policy scorer i group)
      (repositoryShare s' mirrors' orgId policy scorer i' group') := by
  obtain ⟨hne, hgroup, -, -⟩ := shareInputs_groups h hl
  obtain ⟨hne', hgroup', -, -⟩ := shareInputs_groups h' hr
  have hwindow := @groupWindow_same _ _ policy _ _ _ _ hi hgroup hgroup' hg
  rw [repositoryShare_eq i hne, repositoryShare_eq i' hne', ← hg.1,
    SameContext.repoFor hi.context]
  apply Agree.bind (Agree.refl (R := Eq) (fun _ => rfl) _)
  rintro repo _ rfl
  have hrel := hm group.1
  cases hml : mirrors group.1 with
  | none =>
    rw [hml] at hrel
    cases hmr : mirrors' group.1 with
    | some mirror' =>
      rw [hmr] at hrel
      cases hrel
    | none =>
      rw [Option.elim_none, Option.elim_none, hwindow.perm.length_eq]
      exact rfl
  | some mirror =>
    rw [hml] at hrel
    cases hmr : mirrors' group.1 with
    | none =>
      rw [hmr] at hrel
      cases hrel
    | some mirror' =>
      rw [hmr] at hrel
      cases hrel with
      | some hsame =>
        apply Agree.bind (derive_same hs hml hmr hsame h h' hi hl hr hg)
        rintro a a' ⟨ha, hskipped⟩
        exact countedShare_congr hsame hi hgroup hgroup' hg ha hskipped repo

omit [Interpreter] [Collation] [StoredBytes] [WilsonScore] in
theorem mapM_agree {α β γ ε : Type} {R : α → β → Prop} {f : α → Except ε γ} {g : β → Except ε γ}
    {as : List α} {bs : List β} (h : List.Forall₂ R as bs)
    (hfg : ∀ a ∈ as, ∀ b ∈ bs, R a b → Agree Eq (f a) (g b)) :
    Agree Eq (as.mapM f) (bs.mapM g) := by
  induction h with
  | nil => exact rfl
  | cons hab _ ih =>
    rw [List.mapM_cons, List.mapM_cons]
    apply Agree.bind (hfg _ (by simp) _ (by simp) hab)
    rintro c _ rfl
    apply Agree.bind (ih (fun a ha b hb => hfg a (by simp [ha]) b (by simp [hb])))
    rintro cs _ rfl
    exact rfl

/-- The share is the same in any order of the pushes, of the commits and of the calls. -/
theorem derive_perm (hs : SameSnapshot s s') (hm : SameMirrors mirrors mirrors')
    (hc : SameScope scope scope') :
    Agree Eq (deriveAttributionShareResult s mirrors orgId policy scorer scope)
      (deriveAttributionShareResult s' mirrors' orgId policy scorer scope') := by
  rw [derive_eq, derive_eq]
  have hinputs := @shareInputs_congr _ _ _ _ _ orgId policy _ _ hs hc
  cases h : shareInputs s orgId policy scope with
  | error e =>
    rw [h] at hinputs
    cases h' : shareInputs s' orgId policy scope' with
    | error e' => trivial
    | ok i' =>
      rw [h'] at hinputs
      exact hinputs.elim
  | ok i =>
    rw [h] at hinputs
    cases h' : shareInputs s' orgId policy scope' with
    | error e' =>
      rw [h'] at hinputs
      exact hinputs.elim
    | ok i' =>
      rw [h'] at hinputs
      have hi : SameInputs i i' := hinputs
      apply Agree.bind (mapM_agree hi.groups
        (fun a ha b hb hab => repositoryShare_congr hs hm h h' hi ha hb hab))
      rintro outs _ rfl
      rw [hi.skipped]
      exact rfl

end

/-- The classes of a row partition its agent-plausible commits. What `derive_attribution_result`
attributes in the window of a repository, from the candidates of the share or from those it
reads itself, is counted in the row of that repository and in the class of its method. And the
share is the same in any order of the pushes, the commits and the calls. -/
theorem share_agrees_with_attribution :
    (∀ [Interpreter] [Collation] [StoredBytes] [WilsonScore] (s : Snapshot) (mirrors : Mirrors)
      (orgId : String) (policy : AttributionSharePolicy) (scorer : Scorer) (scope : ShareScope)
      (out : AttributionShareResult),
      deriveAttributionShareResult s mirrors orgId policy scorer scope = .ok out →
      (∀ row ∈ out.rows, row.agentPlausibleCommits =
        row.gitNotesAttributed + row.jaccardAttributed + row.unattributed) ∧
      ∃ i, shareInputs s orgId policy scope = .ok i ∧
        ∀ group ∈ i.groups, ∀ mirror, mirrors group.1 = some mirror →
        ∀ found, found = none ∨ found = some i.candidates →
        ∀ attributed, deriveAttributionResult s mirrors orgId policy.attribution scorer
          (shareScope policy i found group) = .ok attributed →
        (attributed.attributions = [] ∨ ∃ row ∈ out.rows,
          row.repositoryIdentity = identityOf group.1 ∧ row.windowEnd = groupEnd group.2 ∧
          ∃ commits, Counts attributed.attributions row commits)) ∧
    ∀ [Interpreter] [Collation] [StoredBytes] [WilsonScore] (s s' : Snapshot)
      (mirrors mirrors' : Mirrors) (orgId : String) (policy : AttributionSharePolicy)
      (scorer : Scorer) (scope scope' : ShareScope), SameSnapshot s s' →
      SameMirrors mirrors mirrors' → SameScope scope scope' →
      Agree Eq (deriveAttributionShareResult s mirrors orgId policy scorer scope)
        (deriveAttributionShareResult s' mirrors' orgId policy scorer scope') := by
  constructor
  · intro _ _ _ _ s mirrors orgId policy scorer scope out h
    obtain ⟨i, hi, hgroups, hrows⟩ := derive_ok h
    constructor
    · intro row hr
      obtain ⟨group, hg, part, hp, hr⟩ := hrows row hr
      obtain ⟨attributions, commits, hcounts⟩ := row_counts hi hg hp hr
      exact hcounts.partition
    · refine ⟨i, hi, ?_⟩
      intro group hg mirror hm found hf attributed ha
      obtain ⟨part, hp, hin⟩ := hgroups group hg
      rcases repositoryShare_counted hi hg hm hp hf ha with ⟨hnil, -⟩ | hcounted
      · exact Or.inl hnil
      · obtain ⟨row, hpart, hidentity, hend, commits, hcounts⟩ := hcounted
        refine Or.inr ⟨row, hin row ?_, hidentity, hend, commits, hcounts⟩
        rw [hpart]
        exact List.mem_singleton_self row
  · intro _ _ _ _ s s' mirrors mirrors' orgId policy scorer scope scope' hs hm hc
    exact derive_perm hs hm hc

open Sediment.Proofs.RepositoryIdentity (lowerCase)
open Sediment.Proofs.WitnessContext (byteOrder)

section
local instance : Interpreter := lowerCase
local instance : Collation := byteOrder
local instance : StoredBytes := fewBytes
local instance : WilsonScore := ⟨fun _ _ => (0, 1)⟩

def oneCase : AttributionSharePolicy where
  minCasesForDeclineVerdict := 1
  minCases := by decide

/-- The rows of the calls in the other order. -/
def swappedCalls : Snapshot := { twoCalls with
  calls := ⟨[notedCall, exactCall], [], [], by decide +kernel, by decide +kernel⟩
  quarantined := rfl
  observedBefore := by decide +kernel }

/-- The commit of the push is counted as its attribution says, in either order of the calls. -/
theorem noted_commit_counted :
    (∃ out, deriveAttributionShareResult twoCalls (fun _ => some notedMirror) "acme" oneCase
        jaccardTokens {} = .ok out ∧
      (∀ row ∈ out.rows, row.agentPlausibleCommits =
        row.gitNotesAttributed + row.jaccardAttributed + row.unattributed) ∧
      ∃ i group attributed, shareInputs twoCalls "acme" oneCase {} = .ok i ∧ group ∈ i.groups ∧
        deriveAttributionResult twoCalls (fun _ => some notedMirror) "acme" oneCase.attribution
          jaccardTokens (shareScope oneCase i none group) = .ok attributed ∧
        ∃ row ∈ out.rows, row.repositoryIdentity = identityOf group.1 ∧
          row.windowEnd = groupEnd group.2 ∧ ∃ commits, Counts attributed.attributions row commits) ∧
    Agree Eq
      (deriveAttributionShareResult twoCalls (fun _ => some notedMirror) "acme" oneCase
        jaccardTokens {})
      (deriveAttributionShareResult swappedCalls (fun _ => some notedMirror) "acme" oneCase
        jaccardTokens {}) := by
  obtain ⟨hcounted, horder⟩ := share_agrees_with_attribution
  constructor
  · have hderived : (deriveAttributionShareResult twoCalls (fun _ => some notedMirror) "acme"
        oneCase jaccardTokens {}).isOk = true := by decide +kernel
    obtain ⟨out, hout⟩ := ok_of_isOk hderived
    obtain ⟨hparts, i, hi, hgroups⟩ := hcounted twoCalls (fun _ => some notedMirror) "acme" oneCase
      jaccardTokens {} out hout
    have hany : (shareInputs twoCalls "acme" oneCase {}).toOption.any (fun i =>
        i.groups.any (fun group => (deriveAttributionResult twoCalls (fun _ => some notedMirror)
          "acme" oneCase.attribution jaccardTokens (shareScope oneCase i none group)).toOption.any
            (fun attributed => !attributed.attributions.isEmpty))) = true := by decide +kernel
    rw [hi, Except.toOption, Option.any_some, List.any_eq_true] at hany
    obtain ⟨group, hgroup, hany⟩ := hany
    obtain ⟨attributed, hattributed, hsome⟩ := (Option.any_eq_true _ _).mp hany
    have hattributed := toOption_eq_some.mp hattributed
    have hsome : attributed.attributions ≠ [] := by
      rintro heq
      rw [heq] at hsome
      cases hsome
    refine ⟨out, hout, hparts, i, group, attributed, hi, hgroup, hattributed, ?_⟩
    exact (hgroups group hgroup notedMirror rfl none (Or.inl rfl) attributed hattributed).resolve_left
      hsome
  · refine horder twoCalls swappedCalls _ _ "acme" oneCase jaccardTokens {} {} ?_ ?_ ?_
    · exact ⟨rfl, List.Perm.swap _ _ _, List.Perm.refl _, rfl⟩
    · exact fun _ => .some (SameMirror.refl notedMirror)
    · exact ⟨.none, rfl⟩

end

end Sediment.Proofs.ShareOrder
