import Sediment.Derive.AttributionShare
import Sediment.Proofs.AttributionWalk
import Sediment.Proofs.ContextReads

namespace Sediment.Proofs.AttributionShare
open Base Sediment.Core Sediment.Derive Sediment.Derive.Attributions
open Sediment.Derive.AttributionShare Base.Claims
open Base.JsonScan (codePoints)
open Sediment.Export (AttributionSource)
open Sediment.Proofs.AttributionMatch Sediment.Proofs.AttributionWalk

section
variable (mirror : RepoMirror) (policy : AttributionPolicy) (candidates : List Candidate)
  (notes : Option NoteMap) (key : RepositoryKey) (sources : Dict String (Finset AttributionSource))

def commits (push : Push) : List String := mirror.listPushCommits push policy.maxCommitsPerPush

def tallyFresh (push : Push) (t : ShareTally) (sha : String) : ShareTally :=
  let t := { t with seen := insert sha t.seen }
  if agentPlausible mirror policy candidates notes key push sha then t.count (sources.members sha)
  else t

theorem remembers_tallyCommit : Remembers ShareTally.seen
    (tallyCommit mirror policy candidates notes key sources) where
  again := fun _ _ _ h => if_pos h
  once := by
    intro push t sha h
    rw [tallyCommit, if_neg h]
    dsimp only
    split
    · unfold ShareTally.count
      split
      · rfl
      · split <;> rfl
    · rfl

def claimPlausible (x : Push × String) : Bool :=
  agentPlausible mirror policy candidates notes key x.1 x.2

theorem foldl_tallyFresh (xs : List (Push × String)) (t : ShareTally) :
    let out := xs.foldl (fun t x => tallyFresh mirror policy candidates notes key sources x.1 t x.2) t
    let kept := (xs.filter (claimPlausible mirror policy candidates notes key)).map Prod.snd
    out.agentPlausible = t.agentPlausible + kept.length ∧
    out.gitNotes = t.gitNotes +
      kept.countP (fun sha => decide (.gitNotes ∈ sources.members sha)) ∧
    out.jaccard = t.jaccard + kept.countP (fun sha =>
      decide (.gitNotes ∉ sources.members sha ∧ .jaccard ∈ sources.members sha)) ∧
    out.unattributed = t.unattributed + kept.countP (fun sha =>
      decide (.gitNotes ∉ sources.members sha ∧ .jaccard ∉ sources.members sha)) := by
  induction xs generalizing t with
  | nil => simp
  | cons x xs ih =>
    dsimp only at ih ⊢
    obtain ⟨h1, h2, h3, h4⟩ := ih
      (tallyFresh mirror policy candidates notes key sources x.1 t x.2)
    rw [List.foldl_cons, h1, h2, h3, h4]
    by_cases hp : claimPlausible mirror policy candidates notes key x
    · rw [List.filter_cons_of_pos hp]
      have hfresh : tallyFresh mirror policy candidates notes key sources x.1 t x.2 =
          ShareTally.count { t with seen := insert x.2 t.seen } (sources.members x.2) := if_pos hp
      rw [hfresh]
      unfold ShareTally.count
      by_cases hg : AttributionSource.gitNotes ∈ sources.members x.2
      · simp only [hg, if_true, List.map_cons, List.length_cons, List.countP_cons]
        simp only [not_true_eq_false, false_and, decide_true, decide_false, if_true,
          Bool.false_eq_true, if_false]
        omega
      · by_cases hj : AttributionSource.jaccard ∈ sources.members x.2
        · simp only [hg, hj, if_true, if_false, List.map_cons, List.length_cons, List.countP_cons,
            not_true_eq_false, not_false_eq_true, and_true, and_false, decide_true, decide_false,
            Bool.false_eq_true]
          omega
        · simp only [hg, hj, if_true, if_false, List.map_cons, List.length_cons, List.countP_cons,
            not_false_eq_true, and_true, and_false, decide_true, decide_false,
            Bool.false_eq_true]
          omega
    · rw [List.filter_cons_of_neg hp]
      have hfresh : tallyFresh mirror policy candidates notes key sources x.1 t x.2 =
          { t with seen := insert x.2 t.seen } := if_neg hp
      rw [hfresh]
      exact ⟨rfl, rfl, rfl, rfl⟩

/-- The agent-plausible commits of a window, each once. -/
def plausibleCommits (pushes : List Push) : List String :=
  ((claims (commits mirror policy) pushes).filter
    (claimPlausible mirror policy candidates notes key)).map Prod.snd

theorem nodup_plausibleCommits (pushes : List Push) :
    (plausibleCommits mirror policy candidates notes key pushes).Nodup :=
  (nodup_claims _ pushes).sublist (List.filter_sublist.map Prod.snd)

/-- The loop of the share counts the plausible commits by class. -/
theorem foldl_tallyPush (pushes : List Push) :
    let out := pushes.foldl (tallyPush mirror policy candidates notes key sources) {}
    let kept := plausibleCommits mirror policy candidates notes key pushes
    out.agentPlausible = kept.length ∧
    out.gitNotes = kept.countP (fun sha => decide (.gitNotes ∈ sources.members sha)) ∧
    out.jaccard = kept.countP (fun sha =>
      decide (.gitNotes ∉ sources.members sha ∧ .jaccard ∈ sources.members sha)) ∧
    out.unattributed = kept.countP (fun sha =>
      decide (.gitNotes ∉ sources.members sha ∧ .jaccard ∉ sources.members sha)) := by
  have hremembers := remembers_tallyCommit mirror policy candidates notes key sources
  have hwalk : pushes.foldl (tallyPush mirror policy candidates notes key sources) {} =
      (claims (commits mirror policy) pushes).foldl
        (fun t x => tallyFresh mirror policy candidates notes key sources x.1 t x.2) {} := by
    have hstep : tallyPush mirror policy candidates notes key sources = fun t push =>
        (commits mirror policy push).foldl
          (tallyCommit mirror policy candidates notes key sources push) t := rfl
    rw [hstep, hremembers.foldl_owners _ rfl,
      hremembers.foldl_fresh (tallyFresh mirror policy candidates notes key sources)
        (fun _ _ _ h => if_neg h) _ _ (nodup_claims _ _) (fun _ _ => by simp)]
  dsimp only
  rw [hwalk]
  have hcounts := foldl_tallyFresh mirror policy candidates notes key sources
    (claims (commits mirror policy) pushes) {}
  simp only [Nat.zero_add] at hcounts
  exact hcounts

end

theorem sortedBy_of_pairwise {α ρ : Type*} [LinearOrder ρ] {order : α → ρ} {xs : List α}
    (h : xs.Pairwise (fun a b => order a ≤ order b)) : sortedBy order xs = xs :=
  List.Pairwise.insertionSort_eq h

section
variable [Interpreter] {context : RepositoryContext} {orgId : String} {asOf : Int}
  {key : RepositoryKey} {pushes : List Push} {notes : Option NoteMap}

/-- Pushes of one repository, in order, inside the boundary. -/
structure RepositoryGroup (context : RepositoryContext) (orgId : String) (asOf : Int)
    (key : RepositoryKey) (pushes : List Push) : Prop where
  sorted : pushes.Pairwise (fun a b => pushOrder a ≤ pushOrder b)
  eligible : ∀ p ∈ pushes, p.orgId = orgId ∧ p.capturedAt.utc ≤ asOf
  resolved : ∀ p ∈ pushes, (context.resolveFact p.project).key = some key

theorem RepositoryGroup.sublist (h : RepositoryGroup context orgId asOf key pushes)
    {kept : List Push} (hs : kept.Sublist pushes) :
    RepositoryGroup context orgId asOf key kept where
  sorted := h.sorted.sublist hs
  eligible := fun p hp => h.eligible p (hs.subset hp)
  resolved := fun p hp => h.resolved p (hs.subset hp)

def resolvedAs (context : RepositoryContext) (key : RepositoryKey) (push : Push) : ResolvedPush :=
  ⟨push, key, (context.resolveFact push.project).repo⟩

theorem resolved_group (h : RepositoryGroup context orgId asOf key pushes) :
    pushes.filterMap (declinedPush context false) = [] ∧
      pushes.filterMap (resolvedPush context false) = pushes.map (resolvedAs context key) := by
  have hresolve : ∀ p, resolvePush context false p = context.resolveFact p.project := fun _ => rfl
  constructor
  · rw [List.filterMap_eq_nil_iff]
    intro p hp
    simp only [declinedPush, hresolve, h.resolved p hp]
  · rw [← List.filterMap_eq_map]
    apply List.filterMap_congr
    intro p hp
    simp only [resolvedPush, hresolve, h.resolved p hp, Option.map_some, Function.comp_apply,
      resolvedAs]

theorem orderedPushes_group (h : RepositoryGroup context orgId asOf key pushes) :
    orderedPushes orgId (some asOf) pushes = pushes := by
  have hall : pushes.filter (fun push => decide (push.orgId = orgId ∧
      (some asOf).all (fun boundary => decide (push.capturedAt.utc ≤ boundary)) = true)) =
      pushes := by
    rw [List.filter_eq_self]
    intro p hp
    simpa using h.eligible p hp
  unfold orderedPushes
  rw [hall]
  exact sortedBy_of_pairwise h.sorted

variable [Collation] [StoredBytes] (s : Snapshot) (mirrors : Mirrors)
  (policy : AttributionPolicy) (scorer : Scorer) (candidates : List Candidate)

/-- What a scope of one repository derives. -/
def repositoryResult (mirrors : Mirrors) (policy : AttributionPolicy) (scorer : Scorer)
    (candidates : List Candidate) (notes : Option NoteMap) (provenance : Attributions.Provenance)
    (resolved : List ResolvedPush) : AttributionResult :=
  if candidates = [] then
    { skipped := Multiset.replicate resolved.length .noInferenceCallCandidates }
  else
    (resolved.foldl (walkPush mirrors scorer policy provenance candidates
      (noteSessions notes Dict.empty)) ⟨∅, {}⟩).result

/-- The scope of one repository, with the candidates of the share or with its own. -/
def windowScope (context : RepositoryContext) (asOf : Int) (found : Option (List Candidate))
    (notes : Option NoteMap) (pushes : List Push) : Scope :=
  { repositoryScope context asOf [] notes pushes with candidates := found }

theorem derive_repository (found : Option (List Candidate))
    (h : RepositoryGroup context orgId asOf key pushes)
    (hne : pushes ≠ []) (hc : context.orgId = orgId) (ha : context.asOf = asOf)
    (hn : notes = none → isIdentified key = false) :
    deriveAttributionResult s mirrors orgId policy scorer
        (windowScope context asOf found notes pushes) =
      (stampProvenance s orgId policy.policyVersion none).bind (fun provenance =>
        (foundCandidates s orgId policy (windowScope context asOf found notes pushes)
          (pushes.map (resolvedAs context key))).map (fun candidates =>
            repositoryResult mirrors policy scorer (eligibleCandidates orgId (some asOf) candidates)
              notes provenance (pushes.map (resolvedAs context key)))) := by
  have hcontext : scopeContext s orgId (windowScope context asOf found notes pushes) =
      .ok context := by
    simp [scopeContext, windowScope, repositoryScope, hc, ha, pure, Except.pure, bind, Except.bind]
  have hnotes : scopeNotes s orgId (windowScope context asOf found notes pushes) context
      (pushes.map (resolvedAs context key)) = .ok (noteSessions notes Dict.empty, 0) := by
    cases notes with
    | some notes => rfl
    | none =>
      have hany : (pushes.map (resolvedAs context key)).any (fun r => isIdentified r.key) =
          false := by
        rw [List.any_eq_false]
        intro r hr
        obtain ⟨p, -, rfl⟩ := List.mem_map.mp hr
        simpa [resolvedAs] using hn rfl
      simp only [scopeNotes, windowScope, repositoryScope, hany]
      rfl
  have hmaps : checkNoteMaps (windowScope context asOf found notes pushes).noteSessionsByCommit
      (windowScope context asOf found notes pushes).noteSessionIdsByCommit = .ok () := by
    unfold checkNoteMaps windowScope repositoryScope
    simp [pure, Except.pure]
  obtain ⟨hdeclined, hresolved⟩ := resolved_group h
  have hmapped : pushes.map (resolvedAs context key) ≠ [] := by simpa using hne
  have hordered : orderedPushes orgId ((windowScope context asOf found notes pushes).asOf.or
      ((windowScope context asOf found notes pushes).repositoryContext.map (·.asOf)))
      ((windowScope context asOf found notes pushes).pushes.getD (s.readPushes orgId)) = pushes :=
    orderedPushes_group h
  have hpreloaded : ((windowScope context asOf found notes pushes).pushes.isSome &&
      (windowScope context asOf found notes pushes).repositoryContext.isNone) = false := rfl
  have hdigest : (windowScope context asOf found notes pushes).policyDigest = none := rfl
  unfold deriveAttributionResult
  rw [hmaps, ok_bind, hcontext, ok_bind, hdigest]
  cases stampProvenance s orgId policy.policyVersion none with
  | error e => rfl
  | ok provenance =>
    simp only [ok_bind, hordered, hpreloaded, hdeclined, hresolved, if_neg hmapped, hnotes]
    change _ = (foundCandidates s orgId policy (windowScope context asOf found notes pushes)
      (pushes.map (resolvedAs context key))).map _
    cases foundCandidates s orgId policy (windowScope context asOf found notes pushes)
        (pushes.map (resolvedAs context key)) with
    | error e => rfl
    | ok candidates =>
      simp only [ok_bind, Except.map, repositoryResult, pure, Except.pure]
      change (if eligibleCandidates orgId (some asOf) candidates = [] then _ else _) = _
      split
      · simp [AttributionResult.skip]
      · simp only [Multiset.coe_nil, add_zero]
        rfl

omit [Collation] [StoredBytes] in
/-- The attributions of a repository are those of its claims. -/
theorem repositoryResult_eq {mirrors : Mirrors} {policy : AttributionPolicy} {scorer : Scorer}
    {candidates : List Candidate} {provenance : Attributions.Provenance} {mirror : RepoMirror}
    (hm : mirrors key = some mirror) :
    repositoryResult mirrors policy scorer candidates notes provenance
        (pushes.map (resolvedAs context key)) =
      if candidates = [] then
        { skipped := Multiset.replicate pushes.length .noInferenceCallCandidates }
      else
        { attributions := (claims (commits mirror policy) pushes).flatMap (fun x =>
            (attributeClaim scorer policy provenance candidates (noteSessions notes Dict.empty)
              mirror (resolvedAs context key x.1) x.2).attributions)
          skipped := ((claims (commits mirror policy) pushes).map (fun x =>
            (attributeClaim scorer policy provenance candidates (noteSessions notes Dict.empty)
              mirror (resolvedAs context key x.1) x.2).skipped)).sum } := by
  have hclaims : claims (pushCommits mirrors policy) (pushes.map (resolvedAs context key)) =
      (claims (commits mirror policy) pushes).map (fun x =>
        (resolvedAs context key x.1, (⟨key, x.2⟩ : CommitKey))) := by
    apply claims_map
    · intro a b hab
      exact congrArg CommitKey.commitSha hab
    · intro p _
      have hkey : (resolvedAs context key p).key = key := rfl
      simp only [pushCommits, hkey, hm]
      rfl
  have habsent : (pushes.map (resolvedAs context key)).countP (absentMirror mirrors) = 0 := by
    rw [List.countP_eq_zero]
    intro r hr
    obtain ⟨p, -, rfl⟩ := List.mem_map.mp hr
    simp [absentMirror, resolvedAs, hm]
  have hresult : ∀ x : Push × String, claimResult mirrors scorer policy provenance candidates
      (noteSessions notes Dict.empty) (resolvedAs context key x.1) ⟨key, x.2⟩ =
        attributeClaim scorer policy provenance candidates (noteSessions notes Dict.empty) mirror
          (resolvedAs context key x.1) x.2 := by
    intro x
    have hkey : (resolvedAs context key x.1).key = key := rfl
    simp only [claimResult, hkey, hm]
  unfold repositoryResult
  split
  · rw [List.length_map]
  · rw [foldl_walkPush, hclaims, habsent]
    simp only [List.flatMap_map, List.map_map, Function.comp_def, hresult, List.nil_append,
      Multiset.replicate_zero, add_zero, zero_add]

/-- What a repository attributes, over its claims. -/
def claimed (scorer : Scorer) (policy : AttributionPolicy) (candidates : List Candidate)
    (notes : Option NoteMap) (provenance : Attributions.Provenance) (mirror : RepoMirror)
    (context : RepositoryContext) (key : RepositoryKey) (pushes : List Push) : List Attribution :=
  (claims (commits mirror policy) pushes).flatMap (fun x =>
    (attributeClaim scorer policy provenance candidates (noteSessions notes Dict.empty)
      mirror (resolvedAs context key x.1) x.2).attributions)

omit [Collation] [StoredBytes] in
theorem repositoryResult_attributions {mirrors : Mirrors} {policy : AttributionPolicy}
    {scorer : Scorer} {candidates : List Candidate} {provenance : Attributions.Provenance}
    {mirror : RepoMirror} (hm : mirrors key = some mirror) :
    (repositoryResult mirrors policy scorer candidates notes provenance
        (pushes.map (resolvedAs context key))).attributions =
      claimed scorer policy candidates notes provenance mirror context key pushes := by
  rw [repositoryResult_eq hm]
  split
  · rename_i hnil
    subst hnil
    symm
    rw [claimed, List.flatMap_eq_nil_iff]
    intro x _
    rw [List.eq_nil_iff_forall_not_mem]
    intro a ha
    obtain ⟨-, ⟨-, c, hc, -⟩ | ⟨-, hne⟩⟩ := mem_attributeClaim ha
    · cases hc
    · exact hne rfl
  · rfl

omit [Collation] [StoredBytes] in
theorem claimed_windows {policy : AttributionPolicy} {scorer : Scorer}
    {candidates candidates' : List Candidate} {provenance : Attributions.Provenance}
    {mirror : RepoMirror} (hd : DistinctIds candidates)
    (hw : ∀ push ∈ pushes, ∀ minutes, minutes ≤ max policy.jaccard.lookbackWindowMinutes
      policy.gitNotes.lookbackWindowMinutes →
      (window candidates push minutes policy).Perm (window candidates' push minutes policy)) :
    claimed scorer policy candidates notes provenance mirror context key pushes =
      claimed scorer policy candidates' notes provenance mirror context key pushes := by
  unfold claimed
  apply List.flatMap_congr
  intro x hx
  rw [attributeClaim_windows (SameMirror.refl mirror) (SameClaimant.refl _) hd
    (hw x.1 (mem_of_mem_claims hx).1)]

omit [Collation] [StoredBytes] in
/-- An attributed commit is plausible: the windows of the two walks are the same. -/
theorem attributed_plausible {policy : AttributionPolicy} {scorer : Scorer}
    {candidates : List Candidate} {provenance : Attributions.Provenance} {mirror : RepoMirror}
    (hn : notes = none → isIdentified key = false)
    {a : Attribution} (ha : a ∈ claimed scorer policy
      (eligibleCandidates orgId (some asOf) candidates) notes provenance mirror context key
      pushes) :
    a.commitSha ∈ plausibleCommits mirror policy candidates notes key pushes := by
  obtain ⟨x, hx, hax⟩ := List.mem_flatMap.mp ha
  obtain ⟨hsha, hsource⟩ := mem_attributeClaim hax
  have hsub : ∀ minutes, ∀ c ∈ window (eligibleCandidates orgId (some asOf) candidates)
      (resolvedAs context key x.1).push minutes policy,
      c ∈ window candidates x.1 minutes policy := by
    intro minutes c hc
    obtain ⟨hin, hw⟩ := List.mem_filter.mp hc
    exact List.mem_filter.mpr ⟨List.mem_of_mem_filter hin, hw⟩
  have hsessions : noteSessions notes Dict.empty ⟨key, x.2⟩ = suppliedSessions notes key x.2 := by
    cases notes with
    | some notes => rfl
    | none => simp [noteSessions, suppliedSessions, hn rfl]
  rw [hsha]
  apply List.mem_map_of_mem
  rw [List.mem_filter]
  refine ⟨hx, ?_⟩
  unfold claimPlausible agentPlausible
  rw [Bool.or_eq_true]
  rcases hsource with ⟨-, c, hc, hsession⟩ | ⟨-, hne⟩
  · right
    rw [List.any_eq_true]
    refine ⟨c, hsub _ c hc, ?_⟩
    rw [decide_eq_true_eq, ← hsessions]
    exact hsession
  · left
    obtain ⟨c, hc⟩ := List.exists_mem_of_ne_nil _ hne
    rw [Bool.not_eq_true', List.isEmpty_eq_false_iff]
    exact List.ne_nil_of_mem (hsub _ c hc)

end

/-- Whether a method attributes some file of a commit. -/
def attributedBy (attributions : List Attribution) (source : AttributionSource) (sha : String) :
    Bool :=
  attributions.any (fun a => a.commitSha = sha && a.attributionSource = source)

/-- A row that counts each of its commits in one class, and every attributed commit in the
class of its method. Notes come before the other method. -/
structure Counts (attributions : List Attribution) (row : RepoAttributionShare)
    (commits : List String) : Prop where
  nodup : commits.Nodup
  agentPlausible : row.agentPlausibleCommits = commits.length
  attributed : ∀ a ∈ attributions, a.commitSha ∈ commits
  gitNotes : row.gitNotesAttributed = commits.countP (attributedBy attributions .gitNotes)
  jaccard : row.jaccardAttributed = commits.countP (fun sha =>
    !attributedBy attributions .gitNotes sha && attributedBy attributions .jaccard sha)
  unattributed : row.unattributed = commits.countP (fun sha =>
    !attributedBy attributions .gitNotes sha && !attributedBy attributions .jaccard sha)

theorem countP_classes {α : Type} (p q : α → Bool) (xs : List α) :
    xs.length = xs.countP p + xs.countP (fun x => !p x && q x) +
      xs.countP (fun x => !p x && !q x) := by
  induction xs with
  | nil => rfl
  | cons x xs ih =>
    simp only [List.length_cons, List.countP_cons]
    cases p x <;> cases q x <;> simp <;> omega

/-- The classes of a row partition its commits. -/
theorem Counts.partition {attributions : List Attribution} {row : RepoAttributionShare}
    {commits : List String} (h : Counts attributions row commits) :
    row.agentPlausibleCommits =
      row.gitNotesAttributed + row.jaccardAttributed + row.unattributed := by
  rw [h.agentPlausible, h.gitNotes, h.jaccard, h.unattributed]
  exact countP_classes _ _ commits

theorem mem_shareSources {result : AttributionResult} {sha : String} {source : AttributionSource} :
    source ∈ (shareSources result).members sha ↔
      attributedBy result.attributions source sha = true := by
  rw [shareSources, Dict.mem_members_collect]
  have hempty : source ∉ (Dict.empty : Dict String (Finset AttributionSource)).members sha := by
    simp [Dict.members]
  simp only [hempty, false_or, attributedBy, List.any_eq_true, Bool.and_eq_true, decide_eq_true_eq,
    List.mem_map, Prod.mk.injEq]

/-- The row of a tally counts the plausible commits by the sources of an attribution. -/
theorem counts_of_tally {mirror : RepoMirror} {policy : AttributionPolicy}
    {candidates : List Candidate} {notes : Option NoteMap} {key : RepositoryKey}
    {pushes : List Push} {result : AttributionResult} {row : RepoAttributionShare}
    (hp : ∀ a ∈ result.attributions,
      a.commitSha ∈ plausibleCommits mirror policy candidates notes key pushes)
    (ht : ∀ tally, tally = pushes.foldl (tallyPush mirror policy candidates notes key
        (shareSources result)) {} →
      row.agentPlausibleCommits = tally.agentPlausible ∧
      row.gitNotesAttributed = tally.gitNotes ∧ row.jaccardAttributed = tally.jaccard ∧
      row.unattributed = tally.unattributed) :
    Counts result.attributions row
      (plausibleCommits mirror policy candidates notes key pushes) := by
  obtain ⟨h1, h2, h3, h4⟩ := ht _ rfl
  obtain ⟨hall, hnotes, hjaccard, hnone⟩ := foldl_tallyPush mirror policy candidates notes key
    (shareSources result) pushes
  have hmem : ∀ sha source, decide (source ∈ (shareSources result).members sha) =
      attributedBy result.attributions source sha := by
    intro sha source
    rw [Bool.eq_iff_iff, decide_eq_true_eq]
    exact mem_shareSources
  refine ⟨nodup_plausibleCommits .., h1.trans hall, hp, ?_, ?_, ?_⟩
  · rw [h2, hnotes]
    simp only [hmem]
  · rw [h3, hjaccard]
    simp only [Bool.decide_and, decide_not, hmem]
  · rw [h4, hnone]
    simp only [Bool.decide_and, decide_not, hmem]

end Sediment.Proofs.AttributionShare
