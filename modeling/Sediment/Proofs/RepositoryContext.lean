import Sediment.Proofs.RepositoryScan

namespace Sediment.Proofs.RepositoryContext
open Sediment.Base Sediment.Core Sediment.Derive
open Sediment.Proofs.RepositoryScan

/-- Contexts that give the same answers about names: the order in which a
dictionary was filled is not part of it. -/
structure SameNames (c d : RepositoryContext) : Prop where
  orgId : c.orgId = d.orgId
  names : c.names.Same d.names
  claims : c.claims.Same d.claims
  unsafeSlugs : c.unsafeSlugs = d.unsafeSlugs

structure SameContext (c d : RepositoryContext) : Prop extends SameNames c d where
  asOf : c.asOf = d.asOf
  skipped : c.skipped = d.skipped
  renameSkipped : c.renameSkipped = d.renameSkipped
  sources : c.sources.Same d.sources
  resolutions : c.resolutions.Same d.resolutions

theorem SameContext.refl (c : RepositoryContext) : SameContext c c :=
  ⟨⟨rfl, fun _ => rfl, fun _ => rfl, rfl⟩, rfl, rfl, rfl, fun _ => rfl, fun _ => rfl⟩

theorem SameContext.symm {c d : RepositoryContext} (h : SameContext c d) : SameContext d c :=
  ⟨⟨h.orgId.symm, fun k => (h.names k).symm, fun k => (h.claims k).symm, h.unsafeSlugs.symm⟩,
    h.asOf.symm, h.skipped.symm, h.renameSkipped.symm, fun k => (h.sources k).symm,
    fun k => (h.resolutions k).symm⟩

theorem repositorySortKey_injective : Function.Injective repositorySortKey := by
  intro a b h
  cases a <;> cases b <;> simp only [repositorySortKey, List.cons.injEq, and_true] at h
  · rename_i org i org' i'
    obtain ⟨rfl, -, -, hh, hr⟩ := h
    have hi : i = i' := by
      rw [RepositoryIdentity.mk.injEq]
      exact ⟨rfl, hh, hr⟩
    rw [hi]
  · simp at h
  · simp at h
  · obtain ⟨rfl, -, rfl⟩ := h
    rfl

theorem commitSortKey_injective : Function.Injective commitSortKey := by
  intro a b h
  obtain ⟨hrepository, hsha⟩ := List.append_inj' h rfl
  cases a
  cases b
  cases repositorySortKey_injective hrepository
  cases List.singleton_inj.mp hsha
  rfl

section
variable {c d : RepositoryContext}

theorem SameNames.observedRepoSlugs (h : SameNames c d) (key : RepositoryKey) :
    c.observedRepoSlugs key = d.observedRepoSlugs key := by
  rw [RepositoryContext.observedRepoSlugs, RepositoryContext.observedRepoSlugs, h.names key]

theorem SameNames.repositoryKeys (h : SameNames c d) : c.repositoryKeys = d.repositoryKeys :=
  sortedBy_congr h.names.keys_perm (fun _ _ _ _ he => repositorySortKey_injective he)

theorem SameContext.resolveSource (h : SameContext c d) (table : FactTable) (factId : String)
    (role : RepositoryRole) :
    c.resolveSource table factId role = d.resolveSource table factId role := by
  rw [RepositoryContext.resolveSource, RepositoryContext.resolveSource, h.resolutions]

variable [Interpreter]

theorem SameNames.resolveReference (h : SameNames c d) (orgId repo : String)
    (identity : Option RepositoryIdentity) :
    c.resolveReference orgId repo identity = d.resolveReference orgId repo identity := by
  simp only [RepositoryContext.resolveReference, h.orgId, h.names _, h.claims.contains,
    h.unsafeSlugs]

theorem SameNames.selectRepository (h : SameNames c d) (orgId : String) (repo : Option String)
    (identity : Option RepositoryIdentity) :
    c.selectRepository orgId repo identity = d.selectRepository orgId repo identity := by
  have hn : c.observedRepoSlugs = d.observedRepoSlugs := funext h.observedRepoSlugs
  have hm : c.claims.members = d.claims.members := by
    funext slug
    rw [Dict.members, Dict.members, h.claims slug]
  unfold RepositoryContext.selectRepository
  rw [h.orgId, hn, hm, h.unsafeSlugs]

theorem SameNames.sourceResolution (h : SameNames c d) (result : SourceIdentity) (repo : String) :
    sourceResolution c result repo = sourceResolution d result repo := by
  simp only [Derive.sourceResolution, h.orgId, h.resolveReference]

theorem SameContext.resolveFact (h : SameContext c d) (fact : RepositoryIdentityEvidence) :
    c.resolveFact fact = d.resolveFact fact := by
  simp only [RepositoryContext.resolveFact, h.resolveSource, h.sources _]

end

/-- A valid rename, or a source without a failure, gives the key this name. -/
def Named (evidence : List RepositoryIdentityEvidence) (renames : List RepositoryRename)
    (orgId : String) (key : RepositoryKey) (slug : String) : Prop :=
  (∃ n ∈ renames, ¬ RenameContradicted renames n.renameId ∧
    key = .identified orgId (renameIdentityOf n) ∧ slug ∈ [n.oldRepo, n.newRepo]) ∨
  (∃ identity, (slug, identity) ∈ (EvidenceScan.run evidence).declared ∧
    key = effectiveKey orgId slug identity)

/-- Some row, valid or not, associates the name with the identity. -/
def Claimed (evidence : List RepositoryIdentityEvidence) (renames : List RepositoryRename)
    (slug : String) (identity : RepositoryIdentity) : Prop :=
  (∃ n ∈ renames, renameIdentityOf n = identity ∧ slug ∈ [n.oldRepo, n.newRepo]) ∨
  (∃ row ∈ evidence, repositoryIdentityOf row = some identity ∧ row.repo = slug ∧ slug ≠ "") ∨
  (slug, some identity) ∈ (EvidenceScan.run evidence).declared

def Unsafe (evidence : List RepositoryIdentityEvidence) (renames : List RepositoryRename)
    (slug : String) : Prop :=
  (∃ n ∈ renames, RenameContradicted renames n.renameId ∧ slug ∈ [n.oldRepo, n.newRepo]) ∨
  (∃ row ∈ evidence, Contradicted evidence (sourceKey row) ∧ row.repo = slug)

theorem mem_collect_empty {κ α : Type} [DecidableEq κ] [DecidableEq α] {pairs : List (κ × α)}
    {k : κ} {v : α} : v ∈ (Dict.empty.collect pairs).members k ↔ (k, v) ∈ pairs := by
  rw [Dict.mem_members_collect]
  simp [Dict.members]

theorem mem_valid_pairs {renames orgId key slug} :
    (key, slug) ∈ (RenameScan.run renames).valid.flatMap (fun (identity, oldRepo, newRepo) =>
      [(RepositoryKey.identified orgId identity, oldRepo), (.identified orgId identity, newRepo)]) ↔
    ∃ n ∈ renames, ¬ RenameContradicted renames n.renameId ∧
      key = .identified orgId (renameIdentityOf n) ∧ slug ∈ [n.oldRepo, n.newRepo] := by
  simp only [List.mem_flatMap, mem_valid, List.mem_cons, Prod.mk.injEq, List.not_mem_nil, or_false]
  constructor
  · rintro ⟨_, ⟨n, hn, hc, rfl⟩, ⟨hk, hs⟩ | ⟨hk, hs⟩⟩
    · exact ⟨n, hn, hc, hk, Or.inl hs⟩
    · exact ⟨n, hn, hc, hk, Or.inr hs⟩
  · rintro ⟨n, hn, hc, hk, hs | hs⟩
    · exact ⟨_, ⟨n, hn, hc, rfl⟩, Or.inl ⟨hk, hs⟩⟩
    · exact ⟨_, ⟨n, hn, hc, rfl⟩, Or.inr ⟨hk, hs⟩⟩

theorem mem_declared_pairs {evidence orgId key slug} :
    (key, slug) ∈ (EvidenceScan.run evidence).declared.map (fun (repo, identity) =>
      (effectiveKey orgId repo identity, repo)) ↔
    ∃ identity, (slug, identity) ∈ (EvidenceScan.run evidence).declared ∧
      key = effectiveKey orgId slug identity := by
  simp only [List.mem_map, Prod.exists, Prod.mk.injEq]
  constructor
  · rintro ⟨_, identity, hd, hk, rfl⟩
    exact ⟨identity, hd, hk.symm⟩
  · rintro ⟨identity, hd, hk⟩
    exact ⟨slug, identity, hd, hk.symm, rfl⟩

theorem mem_contextNames {evidence renames orgId key slug} :
    slug ∈ (contextNames (EvidenceScan.run evidence) (RenameScan.run renames) orgId).members key ↔
      Named evidence renames orgId key slug := by
  rw [contextNames, Dict.mem_members_collect, mem_collect_empty, mem_valid_pairs,
    mem_declared_pairs, Named]

theorem mem_contextNames_keys {evidence renames orgId key} :
    key ∈ (contextNames (EvidenceScan.run evidence) (RenameScan.run renames) orgId).keys ↔
      ∃ slug, Named evidence renames orgId key slug := by
  simp only [contextNames, Dict.mem_keys_collect, mem_valid_pairs, mem_declared_pairs, Named,
    exists_or]
  simp [Dict.keys, Dict.empty]

theorem mem_contextClaims {evidence renames slug identity} :
    identity ∈ (contextClaims (EvidenceScan.run evidence) (RenameScan.run renames)).members slug ↔
      Claimed evidence renames slug identity := by
  rw [contextClaims, Dict.mem_members_collect, Dict.mem_members_collect, mem_collect_empty,
    mem_rename_claims, mem_scan_claims, Claimed, or_assoc]
  simp

theorem mem_contextClaims_keys {evidence renames slug} :
    slug ∈ (contextClaims (EvidenceScan.run evidence) (RenameScan.run renames)).keys ↔
      ∃ identity, Claimed evidence renames slug identity := by
  simp only [contextClaims, Dict.mem_keys_collect, mem_rename_claims, mem_scan_claims, Claimed,
    exists_or, or_assoc]
  simp [Dict.keys, Dict.empty]

section
variable [Interpreter] {evidence evidence' : List RepositoryIdentityEvidence}
  {renames renames' : List RepositoryRename} {orgId : String} {asOf : Int}

theorem mem_observed {key : RepositoryKey} {slug : String} :
    slug ∈ (assembleContext evidence renames orgId asOf).observedRepoSlugs key ↔
      Named evidence renames orgId key slug := by
  change slug ∈ (((contextNames _ _ _).mapValues _).get? key).getD [] ↔ _
  rw [← mem_contextNames, Dict.get?_mapValues, Dict.members]
  cases (contextNames (EvidenceScan.run evidence) (RenameScan.run renames) orgId).get? key with
  | none => simp
  | some slugs => simp

theorem claims_contains {slug : String} :
    (assembleContext evidence renames orgId asOf).claims.contains slug = true ↔
      ∃ identity, Claimed evidence renames slug identity := by
  rw [Dict.contains_iff]
  exact mem_contextClaims_keys

theorem mem_contextUnsafe {slug : String} :
    slug ∈ (assembleContext evidence renames orgId asOf).unsafeSlugs ↔
      Unsafe evidence renames slug := by
  change slug ∈ (_ ∪ _ : Finset String) ↔ _
  rw [Finset.mem_union, mem_rename_unsafe, mem_scan_unsafe, Unsafe]

/-- The names of a context are decided by which names, claims and unsafe
names its population gives. -/
theorem sameNames_of_iff
    (hn : ∀ key slug, Named evidence renames orgId key slug ↔
      Named evidence' renames' orgId key slug)
    (hc : ∀ slug i, Claimed evidence renames slug i ↔ Claimed evidence' renames' slug i)
    (hu : ∀ slug, Unsafe evidence renames slug ↔ Unsafe evidence' renames' slug) :
    SameNames (assembleContext evidence renames orgId asOf)
      (assembleContext evidence' renames' orgId asOf) where
  orgId := rfl
  names := by
    refine Dict.Same.mapValues (Dict.same_of_members ?_ ?_) _
    · intro key
      simp only [mem_contextNames_keys, hn]
    · intro key slug
      simp only [mem_contextNames, hn]
  claims := by
    refine Dict.same_of_members ?_ ?_
    · intro slug
      exact mem_contextClaims_keys.trans
        ((exists_congr (hc slug)).trans mem_contextClaims_keys.symm)
    · intro slug identity
      exact mem_contextClaims.trans ((hc slug identity).trans mem_contextClaims.symm)
  unsafeSlugs := by
    ext slug
    rw [mem_contextUnsafe, mem_contextUnsafe, hu]

/-- The sources are answered from the same names as the finished context. -/
theorem SameNames.lookup
    (h : SameNames (assembleContext evidence renames orgId asOf)
      (assembleContext evidence' renames' orgId asOf)) :
    SameNames (lookupContext evidence renames orgId asOf)
      (lookupContext evidence' renames' orgId asOf) :=
  ⟨h.orgId, h.names, h.claims, h.unsafeSlugs⟩

omit [Interpreter] in
theorem mem_conflicts_sourceCopies {k : SourceKey}
    (hk : k ∈ (EvidenceScan.run evidence).conflicts) :
    k ∈ (EvidenceScan.run evidence).sourceCopies.keys := by
  obtain ⟨a, ha, _, _, hak, _⟩ := mem_conflicts.mp hk
  exact mem_sourceCopies_keys.mpr ⟨a, ha, hak⟩

theorem get?_resolutions (k : SourceKey) :
    (assembleContext evidence renames orgId asOf).resolutions.get? k =
      if k ∈ (EvidenceScan.run evidence).conflicts then
        some { reason := some .identityConflict }
      else ((EvidenceScan.run evidence).sound.get? k).map (fun row =>
        sourceResolution (lookupContext evidence renames orgId asOf)
          ((EvidenceScan.run evidence).resolve row) row.repo) := by
  simp only [assembleContext, Dict.get?_update, Dict.get?_mapValues, Dict.get?_filter]
  by_cases hk : k ∈ (EvidenceScan.run evidence).conflicts
  · obtain ⟨copies, hcopies⟩ := (Dict.mem_keys_iff _).mp (mem_conflicts_sourceCopies hk)
    simp [hk, hcopies, EvidenceScan.sound, Dict.get?_filter]
  · simp [hk]

variable (renames orgId asOf) in
theorem resolveSource_conflict {k : SourceKey} (hk : Contradicted evidence k) :
    (assembleContext evidence renames orgId asOf).resolveSource k.table k.factId k.role =
      { reason := some .identityConflict } := by
  rw [RepositoryContext.resolveSource, get?_resolutions, if_pos (mem_conflicts.mpr hk)]
  rfl

theorem resolveSource_sound {k : SourceKey} {row : RepositoryIdentityEvidence}
    (hg : (EvidenceScan.run evidence).sound.get? k = some row) :
    (assembleContext evidence renames orgId asOf).resolveSource k.table k.factId k.role =
      sourceResolution (lookupContext evidence renames orgId asOf)
        ((EvidenceScan.run evidence).resolve row) row.repo := by
  have hk : k ∉ (EvidenceScan.run evidence).conflicts :=
    fun h => (sound_eq_some.mp hg).1 (mem_conflicts.mp h)
  rw [RepositoryContext.resolveSource, get?_resolutions, if_neg hk, hg]
  rfl

theorem resolveSource_absent {k : SourceKey} (hk : ∀ row ∈ evidence, sourceKey row ≠ k) :
    (assembleContext evidence renames orgId asOf).resolveSource k.table k.factId k.role =
      { reason := some .sourceAbsent } := by
  have hn : k ∉ (EvidenceScan.run evidence).conflicts := by
    intro h
    obtain ⟨a, ha, _, _, hak, _⟩ := mem_conflicts.mp h
    exact hk a ha hak
  have hs : (EvidenceScan.run evidence).sound.get? k = none := by
    cases hg : (EvidenceScan.run evidence).sound.get? k with
    | none => rfl
    | some row =>
      obtain ⟨-, hrk, hr⟩ := sound_eq_some.mp hg
      exact absurd hrk (hk row hr.1)
  rw [RepositoryContext.resolveSource, get?_resolutions, if_neg hn, hs]
  rfl

end

end Sediment.Proofs.RepositoryContext
