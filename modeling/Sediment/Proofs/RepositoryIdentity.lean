import Sediment.Proofs.RepositoryOrder

namespace Sediment.Proofs.RepositoryIdentity
open Sediment.Base Sediment.Core Sediment.Derive
open Sediment.Proofs.RepositoryScan Sediment.Proofs.RepositoryContext
open Sediment.Proofs.RepositoryOrder

theorem identity_of_signature {a b : RepositoryIdentityEvidence}
    (h : evidenceSignature a = evidenceSignature b) :
    repositoryIdentityOf a = repositoryIdentityOf b := by
  simp only [evidenceSignature, EvidenceSignature.mk.injEq] at h
  simp only [repositoryIdentityOf, h]

/-- Further rows contradict a source or leave its signature as it was. -/
theorem sound_mono {rows rows' : List RepositoryIdentityEvidence}
    (hsub : ∀ row ∈ rows, row ∈ rows') {k row}
    (hg : (EvidenceScan.run rows).sound.get? k = some row)
    (hn : ¬ Contradicted rows' k) :
    ∃ row', (EvidenceScan.run rows').sound.get? k = some row' ∧
      evidenceSignature row' = evidenceSignature row := by
  obtain ⟨-, rfl, hr⟩ := sound_eq_some.mp hg
  exact sound_isSome (hsub row hr.1) hn

def observes (row : RepositoryIdentityEvidence) : SourceKey :=
  ⟨.pushes, row.sourcePushId.getD "", .repo⟩

theorem resolve_other {s : EvidenceScan} {row : RepositoryIdentityEvidence}
    (ht : row.sourceTable ≠ .sessionCommitObservations) :
    s.resolve row = ⟨repositoryIdentityOf row, [row], none⟩ := by
  simp only [EvidenceScan.resolve, sourceIdentity, if_pos ht]

/-- An observation takes its push's identity, unless its own contradicts it. -/
theorem resolve_observation {s : EvidenceScan} {row push : RepositoryIdentityEvidence}
    (ht : row.sourceTable = .sessionCommitObservations) (hc : observes row ∉ s.conflicts)
    (hg : s.sound.get? (observes row) = some push) {identity}
    (hi : repositoryIdentityOf push = some identity) :
    (s.resolve row).reason ≠ none ∨ (s.resolve row).identity = some identity := by
  simp only [observes] at hc hg
  simp only [EvidenceScan.resolve, sourceIdentity, ht, ne_eq, not_true_eq_false, if_false, hc, hg,
    hi]
  split <;> simp

theorem observation_cases {s : EvidenceScan} {row : RepositoryIdentityEvidence} {identity}
    (ht : row.sourceTable = .sessionCommitObservations) (hr : (s.resolve row).reason = none)
    (hi : (s.resolve row).identity = some identity) :
    ∃ push, s.sound.get? (observes row) = some push ∧ repositoryIdentityOf push = some identity := by
  simp only [EvidenceScan.resolve, sourceIdentity, ht, ne_eq, not_true_eq_false, if_false] at hr hi
  change ∃ push, s.sound.get? ⟨.pushes, row.sourcePushId.getD "", .repo⟩ = some push ∧ _
  split at hr
  · simp at hr
  · rename_i hc
    rw [if_neg hc] at hi
    cases hg : s.sound.get? ⟨.pushes, row.sourcePushId.getD "", .repo⟩ with
    | none =>
      -- Without the push an own identity is a failure, and no identity is none.
      simp only [hg] at hr hi
      rw [hi] at hr
      simp at hr
    | some push =>
      refine ⟨push, rfl, ?_⟩
      simp only [hg] at hr hi
      cases hp : repositoryIdentityOf push with
      | none =>
        simp only [hp] at hr hi
        split at hi
        · cases hi
        · split at hi <;> cases hi
      | some pushed =>
        simp only [hp] at hi
        split at hi
        · cases hi
        · exact hi

/-- More rows never move an identified source: it is declined or keeps its identity. -/
theorem resolve_mono {rows rows' : List RepositoryIdentityEvidence}
    (hsub : ∀ row ∈ rows, row ∈ rows') {row row' : RepositoryIdentityEvidence} {identity}
    (hs : evidenceSignature row' = evidenceSignature row)
    (hr : ((EvidenceScan.run rows).resolve row).reason = none)
    (hi : ((EvidenceScan.run rows).resolve row).identity = some identity) :
    ((EvidenceScan.run rows').resolve row').reason ≠ none ∨
      ((EvidenceScan.run rows').resolve row').identity = some identity := by
  have hid := identity_of_signature hs
  simp only [evidenceSignature, sourceKey, EvidenceSignature.mk.injEq, SourceKey.mk.injEq] at hs
  by_cases ht : row.sourceTable = .sessionCommitObservations
  · obtain ⟨push, hg, hp⟩ := observation_cases ht hr hi
    have hobs : observes row' = observes row := by simp only [observes, hs]
    have ht' : row'.sourceTable = .sessionCommitObservations := hs.1.1.trans ht
    by_cases hc : Contradicted rows' (observes row')
    · left
      have hmem := mem_conflicts.mpr hc
      simp only [observes] at hmem
      simp [EvidenceScan.resolve, sourceIdentity, ht', hmem]
    · obtain ⟨push', hg', hs'⟩ := sound_mono hsub hg (hobs ▸ hc)
      exact resolve_observation ht' (fun h => hc (mem_conflicts.mp h)) (hobs ▸ hg')
        ((identity_of_signature hs').trans hp)
  · right
    rw [resolve_other ht] at hi
    rw [resolve_other (fun h => ht (hs.1.1 ▸ h)), hid]
    exact hi

section
variable [Interpreter]

/-- Everything a resolved reference rests on. -/
theorem resolveReference_some {c : RepositoryContext} {orgId repo identity key}
    (h : (c.resolveReference orgId repo identity).key = some key) :
    ∃ slug, normalizeOrgId orgId = some c.orgId ∧ normalizeRepoSlug repo = some slug ∧
      slug ≠ "" ∧ ((identity = none ∧ key = .legacy c.orgId slug ∧ c.claims.contains slug = false ∧
          slug ∉ c.unsafeSlugs) ∨
        ∃ i, identity = some i ∧ key = .identified c.orgId i ∧
          slug ∈ c.observedRepoSlugs key) := by
  unfold RepositoryContext.resolveReference at h
  split at h
  · rename_i org slug ho hslug
    split at h
    · cases h
    · rename_i horg
      obtain rfl := not_not.mp horg
      split at h
      · cases h
      · rename_i hne
        refine ⟨slug, ho, hslug, hne, ?_⟩
        cases identity with
        | none =>
          dsimp only at h
          split at h
          · cases h
          · rename_i hclean
            simp only [not_or, Bool.not_eq_true] at hclean
            cases h
            exact Or.inl ⟨rfl, rfl, hclean⟩
        | some i =>
          dsimp only at h
          split at h
          · rename_i hname
            cases h
            exact Or.inr ⟨i, rfl, rfl, hname⟩
          · cases h
  · cases h

/-- A reference with an identity resolves to that identity or not at all. -/
theorem resolveReference_identity {c : RepositoryContext} {orgId repo identity key}
    (h : (c.resolveReference orgId repo (some identity)).key = some key) :
    key = .identified c.orgId identity := by
  obtain ⟨slug, -, -, -, ⟨hnone, -⟩ | ⟨i, hi, hkey, -⟩⟩ := resolveReference_some h
  · cases hnone
  · cases hi
    exact hkey

/-- A reference without identity resolves to the legacy key of its own name,
and only where nothing claims that name. -/
theorem resolveReference_legacy {c : RepositoryContext} {orgId repo key}
    (h : (c.resolveReference orgId repo none).key = some key) :
    ∃ slug, normalizeRepoSlug repo = some slug ∧ slug ≠ "" ∧ key = .legacy c.orgId slug ∧
      c.claims.contains slug = false ∧ slug ∉ c.unsafeSlugs := by
  obtain ⟨slug, -, hslug, hne, ⟨-, hkey⟩ | ⟨i, hi, -⟩⟩ := resolveReference_some h
  · exact ⟨slug, hslug, hne, hkey⟩
  · cases hi

variable {evidence evidence' : List RepositoryIdentityEvidence}
  {renames renames' : List RepositoryRename} {orgId : String} {asOf : Int}

/-- What a source that resolved to an identified repository rests on. -/
theorem resolved_identified {k : SourceKey} {o identity}
    (h : ((assembleContext evidence renames orgId asOf).resolveSource k.table k.factId
      k.role).key = some (.identified o identity)) :
    ∃ row, (EvidenceScan.run evidence).sound.get? k = some row ∧
      ((EvidenceScan.run evidence).resolve row).reason = none ∧
      ((EvidenceScan.run evidence).resolve row).identity = some identity ∧ o = orgId := by
  by_cases hc : Contradicted evidence k
  · rw [resolveSource_conflict _ _ _ hc] at h; cases h
  · by_cases hk : ∃ row ∈ evidence, sourceKey row = k
    · obtain ⟨a, ha, rfl⟩ := hk
      obtain ⟨row, hg, -⟩ := sound_isSome ha hc
      rw [resolveSource_sound hg] at h
      unfold sourceResolution at h
      split at h
      · cases h
      · rename_i hr
        refine ⟨row, hg, hr, ?_⟩
        cases hi : ((EvidenceScan.run evidence).resolve row).identity with
        | none =>
          rw [hi] at h
          obtain ⟨slug, -, -, he, -⟩ := resolveReference_legacy h
          cases he
        | some identity' =>
          rw [hi] at h
          have he := resolveReference_identity h
          cases he
          exact ⟨rfl, rfl⟩
    · simp only [not_exists, not_and] at hk
      rw [resolveSource_absent hk] at h
      cases h

/-- A context answers for its own organization only. -/
theorem resolveSource_org {k : SourceKey} {key : RepositoryKey}
    (h : ((assembleContext evidence renames orgId asOf).resolveSource k.table k.factId
      k.role).key = some key) : key.orgId = orgId := by
  by_cases hc : Contradicted evidence k
  · rw [resolveSource_conflict _ _ _ hc] at h; cases h
  · by_cases hk : ∃ row ∈ evidence, sourceKey row = k
    · obtain ⟨a, ha, rfl⟩ := hk
      obtain ⟨row, hg, -⟩ := sound_isSome ha hc
      rw [resolveSource_sound hg] at h
      unfold sourceResolution at h
      split at h
      · cases h
      · obtain ⟨slug, -, -, -, ⟨-, rfl, -⟩ | ⟨i, -, rfl, -⟩⟩ := resolveReference_some h <;> rfl
    · simp only [not_exists, not_and] at hk
      rw [resolveSource_absent hk] at h
      cases h

theorem resolveFact_org {fact : RepositoryIdentityEvidence} {key : RepositoryKey}
    (h : ((assembleContext evidence renames orgId asOf).resolveFact fact).key = some key) :
    key.orgId = orgId ∧ normalizeOrgId fact.orgId = some fact.orgId := by
  unfold RepositoryContext.resolveFact at h
  split at h
  · cases h
  · rename_i projection hp
    refine ⟨?_, (validateEvidence_cases hp).2.2.2⟩
    dsimp only at h
    split at h
    · exact resolveSource_org (k := sourceKey projection) h
    · split at h
      · cases h
      · split at h
        · cases h
        · exact resolveSource_org (k := sourceKey projection) h

/-- A source that rests on an identity resolves to it or is declined. -/
theorem resolveSource_of_identity {k : SourceKey} {row : RepositoryIdentityEvidence} {identity}
    (hg : (EvidenceScan.run evidence).sound.get? k = some row)
    (hr : ((EvidenceScan.run evidence).resolve row).reason ≠ none ∨
      ((EvidenceScan.run evidence).resolve row).identity = some identity) :
    ((assembleContext evidence renames orgId asOf).resolveSource k.table k.factId
        k.role).key = none ∨
      ((assembleContext evidence renames orgId asOf).resolveSource k.table k.factId
        k.role).key = some (.identified orgId identity) := by
  rw [resolveSource_sound hg]
  unfold sourceResolution
  split
  · exact Or.inl rfl
  · rename_i hnone
    have hi := hr.resolve_left (fun h => h hnone)
    rw [hi]
    cases hkey : ((lookupContext evidence renames orgId asOf).resolveReference
        (lookupContext evidence renames orgId asOf).orgId row.repo (some identity)).key with
    | none => exact Or.inl rfl
    | some key => exact Or.inr (congrArg some (resolveReference_identity hkey))

theorem resolveSource_mono (hsub : ∀ row ∈ evidence, row ∈ evidence') {k : SourceKey} {key}
    (hkey : ((assembleContext evidence renames orgId asOf).resolveSource k.table k.factId
      k.role).key = some key) (hid : ∃ o i, key = .identified o i) :
    ((assembleContext evidence' renames' orgId asOf).resolveSource k.table k.factId
        k.role).key = none ∨
      ((assembleContext evidence' renames' orgId asOf).resolveSource k.table k.factId
        k.role).key = some key := by
  obtain ⟨o, identity, rfl⟩ := hid
  obtain ⟨row, hg, hr, hi, rfl⟩ := resolved_identified hkey
  by_cases hc : Contradicted evidence' k
  · left
    rw [resolveSource_conflict _ _ _ hc]
  · obtain ⟨row', hg', hs⟩ := sound_mono hsub hg hc
    exact resolveSource_of_identity hg' (resolve_mono hsub hs hr hi)

/-- A conflicting source never resolves, and neither does any Fact that names it. -/
theorem resolveFact_conflict {k : SourceKey} (hc : Contradicted evidence k)
    {fact : RepositoryIdentityEvidence} (hf : sourceKey fact = k) :
    ((assembleContext evidence renames orgId asOf).resolveFact fact).key = none := by
  unfold RepositoryContext.resolveFact
  split
  · rfl
  · rename_i projection hp
    have hproj := validateEvidence_ok hp
    subst hproj
    have hres := resolveSource_conflict renames orgId asOf
      (hf ▸ hc)
    simp only [sourceKey] at hres
    simp [hres]

omit [Interpreter] in
theorem mem_inScope {row : RepositoryIdentityEvidence} :
    row ∈ inScope orgId asOf evidence ↔
      row ∈ evidence ∧ row.orgId = orgId ∧ row.capturedAt.utc ≤ asOf := by
  simp [inScope]

theorem mem_renamesInScope {names : List RepositoryRename} {row : RepositoryRename}
    (hn : renames.mapM validateRename = .ok names) :
    row ∈ renamesInScope orgId asOf names ↔
      (∃ raw ∈ renames, validateRename raw = .ok row) ∧ row.orgId = orgId ∧
        row.capturedAt.utc ≤ asOf := by
  simp only [renamesInScope, List.mem_filter, mem_of_mapM_ok hn,
    decide_eq_true_eq]

variable {rawOrg : String} {c d : RepositoryContext}

theorem build_resolve_mono (hc : buildRepositoryContext evidence renames rawOrg asOf = .ok c)
    (hd : buildRepositoryContext evidence' renames' rawOrg asOf = .ok d)
    (hsub : ∀ row ∈ evidence, row ∈ evidence') (table factId role o identity)
    (hkey : (c.resolveSource table factId role).key = some (.identified o identity)) :
    (d.resolveSource table factId role).key = none ∨
      (d.resolveSource table factId role).key = some (.identified o identity) := by
  obtain ⟨orgId, names, ho, -, -, -, rfl⟩ := build_ok hc
  obtain ⟨orgId', names', ho', -, -, -, rfl⟩ := build_ok hd
  obtain rfl : orgId = orgId' := by rw [ho] at ho'; exact Option.some.inj ho'
  refine resolveSource_mono (k := ⟨table, factId, role⟩) ?_ hkey ⟨o, identity, rfl⟩
  intro row hr
  rw [mem_inScope] at hr ⊢
  exact ⟨hsub row hr.1, hr.2⟩

theorem build_conflict (hc : buildRepositoryContext evidence renames rawOrg asOf = .ok c)
    {a b : RepositoryIdentityEvidence} (ha : a ∈ inScope c.orgId c.asOf evidence)
    (hb : b ∈ inScope c.orgId c.asOf evidence) (hk : sourceKey a = sourceKey b)
    (hs : evidenceSignature a ≠ evidenceSignature b) :
    (c.resolveSource a.sourceTable a.sourceFactId a.role).key = none ∧
      ∀ fact, sourceKey fact = sourceKey a → (c.resolveFact fact).key = none := by
  obtain ⟨orgId, names, -, -, -, -, rfl⟩ := build_ok hc
  have hcon : Contradicted (inScope orgId asOf evidence) (sourceKey a) :=
    ⟨a, ha, b, hb, rfl, hk.symm, hs⟩
  exact ⟨congrArg RepositoryResolution.key (resolveSource_conflict _ _ _ hcon),
    fun fact hf => resolveFact_conflict hcon hf⟩

theorem build_legacy (hc : buildRepositoryContext evidence renames rawOrg asOf = .ok c)
    {refOrg repo key} (hkey : (c.resolveReference refOrg repo none).key = some key) :
    ∃ slug, normalizeRepoSlug repo = some slug ∧ key = .legacy c.orgId slug ∧
      (∀ row ∈ inScope c.orgId c.asOf evidence, row.repo = slug →
        repositoryIdentityOf row = none) ∧
      (∀ raw ∈ renames, ∀ row, validateRename raw = .ok row → row.orgId = c.orgId →
        row.capturedAt.utc ≤ c.asOf → row.oldRepo ≠ slug ∧ row.newRepo ≠ slug) ∧
      (∀ table factId role o i, (c.resolveSource table factId role).key = some (.identified o i) →
        slug ∉ c.observedRepoSlugs (.identified o i)) ∧
      slug ∉ c.unsafeSlugs := by
  obtain ⟨slug, hslug, hne, rfl, hclaims, hunsafe⟩ := resolveReference_legacy hkey
  obtain ⟨orgId, names, -, -, -, hn, rfl⟩ := build_ok hc
  have hnone : ∀ i, ¬ Claimed (inScope orgId asOf evidence) (renamesInScope orgId asOf names)
      slug i := by
    intro i hi
    rw [claims_contains.mpr ⟨i, hi⟩] at hclaims
    cases hclaims
  refine ⟨slug, hslug, rfl, ?_, ?_, ?_, hunsafe⟩
  · intro row hr hrepo
    cases hi : repositoryIdentityOf row with
    | none => rfl
    | some i => exact absurd (Or.inr (Or.inl ⟨row, hr, hi, hrepo, hne⟩)) (hnone i)
  · intro raw hraw row hv ho ht
    have hmem := (mem_renamesInScope hn).mpr ⟨⟨raw, hraw, hv⟩, ho, ht⟩
    refine ⟨fun h => ?_, fun h => ?_⟩
    · exact hnone _ (Or.inl ⟨row, hmem, rfl, by simp [h]⟩)
    · exact hnone _ (Or.inl ⟨row, hmem, rfl, by simp [h]⟩)
  · intro table factId role o i hres hname
    obtain ⟨row, hg, hr, hi, rfl⟩ := resolved_identified (k := ⟨table, factId, role⟩) hres
    rcases mem_observed.mp hname with ⟨n, hnm, -, hk, hs⟩ | ⟨identity, hd, hk⟩
    · exact hnone _ (Or.inl ⟨n, hnm, rfl, hs⟩)
    · cases identity with
      | none => cases hk
      | some j => exact hnone j (Or.inr (Or.inr hd))

/-- The population decides the context, not the order or the number of its
rows. A source whose copies conflict never resolves; a bare name reaches only
the legacy key that nothing claims; and an identified source keeps its
repository or is declined as more evidence arrives. -/
theorem context_order_independent (evidence : List RepositoryIdentityEvidence)
    (renames : List RepositoryRename) (rawOrg : String) (asOf : Int) :
    (∀ evidence' renames', evidence.Perm evidence' → renames.Perm renames' →
      SameResult (buildRepositoryContext evidence renames rawOrg asOf)
        (buildRepositoryContext evidence' renames' rawOrg asOf)) ∧
    ∀ c, buildRepositoryContext evidence renames rawOrg asOf = .ok c →
      (∀ evidence' renames', SameRows evidence evidence' → SameRows renames renames' →
        evidence'.length ≤ repositoryIdentityLimit → renames'.length ≤ repositoryIdentityLimit →
        ∃ d, buildRepositoryContext evidence' renames' rawOrg asOf = .ok d ∧
          SameContext c d ∧ c.repositoryKeys = d.repositoryKeys) ∧
      (∀ a ∈ inScope c.orgId c.asOf evidence, ∀ b ∈ inScope c.orgId c.asOf evidence,
        sourceKey a = sourceKey b → evidenceSignature a ≠ evidenceSignature b →
        (c.resolveSource a.sourceTable a.sourceFactId a.role).key = none ∧
          ∀ fact, sourceKey fact = sourceKey a → (c.resolveFact fact).key = none) ∧
      (∀ refOrg repo key, (c.resolveReference refOrg repo none).key = some key →
        ∃ slug, normalizeRepoSlug repo = some slug ∧ key = .legacy c.orgId slug ∧
          (∀ row ∈ inScope c.orgId c.asOf evidence, row.repo = slug →
            repositoryIdentityOf row = none) ∧
          (∀ raw ∈ renames, ∀ row, validateRename raw = .ok row → row.orgId = c.orgId →
            row.capturedAt.utc ≤ c.asOf → row.oldRepo ≠ slug ∧ row.newRepo ≠ slug) ∧
          (∀ table factId role o i,
            (c.resolveSource table factId role).key = some (.identified o i) →
            slug ∉ c.observedRepoSlugs (.identified o i)) ∧
          slug ∉ c.unsafeSlugs) ∧
      (∀ evidence' renames' d, (∀ row ∈ evidence, row ∈ evidence') →
        (∀ row ∈ renames, row ∈ renames') →
        buildRepositoryContext evidence' renames' rawOrg asOf = .ok d →
        ∀ table factId role o i,
          (c.resolveSource table factId role).key = some (.identified o i) →
          (d.resolveSource table factId role).key = none ∨
            (d.resolveSource table factId role).key = some (.identified o i)) := by
  refine ⟨?_, fun c hc => ⟨?_, ?_, ?_, ?_⟩⟩
  · intro evidence' renames' he hr
    exact build_sameRows _ _ (fun _ => he.mem_iff) (fun _ => hr.mem_iff)
      (by rw [he.length_eq]) (by rw [hr.length_eq])
  · intro evidence' renames' he hr hle hlr
    obtain ⟨orgId, names, -, hle', hlr', -, -⟩ := build_ok hc
    have hsame := build_sameRows rawOrg asOf he hr
      (by simp [hle, hle']) (by simp [hlr, hlr'])
    rw [hc] at hsame
    cases hd : buildRepositoryContext evidence' renames' rawOrg asOf with
    | error e => rw [hd] at hsame; exact hsame.elim
    | ok d => rw [hd] at hsame; exact ⟨d, rfl, hsame⟩
  · intro a ha b hb hk hs
    exact build_conflict hc ha hb hk hs
  · intro refOrg repo key hkey
    exact build_legacy hc hkey
  · intro evidence' renames' d hsub _ hd table factId role o i hkey
    exact build_resolve_mono hc hd hsub table factId role o i hkey

end

/-- `str.lower` on the names below, which are lower case already. -/
@[reducible] def lowerCase : Interpreter := ⟨id⟩

def noon : AwareDatetime := ⟨5, "1970-01-01T00:00:00.000005+00:00", "datetime.timezone.utc", 0⟩

def copyNaming (repo : String) : RepositoryIdentityEvidence :=
  ⟨.pushes, "p1", .repo, "acme", repo, none, none, none, noon, none⟩

theorem conflicting_copies_declined :
    ∃ c, @buildRepositoryContext lowerCase [copyNaming "acme/a", copyNaming "acme/b"] [] "acme" 9 =
        .ok c ∧ (c.resolveSource .pushes "p1" .repo).key = none := by
  obtain ⟨c, hc, ho, ht⟩ : ∃ c, @buildRepositoryContext lowerCase
      [copyNaming "acme/a", copyNaming "acme/b"] [] "acme" 9 = .ok c ∧ c.orgId = "acme" ∧
        c.asOf = 9 := ⟨_, rfl, rfl, rfl⟩
  have h := (@context_order_independent lowerCase [copyNaming "acme/a", copyNaming "acme/b"] []
    "acme" 9).2 c hc
  rw [ho, ht] at h
  exact ⟨c, hc, (h.2.1 (copyNaming "acme/a") (by decide) (copyNaming "acme/b") (by decide) rfl
    (by decide)).1⟩

end Sediment.Proofs.RepositoryIdentity
