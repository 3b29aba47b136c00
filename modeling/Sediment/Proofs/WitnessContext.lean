import Sediment.Proofs.StoreReads

namespace Sediment.Proofs.WitnessContext
open Sediment.Base Sediment.Core Sediment.Derive
open Sediment.Proofs.RepositoryScan Sediment.Proofs.RepositoryContext
open Sediment.Proofs.RepositoryOrder Sediment.Proofs.RepositoryIdentity
open Sediment.Proofs.RepositoryWitnesses Sediment.Proofs.StoreReads

section
variable [Interpreter]

/-- A store whose rows passed the models they were written through, as the
checks of its tables also require. -/
structure TypedStore extends RepositoryStore where
  facts_valid : ∀ f ∈ facts, ∀ source ∈ sourceRoles, f.table = source.1 →
    (validateEvidence (repositoryEvidence f source.2)).isOk
  renames_valid : ∀ n ∈ renames, validateRename n = .ok n

variable {s : TypedStore} {orgId : String} {through : Int}

theorem validate_projected {row : RepositoryIdentityEvidence}
    (h : Projected s.toRepositoryStore orgId through row) : validateEvidence row = .ok row := by
  obtain ⟨table, role, hr, f, hf, rfl⟩ := h
  obtain ⟨hm, rfl, -⟩ := mem_visible.mp hf
  have hok := s.facts_valid f hm (f.table, role) hr rfl
  cases hv : validateEvidence (repositoryEvidence f role) with
  | error e => rw [hv] at hok; cases hok
  | ok v => rw [validateEvidence_ok hv]

omit [Interpreter] in
theorem mem_visibleRenames {store : RepositoryStore} {n : RepositoryRename} :
    n ∈ store.visibleRenames orgId through ↔ n ∈ store.renames ∧ n.orgId = orgId ∧
      store.latestAction n.orgId .repositoryRenames n.renameId ≠ some .quarantine ∧
      n.capturedAt.utc ≤ through := by
  simp [RepositoryStore.visibleRenames]

theorem visibleRenames_unique {names : List RepositoryRename}
    (h : ∀ n, n ∈ names ↔ n ∈ s.visibleRenames orgId through) : UniqueRenames names where
  key := by
    intro a ha b hb hid
    by_contra hne
    have hsymm : Std.Symm (fun a b : RepositoryRename => a.renameId ≠ b.renameId) :=
      ⟨fun _ _ h => h.symm⟩
    exact s.renameKey.forall (mem_visibleRenames.mp ((h a).mp ha)).1
      (mem_visibleRenames.mp ((h b).mp hb)).1 hne hid
  delivery := by
    intro a ha b hb d hda hdb
    obtain ⟨hma, hoa, -⟩ := mem_visibleRenames.mp ((h a).mp ha)
    obtain ⟨hmb, hob, -⟩ := mem_visibleRenames.mp ((h b).mp hb)
    simp only [deliveryKey, Option.map_eq_some_iff] at hda hdb
    obtain ⟨ea, hea, rfl⟩ := hda
    obtain ⟨eb, heb, he⟩ := hdb
    simp only [DeliveryKey.mk.injEq] at he
    exact s.renameDelivery a hma b hmb (hoa.trans hob.symm) rfl he.2.1.symm
      (by simp [hea]) (by rw [hea, heb, he.2.2])

/-- The push an observation is joined with is the one its identity rests on. -/
theorem sound_anchor {rows : List RepositoryIdentityEvidence}
    (hrows : ∀ row, row ∈ rows ↔ Projected s.toRepositoryStore orgId through row)
    (hu : UniqueSources rows) {f : StoredFact}
    (hf : f ∈ s.visible orgId through .sessionCommitObservations) :
    (EvidenceScan.run rows).sound.get? (observes (repositoryEvidence f .repo)) =
      (s.anchor orgId through f).map (repositoryEvidence · .repo) := by
  obtain ⟨hm, ht, -⟩ := mem_visible.mp hf
  have hp := (validateEvidence_cases (validate_projected
    ⟨_, .repo, by simp [sourceRoles], f, hf, rfl⟩)).2.2.1.mp ht
  have hpush : (repositoryEvidence f .repo).sourcePushId = f.sourcePushId := if_pos ht
  rw [hpush] at hp
  obtain ⟨pushId, hid⟩ := Option.isSome_iff_exists.mp hp
  have hobs : observes (repositoryEvidence f .repo) = ⟨.pushes, pushId, .repo⟩ := by
    rw [observes, hpush, hid]
    rfl
  apply Option.ext
  intro row
  rw [sound_unique hu, hobs, Option.map_eq_some_iff]
  constructor
  · rintro ⟨hr, hk⟩
    obtain ⟨table, role, -, g, hg, rfl⟩ := (hrows row).mp hr
    simp only [sourceKey_repositoryEvidence, SourceKey.mk.injEq] at hk
    obtain ⟨hgt, hgid, rfl⟩ := hk
    have hgm := mem_visible.mp hg
    obtain rfl : table = .pushes := hgm.2.1.symm.trans hgt
    exact ⟨g, anchor_eq_some ht hg (by rw [hid, hgid]), rfl⟩
  · rintro ⟨g, hg, rfl⟩
    obtain ⟨-, hgv, hgid⟩ := mem_anchor hg
    have hkey : g.factId = pushId := by
      rw [hid] at hgid
      exact (Option.some.inj hgid).symm
    refine ⟨(hrows _).mpr ⟨.pushes, .repo, by simp [sourceRoles], g, hgv, rfl⟩, ?_⟩
    rw [sourceKey_repositoryEvidence, (mem_visible.mp hgv).2.1, hkey]

/-- Rows that the query cannot tell apart rest on the same state. -/
theorem sourceState_of_witnessState {rows : List RepositoryIdentityEvidence}
    (hrows : ∀ row, row ∈ rows ↔ Projected s.toRepositoryStore orgId through row)
    (hu : UniqueSources rows) {table : FactTable} {role : RepositoryRole} {f g : StoredFact}
    (hr : (table, role) ∈ sourceRoles) (hf : f ∈ s.visible orgId through table)
    (hg : g ∈ s.visible orgId through table)
    (hs : s.witnessState orgId through role f = s.witnessState orgId through role g) :
    sourceState rows (repositoryEvidence f role) = sourceState rows (repositoryEvidence g role) := by
  simp only [RepositoryStore.witnessState, WitnessState.mk.injEq] at hs
  obtain ⟨hcol, hanchor⟩ := hs
  have htf := (mem_visible.mp hf).2.1
  have htg := (mem_visible.mp hg).2.1
  have hid : repositoryIdentityOf (repositoryEvidence f role) =
      repositoryIdentityOf (repositoryEvidence g role) := by
    simp only [repositoryIdentityOf, repositoryEvidence, hcol]
  have hrepo : (repositoryEvidence f role).repo = (repositoryEvidence g role).repo := by
    simp only [repositoryEvidence, hcol]
  have hft : (repositoryEvidence f role).sourceTable = table := htf
  have hgt : (repositoryEvidence g role).sourceTable = table := htg
  simp only [sourceState, SourceState.mk.injEq, hft, hgt, hid, hrepo, true_and]
  by_cases ht : table = .sessionCommitObservations
  · subst ht
    obtain rfl : role = .repo := by
      cases role
      · rfl
      · simp [sourceRoles] at hr
    rw [if_pos rfl, if_pos rfl, sound_anchor hrows hu hf, sound_anchor hrows hu hg]
    have hmap : ∀ o o' : Option StoredFact, o.map StoredFact.repo = o'.map StoredFact.repo →
        (o.map (repositoryEvidence · .repo)).map (fun p => (repositoryIdentityOf p, p.repo)) =
          (o'.map (repositoryEvidence · .repo)).map (fun p => (repositoryIdentityOf p, p.repo)) := by
      intro o o' h
      cases o <;> cases o' <;> simp only [Option.map_none, Option.map_some, reduceCtorEq,
        Option.some.injEq] at h ⊢
      simp only [repositoryIdentityOf, repositoryEvidence, StoredFact.columns, h]
    exact hmap _ _ hanchor
  · rw [if_neg ht, if_neg ht]

/-- A population read within the limit, of rows that are valid, builds a context
over exactly those rows. -/
theorem build_of_valid {rows : List RepositoryIdentityEvidence} {names : List RepositoryRename}
    (ho : normalizeOrgId orgId = some orgId) (hrl : rows.length ≤ repositoryIdentityLimit)
    (hnl : names.length ≤ repositoryIdentityLimit)
    (hr : ∀ row ∈ rows, validateEvidence row = .ok row ∧ row.orgId = orgId ∧
      row.capturedAt.utc ≤ through)
    (hn : ∀ n ∈ names, validateRename n = .ok n ∧ n.orgId = orgId ∧ n.capturedAt.utc ≤ through) :
    buildRepositoryContext rows names orgId through =
      .ok (assembleContext rows names orgId through) := by
  have hid : ∀ {α : Type} {f : α → Except ContextError α} {xs : List α},
      (∀ x ∈ xs, f x = .ok x) → xs.mapM f = .ok xs := by
    intro α f xs hx
    induction xs with
    | nil => rfl
    | cons x xs ih =>
      rw [List.mapM_cons, hx x (by simp), ih (fun y hy => hx y (List.mem_cons_of_mem _ hy))]
      rfl
  rw [build_within orgId ho hrl hnl, hid (fun row h => (hr row h).1),
    hid (fun n h => (hn n h).1)]
  have hin : inScope orgId through rows = rows :=
    List.filter_eq_self.mpr (fun row h => by simpa using (hr row h).2)
  have hnin : renamesInScope orgId through names = names :=
    List.filter_eq_self.mpr (fun n h => by simpa using (hn n h).2)
  change Except.ok (assembleContext (inScope orgId through rows)
    (renamesInScope orgId through names) orgId through) = _
  rw [hin, hnin]

theorem projected_inScope {row : RepositoryIdentityEvidence}
    (h : Projected s.toRepositoryStore orgId through row) :
    row.orgId = orgId ∧ row.capturedAt.utc ≤ through := by
  obtain ⟨table, role, -, f, hf, rfl⟩ := h
  obtain ⟨-, -, ho, -, ht⟩ := mem_visible.mp hf
  exact ⟨ho, ht⟩

section
variable [Collation]

/-- The compact read keeps a witness of every state and the push of every observation. -/
theorem witnesses_of_reads {sourceKeys : Finset SourceKey}
    {full compact : List RepositoryIdentityEvidence}
    (hfull : ∀ row, row ∈ full ↔ Projected s.toRepositoryStore orgId through row)
    (hcompact : ∀ row, row ∈ compact ↔ ∃ table role, (table, role) ∈ sourceRoles ∧
      ∃ facts ∈ s.witnessRows orgId through sourceKeys table role,
        ∃ f ∈ facts, row ∈ s.retained orgId through role f) :
    Witnesses full compact := by
  have hu : UniqueSources full := fun a ha b hb =>
    projected_unique ((hfull a).mp ha) ((hfull b).mp hb)
  refine ⟨hu, ?_, ?_, ?_⟩
  · intro row hrow
    obtain ⟨table, role, hr, facts, hfacts, f, hf, hret⟩ := (hcompact row).mp hrow
    exact (hfull row).mpr (retained_projected hr (witnessRows_visible hfacts f hf) row hret)
  · intro row hrow ht push hpush hk
    obtain ⟨table, role, hr, facts, hfacts, f, hf, hret⟩ := (hcompact row).mp hrow
    have hfv := witnessRows_visible hfacts f hf
    simp only [RepositoryStore.retained, List.mem_cons, Option.mem_toList,
      Option.map_eq_some_iff] at hret
    rcases hret with rfl | ⟨p, hp, rfl⟩
    · have hft : f.table = .sessionCommitObservations := ht
      obtain rfl : table = .sessionCommitObservations := (mem_visible.mp hfv).2.1.symm.trans hft
      obtain rfl : role = .repo := by
        cases role
        · rfl
        · simp [sourceRoles] at hr
      have hg := (sound_unique hu).mpr ⟨hpush, hk⟩
      rw [sound_anchor hfull hu hfv] at hg
      refine (hcompact push).mpr ⟨_, _, hr, facts, hfacts, f, hf, ?_⟩
      simp [RepositoryStore.retained, hg]
    · have hpt : p.table = .sessionCommitObservations := ht
      rw [(mem_visible.mp (mem_anchor hp).2.1).2.1] at hpt
      cases hpt
  · intro row hrow
    obtain ⟨table, role, hr, f, hf, rfl⟩ := (hfull row).mp hrow
    obtain ⟨g, hg, hs⟩ := exists_distinctOn (s.witnessState orgId through role)
      (orderBy (fun a b => Collation.le a.factId b.factId) (s.visible orgId through table)) f
      (mem_orderBy.mpr hf)
    have hgv := mem_orderBy.mp (distinctOn_subset _ _ g hg)
    refine ⟨repositoryEvidence g role, (hcompact _).mpr ⟨table, role, hr, _,
      List.mem_cons_self, g, hg, by simp [RepositoryStore.retained]⟩, ?_⟩
    exact sourceState_of_witnessState hfull hu hr hgv hf hs

theorem requested_retained {sourceKeys : Finset SourceKey} {key : SourceKey}
    (hkey : key ∈ sourceKeys) {row : RepositoryIdentityEvidence}
    (hrow : Projected s.toRepositoryStore orgId through row) (hk : sourceKey row = key) :
    ∃ table role, (table, role) ∈ sourceRoles ∧
      ∃ facts ∈ s.witnessRows orgId through sourceKeys table role,
        ∃ f ∈ facts, row ∈ s.retained orgId through role f := by
  have hid := (validateEvidence_cases (validate_projected hrow)).2.1
  obtain ⟨table, role, hr, f, hf, rfl⟩ := hrow
  obtain ⟨-, rfl, -⟩ := mem_visible.mp hf
  subst hk
  have hvalid : RepositoryStore.validateSourceKey (sourceKey (repositoryEvidence f role)) =
      some ⟨f.table, f.factId, role⟩ := by
    change nonEmptyId f.factId = some f.factId at hid
    simp [RepositoryStore.validateSourceKey, sourceKey_repositoryEvidence, hid, hr]
  obtain ⟨facts, hfacts, hmem⟩ : ∃ facts ∈ s.witnessRows orgId through sourceKeys f.table role,
      f ∈ facts := by
    have hany : ∃ key ∈ sourceKeys, key.table = f.table ∧ key.role = role :=
      ⟨_, hkey, rfl, rfl⟩
    simp only [RepositoryStore.witnessRows, if_pos hany]
    refine ⟨_, List.mem_cons_of_mem _ List.mem_cons_self, ?_⟩
    exact List.mem_filter.mpr ⟨mem_orderBy.mpr hf, decide_eq_true ⟨_, hkey, hvalid⟩⟩
  exact ⟨f.table, role, hr, facts, hfacts, f, hmem, List.mem_cons_self⟩

/-- A witness of every rename state keeps every name the renames declare. -/
theorem renames_covered {names all : List RepositoryRename}
    (hn : ∀ n, n ∈ names ↔ n ∈ distinctOn RepositoryStore.renameState
      (orderBy (fun a b => Collation.le a.renameId b.renameId) (s.visibleRenames orgId through)))
    (ha : ∀ n, n ∈ all ↔ n ∈ s.visibleRenames orgId through) :
    (∀ n ∈ names, n ∈ all) ∧ ∀ n ∈ all, ∃ w ∈ names, renameIdentityOf w = renameIdentityOf n ∧
      w.oldRepo = n.oldRepo ∧ w.newRepo = n.newRepo := by
  refine ⟨fun n h => (ha n).mpr (mem_orderBy.mp (distinctOn_subset _ _ n ((hn n).mp h))), ?_⟩
  intro n h
  obtain ⟨w, hw, hs⟩ := exists_distinctOn RepositoryStore.renameState _ n
    (mem_orderBy.mpr ((ha n).mp h))
  simp only [RepositoryStore.renameState, Prod.mk.injEq] at hs
  obtain ⟨-, hh, hi, ho, hnew⟩ := hs
  exact ⟨w, (hn w).mpr hw, by simp only [renameIdentityOf, hh, hi], ho, hnew⟩

/-- The compact read decides every name, claim, reference and selector as the
full population does, and every requested source with its proof. -/
theorem witness_context_agrees (s : TypedStore) (orgId : String) (through : Int)
    (sourceKeys : Finset SourceKey) (limit fullLimit renameLimit : Nat)
    (rows allRows : List RepositoryIdentityEvidence) (names allNames : List RepositoryRename)
    (ho : normalizeOrgId orgId = some orgId)
    (hw : s.readRepositoryContextWitnesses orgId through sourceKeys limit = .ok (rows, names))
    (hf : s.readRepositoryIdentities orgId through fullLimit = .ok allRows)
    (hr : s.readRepositoryRenames orgId through renameLimit = .ok allNames) :
    ∃ c d, buildRepositoryContext allRows allNames orgId through = .ok c ∧
      buildRepositoryContext rows names orgId through = .ok d ∧
      c.names.Same d.names ∧ c.claims.Same d.claims ∧ c.unsafeSlugs = d.unsafeSlugs ∧
      c.repositoryKeys = d.repositoryKeys ∧
      (∀ refOrg repo identity,
        c.resolveReference refOrg repo identity = d.resolveReference refOrg repo identity) ∧
      (∀ refOrg repo identity,
        c.selectRepository refOrg repo identity = d.selectRepository refOrg repo identity) ∧
      ∀ key ∈ sourceKeys, c.resolveSource key.table key.factId key.role =
        d.resolveSource key.table key.factId key.role := by
  obtain ⟨hrl, hnl, -, hrows, hnames⟩ := mem_readWitnesses ho hw
  obtain ⟨harl, hall⟩ := mem_readRepositoryIdentities hf
  obtain ⟨hanl, hallNames⟩ := mem_readRepositoryRenames hr
  have hwit := witnesses_of_reads hall hrows
  obtain ⟨hsub, hcov⟩ := renames_covered hnames hallNames
  have hvalid : ∀ row ∈ allRows, validateEvidence row = .ok row ∧ row.orgId = orgId ∧
      row.capturedAt.utc ≤ through := fun row h =>
    ⟨validate_projected ((hall row).mp h), projected_inScope ((hall row).mp h)⟩
  have hvalidNames : ∀ n ∈ allNames, validateRename n = .ok n ∧ n.orgId = orgId ∧
      n.capturedAt.utc ≤ through := by
    intro n h
    obtain ⟨hm, hno, -, ht⟩ := mem_visibleRenames.mp ((hallNames n).mp h)
    exact ⟨s.renames_valid n hm, hno, ht⟩
  have hsame : SameNames (assembleContext allRows allNames orgId through)
      (assembleContext rows names orgId through) :=
    hwit.sameNames (visibleRenames_unique hallNames) hsub hcov
  refine ⟨_, _, build_of_valid ho harl hanl hvalid hvalidNames,
    build_of_valid ho hrl hnl (fun row h => hvalid row (hwit.subset row h))
      (fun n h => hvalidNames n (hsub n h)),
    hsame.names, hsame.claims, hsame.unsafeSlugs, hsame.repositoryKeys,
    hsame.resolveReference, hsame.selectRepository, ?_⟩
  intro key hkey
  refine hwit.resolveSource hsame ?_
  intro row hrow hk
  exact (hrows row).mpr (requested_retained hkey ((hall row).mp hrow) hk)

end

end

@[reducible] def byteOrder : Collation := ⟨fun a b => decide (a ≤ b)⟩

def appColumns : RepositoryColumns := ⟨"acme/app", some .github, some "github.com", some "1"⟩

def noColumns : RepositoryColumns := ⟨"", none, none, none⟩

def appStore : @TypedStore lowerCase :=
  letI := lowerCase
  { facts := [⟨.pushes, "p1", "acme", appColumns, noColumns, noon, none⟩,
      ⟨.sessionCommitObservations, "o1", "acme", ⟨"acme/app", none, none, none⟩, noColumns,
        noon, some "p1"⟩]
    renames := [⟨"r1", "acme", .github, "github.com", "1", "acme/old", "acme/app", some "e1",
      none, noon⟩]
    quarantine := []
    primaryKey := by simp
    renameKey := by simp
    renameDelivery := by simp
    facts_valid := by decide
    renames_valid := by decide }

theorem appStore_agrees :
    letI := lowerCase
    letI := byteOrder
    ∃ rows names allRows allNames c d,
      appStore.readRepositoryContextWitnesses "acme" 9 {⟨.sessionCommitObservations, "o1", .repo⟩}
        10 = .ok (rows, names) ∧
      buildRepositoryContext allRows allNames "acme" 9 = .ok c ∧
      buildRepositoryContext rows names "acme" 9 = .ok d ∧
      c.repositoryKeys = d.repositoryKeys ∧
      c.resolveSource .sessionCommitObservations "o1" .repo =
        d.resolveSource .sessionCommitObservations "o1" .repo := by
  let := lowerCase
  let := byteOrder
  obtain ⟨c, d, hc, hd, -, -, -, hk, -, -, hs⟩ := witness_context_agrees appStore "acme" 9
    {⟨.sessionCommitObservations, "o1", .repo⟩} 10 10 10 _ _ _ _ (by decide) rfl rfl rfl
  exact ⟨_, _, _, _, c, d, rfl, hc, hd, hk, hs _ (Finset.mem_singleton_self _)⟩

end Sediment.Proofs.WitnessContext
