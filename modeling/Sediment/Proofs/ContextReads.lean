import Sediment.Derive.FactReads
import Sediment.Proofs.RepositoryIdentity
import Sediment.Proofs.StoreReads

namespace Sediment.Proofs.ContextReads
open Sediment.Base Sediment.Core Sediment.Derive
open Sediment.Proofs.RepositoryContext Sediment.Proofs.RepositoryScan
open Sediment.Proofs.RepositoryOrder Sediment.Proofs.RepositoryIdentity
open Sediment.Proofs.StoreReads

theorem start_le_foldl_max (xs : List Int) (start : Int) : start ≤ xs.foldl max start := by
  induction xs generalizing start with
  | nil => exact le_refl _
  | cons y ys ih => exact (le_max_left start y).trans (ih (max start y))

theorem le_foldl_max {xs : List Int} {x : Int} (h : x ∈ xs) (start : Int) :
    x ≤ xs.foldl max start := by
  induction xs generalizing start with
  | nil => cases h
  | cons y ys ih =>
    rcases List.mem_cons.mp h with rfl | h
    · exact (le_max_right start x).trans (start_le_foldl_max ys (max start x))
    · exact ih h (max start y)

section
variable {orgId : String} {evidence evidence' : List RepositoryIdentityEvidence}
  {renames : List RepositoryRename}

theorem capture_le_last {row : RepositoryIdentityEvidence} (hr : row ∈ evidence)
    (ho : row.orgId = orgId) : row.capturedAt.utc ≤ lastCapture orgId evidence renames := by
  apply le_foldl_max
  apply List.mem_append_left
  exact List.mem_map_of_mem (List.mem_filter.mpr ⟨hr, by simpa using ho⟩)

theorem rename_le_last {row : RepositoryRename} (hr : row ∈ renames) (ho : row.orgId = orgId) :
    row.capturedAt.utc ≤ lastCapture orgId evidence renames := by
  apply le_foldl_max
  apply List.mem_append_right
  exact List.mem_map_of_mem (List.mem_filter.mpr ⟨hr, by simpa using ho⟩)

theorem lastCapture_perm (hp : evidence.Perm evidence') :
    lastCapture orgId evidence renames = lastCapture orgId evidence' renames := by
  have hcomm : RightCommutative (max : Int → Int → Int) := ⟨fun a b c => max_right_comm a b c⟩
  exact ((((hp.filter _).map _).append_right _).foldl_eq _)

end

section
variable {s : RepositoryStore} {orgId : String} {through through' : Int}

theorem foldlM_congr {α σ ε : Type} {f g : σ → α → Except ε σ} (xs : List α)
    (h : ∀ x ∈ xs, ∀ st, f st x = g st x) (st : σ) : xs.foldlM f st = xs.foldlM g st := by
  induction xs generalizing st with
  | nil => rfl
  | cons x xs ih =>
    rw [List.foldlM_cons, List.foldlM_cons, h x (by simp)]
    exact congrArg _ (funext fun st' => ih (fun y hy => h y (by simp [hy])) st')

/-- A read up to a boundary that no visible row lies past returns every row. -/
theorem readRepositoryIdentities_through [Collation] {limit : Nat}
    (h : ∀ table role, (table, role) ∈ sourceRoles → ∀ f ∈ s.facts, f.table = table →
      f.orgId = orgId → s.latestAction f.orgId table f.factId ≠ some .quarantine →
      (f.capturedAt.utc ≤ through ↔ f.capturedAt.utc ≤ through')) :
    s.readRepositoryIdentities orgId through limit =
      s.readRepositoryIdentities orgId through' limit := by
  unfold RepositoryStore.readRepositoryIdentities
  have hloop : sourceRoles.foldlM (s.readRepositoryTable orgId through limit) [] =
      sourceRoles.foldlM (s.readRepositoryTable orgId through' limit) [] := by
    apply foldlM_congr
    intro source hs st
    have hv : s.visible orgId through source.1 = s.visible orgId through' source.1 := by
      apply List.filter_congr
      intro f hf
      rw [decide_eq_decide]
      constructor
      · rintro ⟨ht, ho, hq, hc⟩
        exact ⟨ht, ho, hq, (h source.1 source.2 hs f hf ht ho hq).mp hc⟩
      · rintro ⟨ht, ho, hq, hc⟩
        exact ⟨ht, ho, hq, (h source.1 source.2 hs f hf ht ho hq).mpr hc⟩
    rw [RepositoryStore.readRepositoryTable, RepositoryStore.readRepositoryTable, hv]
  rw [hloop]

theorem readRepositoryRenames_through [Collation] {limit : Nat}
    (h : ∀ r ∈ s.renames, r.orgId = orgId →
      s.latestAction r.orgId .repositoryRenames r.renameId ≠ some .quarantine →
      (r.capturedAt.utc ≤ through ↔ r.capturedAt.utc ≤ through')) :
    s.readRepositoryRenames orgId through limit = s.readRepositoryRenames orgId through' limit := by
  have hv : s.visibleRenames orgId through = s.visibleRenames orgId through' := by
    apply List.filter_congr
    intro r hr
    rw [decide_eq_decide]
    constructor
    · rintro ⟨ho, hq, hc⟩
      exact ⟨ho, hq, (h r hr ho hq).mp hc⟩
    · rintro ⟨ho, hq, hc⟩
      exact ⟨ho, hq, (h r hr ho hq).mpr hc⟩
  rw [RepositoryStore.readRepositoryRenames, RepositoryStore.readRepositoryRenames, hv]

end

section
variable [Interpreter] {supplements supplements' : List RepositoryIdentityEvidence}

theorem readSupplements_ok {rows : List RepositoryIdentityEvidence}
    (h : readSupplements supplements = .ok rows) : rows = supplements := by
  unfold readSupplements at h
  dsimp only at h
  split at h
  · cases h
  · rename_i hl
    rw [List.length_take, not_lt] at hl
    obtain ⟨valid, hv, hrows⟩ := bind_ok.mp h
    rw [List.take_of_length_le (by omega), mapError_ok] at hv
    split at hrows
    · cases hrows
    · cases hrows
      exact mapM_validateEvidence hv

/-- Either order of the supplements is refused, or each is read as it is. -/
theorem readSupplements_perm (hp : supplements.Perm supplements') :
    Agree (fun rows rows' => rows.Perm rows') (readSupplements supplements)
      (readSupplements supplements') := by
  have hback : ∀ {xs ys : List RepositoryIdentityEvidence}, xs.Perm ys →
      readSupplements xs = .ok xs → readSupplements ys = .ok ys := by
    intro xs ys hp h
    unfold readSupplements at h ⊢
    dsimp only at h ⊢
    rw [List.length_take] at h ⊢
    split at h
    · cases h
    · rename_i hl
      have hly : ¬ repositoryIdentityLimit < min (repositoryIdentityLimit + 1) ys.length := by
        rw [← hp.length_eq]
        exact hl
      rw [if_neg hly]
      rw [List.take_of_length_le (by omega)] at h ⊢
      obtain ⟨valid, hv, hrows⟩ := bind_ok.mp h
      rw [mapError_ok] at hv
      have hvy : ys.mapM validateEvidence = .ok ys := by
        rcases mapM_sameRows validateEvidence_error (fun a => hp.mem_iff (a := a)) with
          ⟨_, rows, -, hok, -⟩ | ⟨herr, -⟩
        · rw [hok, mapM_validateEvidence hok]
        · rw [hv] at herr
          cases herr
      rw [mapM_validateEvidence hv] at hrows
      rw [hvy]
      split at hrows
      · cases hrows
      · rename_i hany
        rw [hp.any_eq] at hany
        simp only [Except.mapError, ok_bind]
        rw [if_neg hany]
        rfl
  cases h : readSupplements supplements with
  | ok rows =>
    cases readSupplements_ok h
    rw [hback hp h]
    exact hp
  | error e =>
    cases h' : readSupplements supplements' with
    | ok rows =>
      cases readSupplements_ok h'
      rw [hback hp.symm h'] at h
      cases h
    | error e' => trivial

variable [Collation] {s : RepositoryStore} {orgId : String} {c c' : RepositoryContext}

/-- What a read that returns has read and built. -/
theorem readRepositoryContext_ok {asOf : Option Int}
    (h : readRepositoryContext s orgId asOf supplements = .ok c) :
    ∃ evidence renames,
      s.readRepositoryIdentities orgId (asOf.getD wallMax) repositoryIdentityLimit =
        .ok evidence ∧
      s.readRepositoryRenames orgId (asOf.getD wallMax) repositoryIdentityLimit = .ok renames ∧
      readSupplements supplements = .ok supplements ∧
      buildRepositoryContext (evidence ++ newSupplements evidence supplements) renames orgId
        (asOf.getD (lastCapture orgId (evidence ++ newSupplements evidence supplements) renames)) =
          .ok c := by
  simp only [readRepositoryContext, bind_ok, mapError_ok] at h
  obtain ⟨evidence, he, renames, hr, rows, hs, hb⟩ := h
  have hrows := readSupplements_ok hs
  subst hrows
  exact ⟨evidence, renames, he, hr, hs, hb⟩

/-- The order of the supplements does not change the context. -/
theorem readRepositoryContext_perm (asOf : Option Int) (hp : supplements.Perm supplements') :
    Agree SameContext (readRepositoryContext s orgId asOf supplements)
      (readRepositoryContext s orgId asOf supplements') := by
  unfold readRepositoryContext
  apply Agree.bind (Agree.refl (R := Eq) (fun _ => rfl) _)
  rintro evidence _ rfl
  apply Agree.bind (Agree.refl (R := Eq) (fun _ => rfl) _)
  rintro renames _ rfl
  apply Agree.bind (readSupplements_perm hp)
  intro rows rows' hrows
  have hall : (evidence ++ newSupplements evidence rows).Perm
      (evidence ++ newSupplements evidence rows') := (hrows.filter _).append_left evidence
  dsimp only
  rw [lastCapture_perm hall]
  apply Agree.mapError
  have hsame := build_sameRows orgId (asOf.getD (lastCapture orgId
    (evidence ++ newSupplements evidence rows') renames))
    (fun a => hall.mem_iff (a := a)) (fun a : RepositoryRename => Iff.rfl (a := a ∈ renames))
    (by rw [hall.length_eq]) Iff.rfl
  revert hsame
  cases buildRepositoryContext (evidence ++ newSupplements evidence rows) renames orgId _ <;>
    cases buildRepositoryContext (evidence ++ newSupplements evidence rows') renames orgId _ <;>
    intro hsame
  · trivial
  · exact hsame.elim
  · exact hsame.elim
  · exact hsame.1

omit [Collation] in
theorem validateRename_capturedAt {raw row : RepositoryRename} (h : validateRename raw = .ok row) :
    row.capturedAt = raw.capturedAt := by
  unfold validateRename at h
  dsimp only at h
  split at h
  · cases h
  · rename_i valid hv
    cases h
    simp only [Option.bind_eq_bind, Option.bind_eq_some_iff, Option.pure_def,
      Option.some.injEq] at hv
    obtain ⟨_, _, _, _, _, _, _, _, _, _, _, _, _, _, _, _, rfl⟩ := hv
    rfl

omit [Collation] in
theorem buildRepositoryContext_asOf {evidence : List RepositoryIdentityEvidence}
    {renames : List RepositoryRename} {asOf : Int}
    (h : buildRepositoryContext evidence renames orgId asOf = .ok c) : c.asOf = asOf := by
  obtain ⟨_, _, -, -, -, -, rfl⟩ := build_ok h
  rfl

omit [Collation] in
/-- A context assembled up to a later boundary answers the same from the same rows. -/
theorem build_later {evidence : List RepositoryIdentityEvidence}
    {renames : List RepositoryRename} {asOf later : Int}
    (h : buildRepositoryContext evidence renames orgId asOf = .ok c) (hl : asOf ≤ later)
    (hc : c.orgId = orgId)
    (he : ∀ row ∈ evidence, row.orgId = orgId → row.capturedAt.utc ≤ asOf)
    (hr : ∀ row ∈ renames, row.capturedAt.utc ≤ asOf)
    (h' : buildRepositoryContext evidence renames orgId later = .ok c') :
    c' = { c with asOf := later } := by
  obtain ⟨org, names, ho, -, -, hn, rfl⟩ := build_ok h
  obtain ⟨org', names', ho', -, -, hn', rfl⟩ := build_ok h'
  rw [ho] at ho'
  cases ho'
  rw [hn] at hn'
  cases hn'
  change org = orgId at hc
  subst hc
  have hevidence : inScope org later evidence = inScope org asOf evidence := by
    apply List.filter_congr
    intro row hrow
    rw [decide_eq_decide]
    constructor
    · rintro ⟨ho, -⟩
      exact ⟨ho, he row hrow ho⟩
    · rintro ⟨ho, hle⟩
      exact ⟨ho, hle.trans hl⟩
  have hrenames : renamesInScope org later names = renamesInScope org asOf names := by
    apply List.filter_congr
    intro row hrow
    obtain ⟨raw, hraw, hv⟩ := (mem_of_mapM_ok hn row).mp hrow
    have hle := validateRename_capturedAt hv ▸ hr raw hraw
    rw [decide_eq_decide]
    constructor
    · rintro ⟨ho, -⟩
      exact ⟨ho, hle⟩
    · rintro ⟨ho, -⟩
      exact ⟨ho, hle.trans hl⟩
  rw [hevidence, hrenames]
  rfl

/-- Reading further than the last captured row changes the boundary and no answer. -/
theorem readRepositoryContext_later {later : Int}
    (h : readRepositoryContext s orgId none supplements = .ok c) (hc : c.orgId = orgId)
    (hl : c.asOf ≤ later) (hmax : later ≤ wallMax)
    (h' : readRepositoryContext s orgId (some later) supplements = .ok c') :
    c' = { c with asOf := later } := by
  obtain ⟨evidence, renames, he, hr, -, hb⟩ := readRepositoryContext_ok h
  obtain ⟨evidence', renames', he', hr', -, hb'⟩ := readRepositoryContext_ok h'
  simp only [Option.getD_none, Option.getD_some] at he hr hb he' hr' hb'
  have hboundary := buildRepositoryContext_asOf hb
  have hrow : ∀ row ∈ evidence ++ newSupplements evidence supplements, row.orgId = orgId →
      row.capturedAt.utc ≤ c.asOf := by
    intro row hm ho
    rw [hboundary]
    exact capture_le_last hm ho
  have hname : ∀ row ∈ renames, row.capturedAt.utc ≤ c.asOf := by
    intro row hm
    have hv := ((mem_readRepositoryRenames hr).2 row).mp hm
    simp only [RepositoryStore.visibleRenames, List.mem_filter, decide_eq_true_eq] at hv
    rw [hboundary]
    exact rename_le_last hm hv.2.1
  have hevidence : evidence' = evidence := by
    rw [@readRepositoryIdentities_through _ _ _ wallMax, he] at he'
    · exact (Except.ok.inj he').symm
    · intro table role hs f hf ht ho hq
      constructor
      · exact fun hle => hle.trans hmax
      · intro hle
        have hproj : repositoryEvidence f role ∈ evidence := by
          rw [(mem_readRepositoryIdentities he).2]
          exact ⟨table, role, hs, f, mem_visible.mpr ⟨hf, ht, ho, hq, hle⟩, rfl⟩
        exact (hrow _ (List.mem_append_left _ hproj) ho).trans hl
  have hrenames : renames' = renames := by
    rw [@readRepositoryRenames_through _ _ _ wallMax, hr] at hr'
    · exact (Except.ok.inj hr').symm
    · intro r hm ho hq
      constructor
      · exact fun hle => hle.trans hmax
      · intro hle
        refine (hname r ?_).trans hl
        rw [(mem_readRepositoryRenames hr).2]
        simp only [RepositoryStore.visibleRenames, List.mem_filter, decide_eq_true_eq]
        exact ⟨hm, ho, hq, hle⟩
  rw [hevidence, hrenames] at hb'
  rw [← hboundary] at hb
  exact build_later hb hl hc hrow hname hb'

omit [Collation] in
theorem resolveReference_reason (c : RepositoryContext) (org repo : String)
    (identity : Option RepositoryIdentity) :
    (c.resolveReference org repo identity).reason ≠ some .identityConflict := by
  unfold RepositoryContext.resolveReference
  split
  · split
    · simp
    · split
      · simp
      · split
        · split <;> simp
        · dsimp only
          split <;> simp
  · simp

omit [Collation] in
/-- A Fact that resolves is a copy of a row inside the boundary of its context. -/
theorem resolveFact_row {evidence : List RepositoryIdentityEvidence}
    {renames : List RepositoryRename} {asOf : Int} {fact : RepositoryIdentityEvidence}
    {key : RepositoryKey}
    (h : ((assembleContext evidence renames orgId asOf).resolveFact fact).key = some key) :
    ∃ row ∈ evidence, evidenceSignature fact = evidenceSignature row := by
  have hclean : ¬ Contradicted evidence (sourceKey fact) := by
    intro hc
    rw [resolveFact_conflict hc rfl] at h
    cases h
  unfold RepositoryContext.resolveFact at h
  split at h
  · cases h
  · rename_i projection hp
    cases validateEvidence_ok hp
    dsimp only at h
    split at h
    · rename_i hconflict
      by_cases hk : ∃ row ∈ evidence, sourceKey row = sourceKey fact
      · obtain ⟨a, ha, hak⟩ := hk
        obtain ⟨row, hg, -⟩ := sound_isSome ha (hak ▸ hclean)
        rw [hak] at hg
        have hsource := @resolveSource_sound _ _ renames orgId asOf _ _ hg
        simp only [sourceKey] at hsource
        rw [hsource] at h hconflict
        unfold sourceResolution at h hconflict
        split at h
        · cases h
        · rename_i hr
          rw [hr] at hconflict
          exact absurd hconflict (resolveReference_reason _ _ _ _)
      · simp only [not_exists, not_and] at hk
        have habsent := @resolveSource_absent _ _ renames orgId asOf _ hk
        simp only [sourceKey] at habsent
        rw [habsent] at h
        cases h
    · split at h
      · cases h
      · rename_i row hg
        split at h
        · cases h
        · rename_i hs
          obtain ⟨-, -, hrep⟩ := sound_eq_some.mp hg
          exact ⟨row, hrep.1, not_not.mp hs⟩

/-- A Fact that resolves was captured within the boundary. -/
theorem resolveFact_captured {asOf : Option Int} {fact : RepositoryIdentityEvidence}
    {key : RepositoryKey} (h : readRepositoryContext s orgId asOf supplements = .ok c)
    (hk : (c.resolveFact fact).key = some key) : fact.capturedAt.utc ≤ c.asOf := by
  obtain ⟨evidence, renames, -, -, -, hb⟩ := readRepositoryContext_ok h
  obtain ⟨org, names, -, -, -, -, rfl⟩ := build_ok hb
  obtain ⟨row, hrow, hs⟩ := resolveFact_row hk
  have hcaptured : fact.capturedAt.utc = row.capturedAt.utc := congrArg EvidenceSignature.capturedAt hs
  rw [hcaptured]
  exact (mem_inScope.mp hrow).2.2

end

end Sediment.Proofs.ContextReads
