import Sediment.Base.Results
import Sediment.Proofs.RepositoryContext

namespace Sediment.Proofs.RepositoryOrder
open Sediment.Base Sediment.Core Sediment.Derive
open Sediment.Proofs.RepositoryScan Sediment.Proofs.RepositoryContext

section
variable {evidence evidence' : List RepositoryIdentityEvidence}
  {renames renames' : List RepositoryRename}

theorem contradicted_congr (h : SameRows evidence evidence') (k : SourceKey) :
    Contradicted evidence k ↔ Contradicted evidence' k := by
  simp only [Contradicted, h _]

theorem represents_congr (h : SameRows evidence evidence') (row : RepositoryIdentityEvidence) :
    RepositoryScan.Represents evidence row ↔ RepositoryScan.Represents evidence' row := by
  simp only [RepositoryScan.Represents, h _]

theorem renameContradicted_congr (h : SameRows renames renames') (id : String) :
    RenameContradicted renames id ↔ RenameContradicted renames' id := by
  simp only [RenameContradicted, h _]

theorem sound_same (h : SameRows evidence evidence') :
    (EvidenceScan.run evidence).sound.Same (EvidenceScan.run evidence').sound := by
  intro k
  apply Option.ext
  intro row
  rw [sound_eq_some, sound_eq_some, contradicted_congr h, represents_congr h]

theorem conflicts_eq (h : SameRows evidence evidence') :
    (EvidenceScan.run evidence).conflicts = (EvidenceScan.run evidence').conflicts := by
  ext k
  rw [mem_conflicts, mem_conflicts, contradicted_congr h]

theorem resolve_eq (h : SameRows evidence evidence') (row : RepositoryIdentityEvidence) :
    (EvidenceScan.run evidence).resolve row = (EvidenceScan.run evidence').resolve row := by
  simp only [EvidenceScan.resolve, sourceIdentity, conflicts_eq h, sound_same h _]

theorem declared_congr (h : SameRows evidence evidence') (slug : String)
    (identity : Option RepositoryIdentity) :
    (slug, identity) ∈ (EvidenceScan.run evidence).declared ↔
      (slug, identity) ∈ (EvidenceScan.run evidence').declared := by
  simp only [mem_declared, sound_same h _, resolve_eq h]

theorem allConflicts_eq (h : SameRows renames renames') :
    (RenameScan.run renames).allConflicts = (RenameScan.run renames').allConflicts := by
  ext id
  rw [mem_allConflicts, mem_allConflicts, renameContradicted_congr h]

variable [Interpreter] {orgId : String} {asOf : Int}

variable (orgId asOf) in
theorem assemble_sameNames (he : SameRows evidence evidence') (hr : SameRows renames renames') :
    SameNames (assembleContext evidence renames orgId asOf)
      (assembleContext evidence' renames' orgId asOf) := by
  apply sameNames_of_iff
  · intro key slug
    simp only [Named, hr _, renameContradicted_congr hr, declared_congr he]
  · intro slug identity
    simp only [Claimed, hr _, he _, declared_congr he]
  · intro slug
    simp only [Unsafe, hr _, he _, renameContradicted_congr hr, contradicted_congr he]

theorem assemble_sameContext (he : SameRows evidence evidence') (hr : SameRows renames renames') :
    SameContext (assembleContext evidence renames orgId asOf)
      (assembleContext evidence' renames' orgId asOf) := by
  have hn := assemble_sameNames orgId asOf he hr
  have hres : (assembleContext evidence renames orgId asOf).resolutions.Same
      (assembleContext evidence' renames' orgId asOf).resolutions := by
    intro k
    simp only [get?_resolutions, conflicts_eq he, sound_same he k, resolve_eq he,
      hn.lookup.sourceResolution]
  refine { toSameNames := hn, asOf := rfl, skipped := ?_, renameSkipped := ?_,
           sources := sound_same he, resolutions := hres }
  · funext reason
    exact (hres.entries_perm.map Prod.snd).countP_eq _
  · funext reason
    change (if _ then _ else _) = (if _ then _ else _)
    rw [allConflicts_eq hr]

end

section
variable [Interpreter]

theorem validateEvidence_error (row : RepositoryIdentityEvidence) (e : ContextError)
    (h : validateEvidence row = .error e) : e = .invalidEvidence := by
  unfold validateEvidence at h
  split at h
  · cases h; rfl
  · repeat (split at h; · cases h; rfl)
    cases h

theorem validateRename_error (row : RepositoryRename) (e : ContextError)
    (h : validateRename row = .error e) : e = .invalidRename := by
  unfold validateRename at h
  dsimp only at h
  split at h <;> cases h
  rfl

/-- What a row that passes validation satisfies; it is returned unchanged. -/
theorem validateEvidence_cases {row validated : RepositoryIdentityEvidence}
    (h : validateEvidence row = .ok validated) :
    validated = row ∧ nonEmptyId row.sourceFactId = some row.sourceFactId ∧
      (row.sourceTable = .sessionCommitObservations ↔ row.sourcePushId.isSome) ∧
      normalizeOrgId row.orgId = some row.orgId := by
  unfold validateEvidence at h
  cases hm : evidenceModel row with
  | none => simp [hm] at h
  | some v =>
    simp only [hm] at h
    split at h; · cases h
    split at h; · cases h
    split at h; · cases h
    rename_i hpush
    split at h; · cases h
    rename_i hs
    cases h
    simp only [evidenceModel, Option.bind_eq_bind, Option.bind_eq_some_iff, Option.pure_def,
      Option.some.injEq] at hm
    obtain ⟨_, _, factId, hid, org, horg, _, _, _, _, _, _, _, _, rfl⟩ := hm
    have heq := (evidence_ext (not_not.mp hs) rfl).symm
    refine ⟨heq, ?_, ?_, ?_⟩
    · rw [hid]
      exact congrArg some (congrArg RepositoryIdentityEvidence.sourceFactId heq)
    · rw [heq] at hpush
      cases hp : row.sourcePushId <;> simpa [hp] using hpush
    · rw [horg]
      exact congrArg some (congrArg RepositoryIdentityEvidence.orgId heq)

theorem validateEvidence_ok {row validated : RepositoryIdentityEvidence}
    (h : validateEvidence row = .ok validated) : validated = row :=
  (validateEvidence_cases h).1

theorem mapM_validateEvidence {evidence rows : List RepositoryIdentityEvidence}
    (h : evidence.mapM validateEvidence = .ok rows) : rows = evidence := by
  induction evidence generalizing rows with
  | nil => cases h; rfl
  | cons row rest ih =>
    rw [List.mapM_cons] at h
    cases hv : validateEvidence row with
    | error e => rw [hv] at h; cases h
    | ok validated =>
      cases hr : rest.mapM validateEvidence with
      | error e => rw [hv, hr] at h; cases h
      | ok others =>
        rw [hv, hr] at h
        cases h
        rw [validateEvidence_ok hv, ih hr]

/-- The declared boundary: this organization's rows captured no later than `asOf`. -/
def inScope (orgId : String) (asOf : Int) (evidence : List RepositoryIdentityEvidence) :
    List RepositoryIdentityEvidence :=
  evidence.filter (fun row => row.orgId = orgId ∧ row.capturedAt.utc ≤ asOf)

def renamesInScope (orgId : String) (asOf : Int) (renames : List RepositoryRename) :
    List RepositoryRename :=
  renames.filter (fun row => row.orgId = orgId ∧ row.capturedAt.utc ≤ asOf)

variable {evidence evidence' : List RepositoryIdentityEvidence}
  {renames renames' : List RepositoryRename} {rawOrg : String} {asOf : Int}

/-- Within the read limit the whole population is validated, in two steps. -/
theorem build_within (orgId : String) (ho : normalizeOrgId rawOrg = some orgId)
    (he : evidence.length ≤ repositoryIdentityLimit)
    (hr : renames.length ≤ repositoryIdentityLimit) :
    buildRepositoryContext evidence renames rawOrg asOf = (do
      let rows ← evidence.mapM validateEvidence
      let names ← renames.mapM validateRename
      pure (assembleContext (inScope orgId asOf rows) (renamesInScope orgId asOf names)
        orgId asOf)) := by
  have hte : evidence.take (repositoryIdentityLimit + 1) = evidence :=
    List.take_of_length_le (by omega)
  have htr : renames.take (repositoryIdentityLimit + 1) = renames :=
    List.take_of_length_le (by omega)
  have hlim : ¬ (repositoryIdentityLimit < evidence.length ∨
      repositoryIdentityLimit < renames.length) := by omega
  simp only [buildRepositoryContext, ho, hte, htr, if_neg hlim]
  rfl

theorem build_over (orgId : String) (ho : normalizeOrgId rawOrg = some orgId)
    (hl : repositoryIdentityLimit < evidence.length ∨ repositoryIdentityLimit < renames.length) :
    buildRepositoryContext evidence renames rawOrg asOf = .error .populationLimit := by
  have hlim : repositoryIdentityLimit < (evidence.take (repositoryIdentityLimit + 1)).length ∨
      repositoryIdentityLimit < (renames.take (repositoryIdentityLimit + 1)).length := by
    rw [List.length_take, List.length_take]
    omega
  simp only [buildRepositoryContext, ho, if_pos hlim]
  rfl

theorem build_invalid (ho : normalizeOrgId rawOrg = none) :
    buildRepositoryContext evidence renames rawOrg asOf = .error .invalidOrganization := by
  simp only [buildRepositoryContext, ho]
  rfl

/-- A context is built from the validated rows of its own organization. -/
theorem build_ok {c : RepositoryContext}
    (h : buildRepositoryContext evidence renames rawOrg asOf = .ok c) :
    ∃ orgId names, normalizeOrgId rawOrg = some orgId ∧
      evidence.length ≤ repositoryIdentityLimit ∧ renames.length ≤ repositoryIdentityLimit ∧
      renames.mapM validateRename = .ok names ∧
      c = assembleContext (inScope orgId asOf evidence) (renamesInScope orgId asOf names)
        orgId asOf := by
  cases ho : normalizeOrgId rawOrg with
  | none => rw [build_invalid ho] at h; cases h
  | some orgId =>
    by_cases hl : repositoryIdentityLimit < evidence.length ∨
        repositoryIdentityLimit < renames.length
    · rw [build_over orgId ho hl] at h; cases h
    · rw [build_within orgId ho (by omega) (by omega)] at h
      cases hrows : evidence.mapM validateEvidence with
      | error e => rw [hrows] at h; cases h
      | ok rows =>
        cases hnames : renames.mapM validateRename with
        | error e => rw [hrows, hnames] at h; cases h
        | ok names =>
          rw [hrows, hnames] at h
          cases h
          rw [mapM_validateEvidence hrows]
          exact ⟨orgId, names, rfl, by omega, by omega, rfl, rfl⟩

/-- The same answer: equal contexts with the same keys in order, or the same refusal. -/
def SameResult : Except ContextError RepositoryContext → Except ContextError RepositoryContext → Prop
  | .ok c, .ok d => SameContext c d ∧ c.repositoryKeys = d.repositoryKeys
  | .error e, .error e' => e = e'
  | _, _ => False

variable (rawOrg asOf) in
theorem build_sameRows (he : SameRows evidence evidence') (hr : SameRows renames renames')
    (hle : evidence.length ≤ repositoryIdentityLimit ↔ evidence'.length ≤ repositoryIdentityLimit)
    (hlr : renames.length ≤ repositoryIdentityLimit ↔ renames'.length ≤ repositoryIdentityLimit) :
    SameResult (buildRepositoryContext evidence renames rawOrg asOf)
      (buildRepositoryContext evidence' renames' rawOrg asOf) := by
  cases ho : normalizeOrgId rawOrg with
  | none => rw [build_invalid ho, build_invalid ho]; rfl
  | some orgId =>
    by_cases hl : repositoryIdentityLimit < evidence.length ∨
        repositoryIdentityLimit < renames.length
    · rw [build_over orgId ho hl, build_over orgId ho (by omega)]; rfl
    · rw [build_within orgId ho (by omega) (by omega),
        build_within orgId ho (by omega) (by omega)]
      rcases mapM_sameRows validateEvidence_error he with ⟨rows, rows', h1, h2, hrows⟩ | ⟨h1, h2⟩
      · rcases mapM_sameRows validateRename_error hr with
          ⟨names, names', h3, h4, hnames⟩ | ⟨h3, h4⟩
        · rw [h1, h2, h3, h4]
          refine ⟨?_, ?_⟩
          · exact assemble_sameContext (hrows.filter _) (hnames.filter _)
          · exact (assemble_sameNames _ _ (hrows.filter _) (hnames.filter _)).repositoryKeys
        · rw [h1, h2, h3, h4]; rfl
      · rw [h1, h2]; rfl

end

end Sediment.Proofs.RepositoryOrder
