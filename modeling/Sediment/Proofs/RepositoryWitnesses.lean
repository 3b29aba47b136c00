import Sediment.Proofs.RepositoryIdentity

namespace Sediment.Proofs.RepositoryWitnesses
open Sediment.Base Sediment.Core Sediment.Derive
open Sediment.Proofs.RepositoryScan Sediment.Proofs.RepositoryContext
open Sediment.Proofs.RepositoryOrder Sediment.Proofs.RepositoryIdentity

/-- Every source has one copy, as the stored primary keys give it. -/
def UniqueSources (rows : List RepositoryIdentityEvidence) : Prop :=
  ∀ a ∈ rows, ∀ b ∈ rows, sourceKey a = sourceKey b → a = b

structure UniqueRenames (rows : List RepositoryRename) : Prop where
  key : ∀ a ∈ rows, ∀ b ∈ rows, a.renameId = b.renameId → a = b
  delivery : ∀ a ∈ rows, ∀ b ∈ rows, ∀ d, deliveryKey a = some d → deliveryKey b = some d → a = b

/-- What the name of a source rests on, apart from which source it is. -/
structure SourceState where
  isObservation : Bool
  identity : Option RepositoryIdentity
  repo : String
  push : Option (Option RepositoryIdentity × String)

def sourceState (rows : List RepositoryIdentityEvidence) (row : RepositoryIdentityEvidence) :
    SourceState where
  isObservation := row.sourceTable = .sessionCommitObservations
  identity := repositoryIdentityOf row
  repo := row.repo
  push :=
    if row.sourceTable = .sessionCommitObservations then
      ((EvidenceScan.run rows).sound.get? (observes row)).map (fun p =>
        (repositoryIdentityOf p, p.repo))
    else none

/-- A compact population keeps a row of every state with the push it rests on. -/
structure Witnesses (full compact : List RepositoryIdentityEvidence) : Prop where
  unique : UniqueSources full
  subset : ∀ row ∈ compact, row ∈ full
  anchored : ∀ row ∈ compact, row.sourceTable = .sessionCommitObservations →
    ∀ push ∈ full, sourceKey push = observes row → push ∈ compact
  covered : ∀ row ∈ full, ∃ w ∈ compact, sourceState full w = sourceState full row

section
variable {rows full compact : List RepositoryIdentityEvidence}
  {renames names : List RepositoryRename}

theorem not_contradicted (h : UniqueSources rows) (k : SourceKey) : ¬ Contradicted rows k := by
  rintro ⟨a, ha, b, hb, hak, hbk, hs⟩
  exact hs (congrArg evidenceSignature (h a ha b hb (hak.trans hbk.symm)))

theorem not_renameContradicted (h : UniqueRenames renames) (id : String) :
    ¬ RenameContradicted renames id := by
  rintro (⟨a, ha, b, hb, hai, hbi, hs⟩ | ⟨d, a, ha, b, hb, c, hc, -, -, hbd, hcd, hne⟩)
  · exact hs (congrArg renameSignature (h.key a ha b hb (hai.trans hbi.symm)))
  · exact hne (congrArg deliveryContent (h.delivery b hb c hc d hbd hcd))

theorem sound_unique (h : UniqueSources rows) {k row} :
    (EvidenceScan.run rows).sound.get? k = some row ↔ row ∈ rows ∧ sourceKey row = k := by
  rw [sound_eq_some]
  constructor
  · rintro ⟨-, hk, hr⟩
    exact ⟨hr.1, hk⟩
  · rintro ⟨hr, hk⟩
    refine ⟨not_contradicted h k, hk, hr, ?_⟩
    intro b hb hbk
    rw [h b hb row hr hbk]

theorem conflicts_empty (h : UniqueSources rows) : (EvidenceScan.run rows).conflicts = ∅ := by
  ext k
  simp [mem_conflicts, not_contradicted h]

/-- Without conflicts a source's effective identity and failure are decided by its state. -/
theorem resolve_of_state (h : UniqueSources rows) {a b : RepositoryIdentityEvidence}
    (hs : sourceState rows a = sourceState rows b) :
    ((EvidenceScan.run rows).resolve a).identity = ((EvidenceScan.run rows).resolve b).identity ∧
      ((EvidenceScan.run rows).resolve a).reason = ((EvidenceScan.run rows).resolve b).reason := by
  simp only [sourceState, SourceState.mk.injEq, decide_eq_decide] at hs
  obtain ⟨ht, hid, hrepo, hpush⟩ := hs
  by_cases ha : a.sourceTable = .sessionCommitObservations
  · have hb := ht.mp ha
    rw [if_pos ha, if_pos hb] at hpush
    simp only [observes] at hpush
    simp only [EvidenceScan.resolve, sourceIdentity, ha, hb, ne_eq, not_true_eq_false, if_false,
      conflicts_empty h, Finset.notMem_empty, hid, hrepo]
    cases hga : (EvidenceScan.run rows).sound.get? ⟨.pushes, a.sourcePushId.getD "", .repo⟩ with
    | none =>
      cases hgb : (EvidenceScan.run rows).sound.get? ⟨.pushes, b.sourcePushId.getD "", .repo⟩ with
      | none => exact ⟨rfl, rfl⟩
      | some q => simp [hga, hgb] at hpush
    | some p =>
      cases hgb : (EvidenceScan.run rows).sound.get? ⟨.pushes, b.sourcePushId.getD "", .repo⟩ with
      | none => simp [hga, hgb] at hpush
      | some q =>
        simp only [hga, hgb, Option.map_some, Option.some.injEq, Prod.mk.injEq] at hpush
        simp only [hpush]
        cases repositoryIdentityOf q with
        | none =>
          by_cases h1 : (repositoryIdentityOf b).isSome = true <;>
            by_cases h2 : b.repo = q.repo <;> simp [h1, h2]
        | some i =>
          by_cases h1 : (repositoryIdentityOf b).isSome = true ∧ repositoryIdentityOf b ≠ some i
          · simp only [if_pos h1, and_self]
          · simp only [if_neg h1, and_self]
  · rw [resolve_other ha, resolve_other (fun hb => ha (ht.mpr hb))]
    exact ⟨hid, rfl⟩

theorem Witnesses.compact_unique (h : Witnesses full compact) : UniqueSources compact :=
  fun a ha b hb => h.unique a (h.subset a ha) b (h.subset b hb)

/-- A retained row is resolved as it is in the full population. -/
theorem Witnesses.resolve_eq (h : Witnesses full compact) {row : RepositoryIdentityEvidence}
    (hr : row ∈ compact) :
    (EvidenceScan.run compact).resolve row = (EvidenceScan.run full).resolve row := by
  by_cases ht : row.sourceTable = .sessionCommitObservations
  · have hg : (EvidenceScan.run compact).sound.get? (observes row) =
        (EvidenceScan.run full).sound.get? (observes row) := by
      apply Option.ext
      intro push
      rw [sound_unique h.unique, sound_unique h.compact_unique]
      constructor
      · rintro ⟨hp, hk⟩
        exact ⟨h.subset push hp, hk⟩
      · rintro ⟨hp, hk⟩
        exact ⟨h.anchored row hr ht push hp hk, hk⟩
    simp only [observes] at hg
    simp only [EvidenceScan.resolve, sourceIdentity, conflicts_empty h.unique,
      conflicts_empty h.compact_unique, hg]
  · rw [resolve_other ht, resolve_other ht]

theorem Witnesses.declared_iff (h : Witnesses full compact) (slug : String)
    (identity : Option RepositoryIdentity) :
    (slug, identity) ∈ (EvidenceScan.run full).declared ↔
      (slug, identity) ∈ (EvidenceScan.run compact).declared := by
  simp only [mem_declared, sound_unique h.unique, sound_unique h.compact_unique]
  constructor
  · rintro ⟨k, row, ⟨hr, -⟩, hrepo, hne, hreason, hid⟩
    obtain ⟨w, hw, hs⟩ := h.covered row hr
    obtain ⟨hi, hre⟩ := resolve_of_state h.unique hs
    rw [← h.resolve_eq hw] at hi hre
    exact ⟨_, w, ⟨hw, rfl⟩, (congrArg SourceState.repo hs).trans hrepo, hne,
      hre.trans hreason, hi.trans hid⟩
  · rintro ⟨k, w, ⟨hw, hk⟩, hrepo, hne, hreason, hid⟩
    rw [h.resolve_eq hw] at hreason hid
    exact ⟨k, w, ⟨h.subset w hw, hk⟩, hrepo, hne, hreason, hid⟩

variable [Interpreter] {orgId : String} {asOf : Int}

/-- Witnesses of every source state and every rename give the names of the
whole population. -/
theorem Witnesses.sameNames (h : Witnesses full compact) (hr : UniqueRenames renames)
    (hsub : ∀ n ∈ names, n ∈ renames)
    (hcov : ∀ n ∈ renames, ∃ w ∈ names, renameIdentityOf w = renameIdentityOf n ∧
      w.oldRepo = n.oldRepo ∧ w.newRepo = n.newRepo) :
    SameNames (assembleContext full renames orgId asOf) (assembleContext compact names orgId asOf) := by
  have hnames : UniqueRenames names :=
    ⟨fun a ha b hb => hr.key a (hsub a ha) b (hsub b hb),
      fun a ha b hb => hr.delivery a (hsub a ha) b (hsub b hb)⟩
  apply sameNames_of_iff
  · intro key slug
    simp only [Named, h.declared_iff, not_renameContradicted hr, not_renameContradicted hnames,
      not_false_eq_true, true_and]
    refine or_congr_left ⟨?_, ?_⟩
    · rintro ⟨n, hn, rfl, hs⟩
      obtain ⟨w, hw, hi, ho, hnew⟩ := hcov n hn
      exact ⟨w, hw, by rw [hi], by rw [ho, hnew]; exact hs⟩
    · rintro ⟨n, hn, hk, hs⟩
      exact ⟨n, hsub n hn, hk, hs⟩
  · intro slug identity
    simp only [Claimed, h.declared_iff]
    refine or_congr ⟨?_, ?_⟩ (or_congr_left ⟨?_, ?_⟩)
    · rintro ⟨n, hn, rfl, hs⟩
      obtain ⟨w, hw, hi, ho, hnew⟩ := hcov n hn
      exact ⟨w, hw, hi, by rw [ho, hnew]; exact hs⟩
    · rintro ⟨n, hn, hi, hs⟩
      exact ⟨n, hsub n hn, hi, hs⟩
    · rintro ⟨row, hrow, hi, hs, hne⟩
      obtain ⟨w, hw, hst⟩ := h.covered row hrow
      exact ⟨w, hw, (congrArg SourceState.identity hst).trans hi,
        (congrArg SourceState.repo hst).trans hs, hne⟩
    · rintro ⟨row, hrow, hrest⟩
      exact ⟨row, h.subset row hrow, hrest⟩
  · intro slug
    simp [Unsafe, not_renameContradicted hr, not_renameContradicted hnames,
      not_contradicted h.unique, not_contradicted h.compact_unique]

theorem Witnesses.resolveSource (h : Witnesses full compact)
    (hn : SameNames (assembleContext full renames orgId asOf)
      (assembleContext compact names orgId asOf)) {k : SourceKey}
    (hk : ∀ row ∈ full, sourceKey row = k → row ∈ compact) :
    (assembleContext full renames orgId asOf).resolveSource k.table k.factId k.role =
      (assembleContext compact names orgId asOf).resolveSource k.table k.factId k.role := by
  by_cases hex : ∃ row ∈ full, sourceKey row = k
  · obtain ⟨row, hr, hrk⟩ := hex
    rw [resolveSource_sound ((sound_unique h.unique).mpr ⟨hr, hrk⟩),
      resolveSource_sound ((sound_unique h.compact_unique).mpr ⟨hk row hr hrk, hrk⟩),
      h.resolve_eq (hk row hr hrk), hn.lookup.sourceResolution]
  · simp only [not_exists, not_and] at hex
    rw [resolveSource_absent hex,
      resolveSource_absent (fun row hr => hex row (h.subset row hr))]

end

end Sediment.Proofs.RepositoryWitnesses
