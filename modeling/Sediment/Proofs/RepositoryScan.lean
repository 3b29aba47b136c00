import Sediment.Derive.RepositoryContext

namespace Sediment.Proofs.RepositoryScan
open Sediment.Base Sediment.Core Sediment.Derive

/-- Some two copies of the source differ in a field of their signature. -/
def Contradicted (rows : List RepositoryIdentityEvidence) (key : SourceKey) : Prop :=
  ∃ a ∈ rows, ∃ b ∈ rows, sourceKey a = key ∧ sourceKey b = key ∧
    evidenceSignature a ≠ evidenceSignature b

/-- The copy of a source that represents it, whatever order the copies came in. -/
def Represents (rows : List RepositoryIdentityEvidence) (row : RepositoryIdentityEvidence) :
    Prop :=
  row ∈ rows ∧ ∀ b ∈ rows, sourceKey b = sourceKey row →
    evidenceRepresentationKey row ≤ evidenceRepresentationKey b

structure Scanned (rows : List RepositoryIdentityEvidence) (s : EvidenceScan) : Prop where
  kept : ∀ {k row}, s.sources.get? k = some row → sourceKey row = k ∧ Represents rows row
  seen : ∀ row ∈ rows, ∃ kept, s.sources.get? (sourceKey row) = some kept
  conflicts : ∀ k, k ∈ s.conflicts ↔ Contradicted rows k

theorem scanned_nil : Scanned [] {} where
  kept := by intro k row h; simp at h
  seen := by simp
  conflicts := by simp [Contradicted]

theorem contradicted_append {rows row k} :
    Contradicted (rows ++ [row]) k ↔ Contradicted rows k ∨
      (sourceKey row = k ∧ ∃ a ∈ rows, sourceKey a = k ∧
        evidenceSignature a ≠ evidenceSignature row) := by
  constructor
  · rintro ⟨a, ha, b, hb, hak, hbk, hs⟩
    simp only [List.mem_append, List.mem_singleton] at ha hb
    rcases ha with ha | rfl <;> rcases hb with hb | rfl
    · exact Or.inl ⟨a, ha, b, hb, hak, hbk, hs⟩
    · exact Or.inr ⟨hbk, a, ha, hak, hs⟩
    · exact Or.inr ⟨hak, b, hb, hbk, Ne.symm hs⟩
    · exact absurd rfl hs
  · rintro (⟨a, ha, b, hb, h⟩ | ⟨hk, a, ha, hak, hs⟩)
    · exact ⟨a, List.mem_append_left _ ha, b, List.mem_append_left _ hb, h⟩
    · exact ⟨a, List.mem_append_left _ ha, row, by simp, hak, hk, hs⟩

/-- Comparing a new copy with the kept one is comparing it with all of them,
since until then the copies either agreed or were already in conflict. -/
theorem scanned_conflicts (h : Scanned rows s) (k : SourceKey) :
    k ∈ (s.add row).conflicts ↔ Contradicted (rows ++ [row]) k := by
  rw [contradicted_append, ← h.conflicts]
  simp only [EvidenceScan.add]
  cases hg : s.sources.get? (sourceKey row) with
  | none =>
    refine ⟨Or.inl, fun hk => hk.elim id ?_⟩
    rintro ⟨rfl, a, ha, hak, _⟩
    obtain ⟨kept, hkept⟩ := h.seen a ha
    rw [hak, hg] at hkept
    cases hkept
  | some kept =>
    obtain ⟨hkey, hmem, _⟩ := h.kept hg
    by_cases hs : evidenceSignature kept = evidenceSignature row
    · simp only [hs, ne_eq, not_true_eq_false, if_false]
      refine ⟨Or.inl, fun hk => hk.elim id ?_⟩
      rintro ⟨rfl, a, ha, hak, hne⟩
      exact (h.conflicts _).mpr ⟨a, ha, kept, hmem, hak, hkey, fun he => hne (he.trans hs)⟩
    · simp only [hs, ne_eq, not_false_eq_true, if_true, Finset.mem_insert]
      constructor
      · rintro (rfl | hk)
        · exact Or.inr ⟨rfl, kept, hmem, hkey, hs⟩
        · exact Or.inl hk
      · rintro (hk | ⟨rfl, _⟩)
        · exact Or.inr hk
        · exact Or.inl rfl

theorem represents_new
    (hle : ∀ b ∈ rows, sourceKey b = sourceKey row →
      evidenceRepresentationKey row ≤ evidenceRepresentationKey b) :
    Represents (rows ++ [row]) row := by
  refine ⟨by simp, ?_⟩
  intro b hb hk
  rcases List.mem_append.mp hb with hb | hb
  · exact hle b hb hk
  · rw [List.mem_singleton.mp hb]

theorem represents_old (h : Represents rows a)
    (hle : sourceKey row = sourceKey a →
      evidenceRepresentationKey a ≤ evidenceRepresentationKey row) :
    Represents (rows ++ [row]) a := by
  refine ⟨List.mem_append_left _ h.1, ?_⟩
  intro b hb hk
  rcases List.mem_append.mp hb with hb | hb
  · exact h.2 b hb hk
  · rw [List.mem_singleton.mp hb] at hk ⊢
    exact hle hk

theorem scanned_kept (h : Scanned rows s) {k a} (hg : (s.add row).sources.get? k = some a) :
    sourceKey a = k ∧ Represents (rows ++ [row]) a := by
  simp only [EvidenceScan.add] at hg
  cases hs : s.sources.get? (sourceKey row) with
  | none =>
    simp only [hs, Dict.get?_set] at hg
    by_cases hk : k = sourceKey row
    · simp only [hk, if_true, Option.some.injEq] at hg
      subst hg
      refine ⟨hk.symm, represents_new ?_⟩
      intro b hb hbk
      obtain ⟨kept, hkept⟩ := h.seen b hb
      rw [hbk, hs] at hkept
      cases hkept
    · rw [if_neg hk] at hg
      obtain ⟨ha, hr⟩ := h.kept hg
      exact ⟨ha, represents_old hr (fun he => absurd (he.trans ha).symm hk)⟩
  | some kept =>
    obtain ⟨hkey, hrep⟩ := h.kept hs
    simp only [hs] at hg
    by_cases hlt : evidenceRepresentationKey row < evidenceRepresentationKey kept
    · simp only [hlt, if_true, Dict.get?_set] at hg
      by_cases hk : k = sourceKey row
      · simp only [hk, if_true, Option.some.injEq] at hg
        subst hg
        refine ⟨hk.symm, represents_new ?_⟩
        intro b hb hbk
        exact le_trans (le_of_lt hlt) (hrep.2 b hb (hbk.trans hkey.symm))
      · rw [if_neg hk] at hg
        obtain ⟨ha, hr⟩ := h.kept hg
        exact ⟨ha, represents_old hr (fun he => absurd (he.trans ha).symm hk)⟩
    · simp only [hlt, if_false] at hg
      obtain ⟨ha, hr⟩ := h.kept hg
      refine ⟨ha, represents_old hr ?_⟩
      intro he
      rw [← ha, ← he, hs] at hg
      cases hg
      exact not_lt.mp hlt

theorem scanned_seen (h : Scanned rows s) :
    ∀ a ∈ rows ++ [row], ∃ kept, (s.add row).sources.get? (sourceKey a) = some kept := by
  intro a ha
  have hnew : ∃ kept, (s.add row).sources.get? (sourceKey row) = some kept := by
    simp only [EvidenceScan.add]
    cases hs : s.sources.get? (sourceKey row) with
    | none => exact ⟨row, by simp [Dict.get?_set]⟩
    | some kept =>
      by_cases hlt : evidenceRepresentationKey row < evidenceRepresentationKey kept
      · exact ⟨row, by simp [hlt, Dict.get?_set]⟩
      · exact ⟨kept, by simp [hlt, hs]⟩
  rcases List.mem_append.mp ha with ha | ha
  · by_cases hk : sourceKey a = sourceKey row
    · rw [hk]; exact hnew
    · obtain ⟨kept, hkept⟩ := h.seen a ha
      refine ⟨kept, ?_⟩
      simp only [EvidenceScan.add]
      cases s.sources.get? (sourceKey row) with
      | none => simp [Dict.get?_set, hk, hkept]
      | some old =>
        by_cases hlt : evidenceRepresentationKey row < evidenceRepresentationKey old
        · simp [hlt, Dict.get?_set, hk, hkept]
        · simp [hlt, hkept]
  · rw [List.mem_singleton.mp ha]; exact hnew

theorem scanned_add (h : Scanned rows s) : Scanned (rows ++ [row]) (s.add row) :=
  ⟨scanned_kept h, scanned_seen h, scanned_conflicts h⟩

theorem scanned_run (rows : List RepositoryIdentityEvidence) :
    Scanned rows (EvidenceScan.run rows) := by
  induction rows using List.reverseRecOn with
  | nil => exact scanned_nil
  | append_singleton rows row ih =>
    rw [EvidenceScan.run, List.foldl_append]
    exact scanned_add ih

theorem sourceCopies_run (rows : List RepositoryIdentityEvidence) :
    (EvidenceScan.run rows).sourceCopies =
      Dict.empty.gather (rows.map (fun row => (sourceKey row, row))) := by
  induction rows using List.reverseRecOn with
  | nil => rfl
  | append_singleton rows row ih =>
    simp only [EvidenceScan.run, Dict.gather, List.foldl_append, List.map_append,
      List.map_cons, List.map_nil, List.foldl_cons, List.foldl_nil] at ih ⊢
    rw [← ih]
    rfl

theorem mem_copies {rows k row} :
    (k, row) ∈ (EvidenceScan.run rows).sourceCopies.unroll ↔ row ∈ rows ∧ sourceKey row = k := by
  rw [sourceCopies_run, Dict.mem_unroll_gather]
  simp [and_comm]

theorem mem_sourceCopies_keys {rows k} :
    k ∈ (EvidenceScan.run rows).sourceCopies.keys ↔ ∃ row ∈ rows, sourceKey row = k := by
  rw [sourceCopies_run, Dict.mem_keys_gather]
  simp [Dict.keys, Dict.empty, and_comm]

theorem mem_conflicts {rows k} :
    k ∈ (EvidenceScan.run rows).conflicts ↔ Contradicted rows k :=
  (scanned_run rows).conflicts k

/-- Copies that agree in signature and in spelling are one row. -/
theorem evidence_ext {a b : RepositoryIdentityEvidence}
    (hs : evidenceSignature a = evidenceSignature b)
    (hr : evidenceRepresentationKey a = evidenceRepresentationKey b) : a = b := by
  obtain ⟨_, _, _, _, _, _, _, _, ⟨_, _, _, _⟩, _⟩ := a
  obtain ⟨_, _, _, _, _, _, _, _, ⟨_, _, _, _⟩, _⟩ := b
  simp only [evidenceSignature, sourceKey, EvidenceSignature.mk.injEq, SourceKey.mk.injEq] at hs
  simp only [evidenceRepresentationKey, EmbeddingLike.apply_eq_iff_eq, Prod.mk.injEq] at hr
  simp_all

/-- A source is kept exactly when its copies agree, and then as its
representative; neither depends on the order of the rows. -/
theorem sound_eq_some {rows k row} :
    (EvidenceScan.run rows).sound.get? k = some row ↔
      ¬ Contradicted rows k ∧ sourceKey row = k ∧ Represents rows row := by
  have hs := scanned_run rows
  simp only [EvidenceScan.sound, Dict.get?_filter, Option.filter_eq_some_iff,
    decide_eq_true_eq, mem_conflicts]
  constructor
  · rintro ⟨hg, hn⟩
    exact ⟨hn, hs.kept hg⟩
  · rintro ⟨hn, rfl, hr⟩
    obtain ⟨kept, hkept⟩ := hs.seen row hr.1
    obtain ⟨hk, hrep⟩ := hs.kept hkept
    have hsig : evidenceSignature kept = evidenceSignature row := by
      by_contra hne
      exact hn ⟨kept, hrep.1, row, hr.1, hk, rfl, hne⟩
    have heq : kept = row :=
      evidence_ext hsig (le_antisymm (hrep.2 row hr.1 hk.symm) (hr.2 kept hrep.1 hk))
    exact ⟨heq ▸ hkept, hn⟩

theorem sound_isSome {rows row} (hr : row ∈ rows) (hn : ¬ Contradicted rows (sourceKey row)) :
    ∃ kept, (EvidenceScan.run rows).sound.get? (sourceKey row) = some kept ∧
      evidenceSignature kept = evidenceSignature row := by
  obtain ⟨kept, hkept⟩ := (scanned_run rows).seen row hr
  obtain ⟨hk, hrep⟩ := (scanned_run rows).kept hkept
  refine ⟨kept, sound_eq_some.mpr ⟨hn, hk, hrep⟩, ?_⟩
  by_contra hne
  exact hn ⟨kept, hrep.1, row, hr, hk, rfl, hne⟩

theorem mem_scan_claims {rows slug identity} :
    (slug, identity) ∈ (EvidenceScan.run rows).claims ↔
      ∃ row ∈ rows, repositoryIdentityOf row = some identity ∧ row.repo = slug ∧ slug ≠ "" := by
  simp only [EvidenceScan.claims, List.mem_filterMap, Prod.exists, mem_copies,
    Option.bind_eq_some_iff]
  constructor
  · rintro ⟨_, row, ⟨hr, _⟩, i, hi, he⟩
    split at he
    · cases he
      exact ⟨row, hr, hi, rfl, by assumption⟩
    · cases he
  · rintro ⟨row, hr, hi, rfl, hne⟩
    exact ⟨_, row, ⟨hr, rfl⟩, identity, hi, by simp [hne]⟩

theorem mem_scan_unsafe {rows slug} :
    slug ∈ (EvidenceScan.run rows).unsafeSlugs ↔
      ∃ row ∈ rows, Contradicted rows (sourceKey row) ∧ row.repo = slug := by
  simp only [EvidenceScan.unsafeSlugs, List.mem_toFinset, List.mem_map, List.mem_filter,
    Prod.exists, mem_copies, decide_eq_true_eq, mem_conflicts]
  constructor
  · rintro ⟨_, row, ⟨⟨hr, rfl⟩, hc⟩, hs⟩
    exact ⟨row, hr, hc, hs⟩
  · rintro ⟨row, hr, hc, hs⟩
    exact ⟨_, row, ⟨⟨hr, rfl⟩, hc⟩, hs⟩

theorem mem_declared {rows slug identity} :
    (slug, identity) ∈ (EvidenceScan.run rows).declared ↔
      ∃ k row, (EvidenceScan.run rows).sound.get? k = some row ∧ row.repo = slug ∧ slug ≠ "" ∧
        ((EvidenceScan.run rows).resolve row).reason = none ∧
        ((EvidenceScan.run rows).resolve row).identity = identity := by
  simp only [EvidenceScan.declared, List.mem_filterMap, Prod.exists, Dict.mem_entries_iff]
  constructor
  · rintro ⟨k, row, hg, he⟩
    split at he
    · cases he
    · rename_i hc
      simp only [not_or, Bool.not_eq_true, Option.isSome_eq_false_iff,
        Option.isNone_iff_eq_none] at hc
      cases he
      exact ⟨k, row, hg, rfl, hc.2, hc.1, rfl⟩
  · rintro ⟨k, row, hg, rfl, hne, hr, rfl⟩
    exact ⟨k, row, hg, by simp [hr, hne]⟩

/-- Some two copies of the rename differ, or some two rows of a delivery it
belongs to do. -/
def RenameContradicted (rows : List RepositoryRename) (renameId : String) : Prop :=
  (∃ a ∈ rows, ∃ b ∈ rows, a.renameId = renameId ∧ b.renameId = renameId ∧
    renameSignature a ≠ renameSignature b) ∨
  (∃ d, ∃ a ∈ rows, ∃ b ∈ rows, ∃ c ∈ rows, a.renameId = renameId ∧
    deliveryKey a = some d ∧ deliveryKey b = some d ∧ deliveryKey c = some d ∧
    deliveryContent b ≠ deliveryContent c)

structure RenameScanned (rows : List RepositoryRename) (s : RenameScan) : Prop where
  latest : ∀ {id signature}, s.signatures.get? id = some signature →
    ∃ row ∈ rows, row.renameId = id ∧ renameSignature row = signature
  seen : ∀ row ∈ rows, ∃ signature, s.signatures.get? row.renameId = some signature
  conflicts : ∀ id, id ∈ s.conflicts ↔ ∃ a ∈ rows, ∃ b ∈ rows, a.renameId = id ∧
    b.renameId = id ∧ renameSignature a ≠ renameSignature b

theorem renameScanned_add (h : RenameScanned rows s) :
    RenameScanned (rows ++ [row]) (s.add row) where
  latest := by
    intro id signature hg
    simp only [RenameScan.add, Dict.get?_set] at hg
    split at hg
    · cases hg
      exact ⟨row, by simp, by simp_all, rfl⟩
    · obtain ⟨a, ha, h1, h2⟩ := h.latest hg
      exact ⟨a, List.mem_append_left _ ha, h1, h2⟩
  seen := by
    intro a ha
    simp only [RenameScan.add, Dict.get?_set]
    split
    · exact ⟨_, rfl⟩
    · rename_i hk
      rcases List.mem_append.mp ha with ha | ha
      · exact h.seen a ha
      · exact absurd (by rw [List.mem_singleton.mp ha]) hk
  conflicts := by
    intro id
    have hold : id ∈ s.conflicts → ∃ a ∈ rows ++ [row], ∃ b ∈ rows ++ [row], a.renameId = id ∧
        b.renameId = id ∧ renameSignature a ≠ renameSignature b := by
      intro hid
      obtain ⟨a, ha, b, hb, hr⟩ := (h.conflicts id).mp hid
      exact ⟨a, List.mem_append_left _ ha, b, List.mem_append_left _ hb, hr⟩
    -- A copy that differs from an earlier one differs from the latest, or the
    -- latest already differed from that earlier one.
    have hnew : ∀ a ∈ rows, a.renameId = row.renameId → renameSignature a ≠ renameSignature row →
        row.renameId ∈ (s.add row).conflicts := by
      intro a ha hid hne
      obtain ⟨signature, hg⟩ := h.seen a ha
      rw [hid] at hg
      simp only [RenameScan.add, hg]
      by_cases hs : signature = renameSignature row
      · obtain ⟨b, hb, hbid, hbs⟩ := h.latest hg
        have hmem : row.renameId ∈ s.conflicts :=
          (h.conflicts _).mpr ⟨a, ha, b, hb, hid, hbid, fun he => hne (he.trans (hbs.trans hs))⟩
        simp [hs, hmem]
      · simp [hs]
    constructor
    · intro hid
      simp only [RenameScan.add] at hid
      cases hg : s.signatures.get? row.renameId with
      | none => exact hold (by simpa [hg] using hid)
      | some signature =>
        by_cases hs : signature = renameSignature row
        · exact hold (by simpa [hg, hs] using hid)
        · simp only [hg, ne_eq, hs, not_false_eq_true, if_true, Finset.mem_insert] at hid
          rcases hid with rfl | hid
          · obtain ⟨b, hb, hbid, hbs⟩ := h.latest hg
            exact ⟨b, List.mem_append_left _ hb, row, by simp, hbid, rfl, hbs ▸ hs⟩
          · exact hold hid
    · rintro ⟨a, ha, b, hb, hai, hbi, hne⟩
      simp only [List.mem_append, List.mem_singleton] at ha hb
      rcases ha with ha | rfl <;> rcases hb with hb | rfl
      · have hid := (h.conflicts id).mpr ⟨a, ha, b, hb, hai, hbi, hne⟩
        simp only [RenameScan.add]
        split
        · split
          · exact Finset.mem_insert_of_mem hid
          · exact hid
        · exact hid
      · subst hbi; exact hnew a ha hai hne
      · subst hai; exact hnew b hb hbi (Ne.symm hne)
      · exact absurd rfl hne

theorem renameScanned_run (rows : List RepositoryRename) :
    RenameScanned rows (RenameScan.run rows) := by
  induction rows using List.reverseRecOn with
  | nil => exact ⟨by intro _ _ h; simp [RenameScan.run] at h, by simp, by simp [RenameScan.run]⟩
  | append_singleton rows row ih =>
    rw [RenameScan.run, List.foldl_append]
    exact renameScanned_add ih

theorem rename_rows_run (rows : List RepositoryRename) :
    (RenameScan.run rows).rows =
      Dict.empty.gather (rows.map (fun row => (row.renameId, row))) := by
  induction rows using List.reverseRecOn with
  | nil => rfl
  | append_singleton rows row ih =>
    simp only [RenameScan.run, Dict.gather, List.foldl_append, List.map_append,
      List.map_cons, List.map_nil, List.foldl_cons, List.foldl_nil] at ih ⊢
    rw [← ih]
    rfl

theorem mem_rename_rows {rows id row} :
    (id, row) ∈ (RenameScan.run rows).rows.unroll ↔ row ∈ rows ∧ row.renameId = id := by
  rw [rename_rows_run, Dict.mem_unroll_gather]
  simp [and_comm]

theorem listed_groups (rows : List RepositoryRename) (d : DeliveryKey) :
    (RenameScan.run rows).groups.listed d = rows.filter (fun row => deliveryKey row = some d) := by
  induction rows using List.reverseRecOn with
  | nil => rfl
  | append_singleton rows row ih =>
    rw [RenameScan.run, List.foldl_append]
    change ((RenameScan.run rows).add row).groups.listed d = _
    simp only [RenameScan.add]
    cases hd : deliveryKey row with
    | none => simp [ih, hd]
    | some delivery =>
      simp only [Dict.listed_push, ih, List.filter_append]
      by_cases he : d = delivery
      · subst he; simp [hd, ih]
      · simp [hd, he, Ne.symm he]

theorem contradictory_iff {group : List RepositoryRename} :
    RenameScan.contradictory group = true ↔
      ∃ b ∈ group, ∃ c ∈ group, deliveryContent b ≠ deliveryContent c := by
  simp only [RenameScan.contradictory, decide_eq_true_eq, Finset.one_lt_card]
  simp

theorem mem_allConflicts {rows id} :
    id ∈ (RenameScan.run rows).allConflicts ↔ RenameContradicted rows id := by
  have hlisted := listed_groups rows
  have hentry : ∀ {d group}, (RenameScan.run rows).groups.get? d = some group →
      group = rows.filter (fun row => deliveryKey row = some d) := by
    intro d group hg
    rw [← hlisted d, Dict.listed, hg]
    rfl
  rw [RenameScan.allConflicts, Finset.mem_union, (renameScanned_run rows).conflicts]
  refine or_congr Iff.rfl ?_
  simp only [List.mem_toFinset, List.mem_map, List.mem_flatten, List.mem_filter, Dict.values,
    Prod.exists, exists_eq_right]
  constructor
  · rintro ⟨a, ⟨group, ⟨⟨d, hm⟩, hc⟩, ha⟩, hid⟩
    have hgroup := hentry ((Dict.mem_entries_iff _).mp hm)
    subst hgroup
    obtain ⟨b, hb, c, hcm, hne⟩ := contradictory_iff.mp hc
    simp only [List.mem_filter, decide_eq_true_eq] at ha hb hcm
    exact ⟨d, a, ha.1, b, hb.1, c, hcm.1, hid, ha.2, hb.2, hcm.2, hne⟩
  · rintro ⟨d, a, ha, b, hb, c, hc, hid, had, hbd, hcd, hne⟩
    have hl := hlisted d
    have hgroup : (RenameScan.run rows).groups.get? d =
        some (rows.filter (fun row => deliveryKey row = some d)) := by
      rw [← hl]
      cases hg : (RenameScan.run rows).groups.get? d with
      | some group => simp [Dict.listed, hg]
      | none =>
        have hmem : a ∈ (RenameScan.run rows).groups.listed d := by simp [hl, ha, had]
        simp [Dict.listed, hg] at hmem
    refine ⟨a, ⟨_, ⟨⟨d, (Dict.mem_entries_iff _).mpr hgroup⟩, ?_⟩, ?_⟩, hid⟩
    · exact contradictory_iff.mpr ⟨b, by simp [hb, hbd], c, by simp [hc, hcd], hne⟩
    · simp [ha, had]

theorem mem_valid {rows t} :
    t ∈ (RenameScan.run rows).valid ↔
      ∃ row ∈ rows, ¬ RenameContradicted rows row.renameId ∧
        (renameIdentityOf row, row.oldRepo, row.newRepo) = t := by
  simp only [RenameScan.valid, List.mem_map, List.mem_filter, Prod.exists, mem_rename_rows,
    decide_eq_true_eq, mem_allConflicts]
  constructor
  · rintro ⟨_, row, ⟨⟨hr, rfl⟩, hc⟩, ht⟩
    exact ⟨row, hr, hc, ht⟩
  · rintro ⟨row, hr, hc, ht⟩
    exact ⟨_, row, ⟨⟨hr, rfl⟩, hc⟩, ht⟩

theorem mem_rename_claims {rows slug identity} :
    (slug, identity) ∈ (RenameScan.run rows).claims ↔
      ∃ row ∈ rows, renameIdentityOf row = identity ∧ slug ∈ [row.oldRepo, row.newRepo] := by
  simp only [RenameScan.claims, List.mem_flatMap, Prod.exists, mem_rename_rows, List.mem_cons,
    Prod.mk.injEq, List.not_mem_nil, or_false]
  constructor
  · rintro ⟨_, row, ⟨hr, rfl⟩, ⟨rfl, rfl⟩ | ⟨rfl, rfl⟩⟩
    · exact ⟨row, hr, rfl, Or.inl rfl⟩
    · exact ⟨row, hr, rfl, Or.inr rfl⟩
  · rintro ⟨row, hr, rfl, rfl | rfl⟩
    · exact ⟨_, row, ⟨hr, rfl⟩, Or.inl ⟨rfl, rfl⟩⟩
    · exact ⟨_, row, ⟨hr, rfl⟩, Or.inr ⟨rfl, rfl⟩⟩

theorem mem_rename_unsafe {rows slug} :
    slug ∈ (RenameScan.run rows).unsafeSlugs ↔
      ∃ row ∈ rows, RenameContradicted rows row.renameId ∧ slug ∈ [row.oldRepo, row.newRepo] := by
  simp only [RenameScan.unsafeSlugs, List.mem_toFinset, List.mem_flatMap, List.mem_filter,
    Prod.exists, mem_rename_rows, decide_eq_true_eq, mem_allConflicts]
  constructor
  · rintro ⟨_, row, ⟨⟨hr, rfl⟩, hc⟩, hs⟩
    exact ⟨row, hr, hc, hs⟩
  · rintro ⟨row, hr, hc, hs⟩
    exact ⟨_, row, ⟨⟨hr, rfl⟩, hc⟩, hs⟩

end Sediment.Proofs.RepositoryScan
