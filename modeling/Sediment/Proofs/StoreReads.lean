import Sediment.Core.Store
import Sediment.Proofs.RepositoryWitnesses

namespace Sediment.Proofs.StoreReads
open Sediment.Base Sediment.Core Sediment.Derive
open Sediment.Proofs.RepositoryWitnesses

section
variable {s : RepositoryStore} {orgId : String} {through : Int}

theorem mem_visible {table : FactTable} {f : StoredFact} :
    f ∈ s.visible orgId through table ↔ f ∈ s.facts ∧ f.table = table ∧ f.orgId = orgId ∧
      s.latestAction f.orgId table f.factId ≠ some .quarantine ∧ f.capturedAt.utc ≤ through := by
  simp [RepositoryStore.visible]

theorem visible_ids_nodup (table : FactTable) :
    ((s.visible orgId through table).map StoredFact.factId).Nodup := by
  rw [List.Nodup, List.pairwise_map]
  refine List.Pairwise.imp_of_mem ?_ (s.primaryKey.sublist List.filter_sublist)
  intro a b ha hb h
  exact h ((mem_visible.mp ha).2.1.trans (mem_visible.mp hb).2.1.symm)

theorem fact_eq_of_key {a b : StoredFact} (ha : a ∈ s.facts) (hb : b ∈ s.facts)
    (ht : a.table = b.table) (hid : a.factId = b.factId) : a = b := by
  by_contra hne
  have hsymm : Std.Symm (fun a b : StoredFact => a.table = b.table → a.factId ≠ b.factId) :=
    ⟨fun _ _ h ht he => h ht.symm he.symm⟩
  exact s.primaryKey.forall ha hb hne ht hid

/-- Every projection of a Fact visible at the boundary, one for each role of its table. -/
def Projected (s : RepositoryStore) (orgId : String) (through : Int)
    (row : RepositoryIdentityEvidence) : Prop :=
  ∃ table role, (table, role) ∈ sourceRoles ∧ ∃ f ∈ s.visible orgId through table,
    repositoryEvidence f role = row

theorem sourceKey_repositoryEvidence (f : StoredFact) (role : RepositoryRole) :
    sourceKey (repositoryEvidence f role) = ⟨f.table, f.factId, role⟩ := rfl

/-- The primary keys leave one projection for a source. -/
theorem projected_unique {a b : RepositoryIdentityEvidence} (ha : Projected s orgId through a)
    (hb : Projected s orgId through b) (hk : sourceKey a = sourceKey b) : a = b := by
  obtain ⟨ta, ra, -, fa, hfa, rfl⟩ := ha
  obtain ⟨tb, rb, -, fb, hfb, rfl⟩ := hb
  simp only [sourceKey_repositoryEvidence, SourceKey.mk.injEq] at hk
  obtain ⟨ht, hid, rfl⟩ := hk
  rw [fact_eq_of_key (mem_visible.mp hfa).1 (mem_visible.mp hfb).1 ht hid]

variable {limit : Nat}

theorem repositoryReadBounds_ok (h : repositoryReadBounds limit = .ok ()) :
    limit ≤ repositoryIdentityLimit := by
  unfold repositoryReadBounds at h
  split at h
  · rename_i hb
    exact hb.2
  · cases h

theorem append_within {rows result out : List RepositoryIdentityEvidence}
    (hlim : result.length ≤ limit)
    (h : rows.foldlM (RepositoryStore.appendWithin limit) result = .ok out) :
    out = result ++ rows ∧ out.length ≤ limit := by
  refine foldlM_induct (fun seen st => st = result ++ seen ∧ st.length ≤ limit) (by simp [hlim])
    ?_ h
  rintro seen row st st' ⟨rfl, -⟩ hst
  unfold RepositoryStore.appendWithin at hst
  dsimp only at hst
  split at hst
  · cases hst
  · rename_i hover
    cases hst
    exact ⟨by simp, not_lt.mp hover⟩

theorem boundedRows_ok {α : Type} {rows out : List α} (h : boundedRows limit rows = .ok out) :
    out = rows ∧ out.length ≤ limit := by
  unfold boundedRows at h
  dsimp only at h
  split at h
  · cases h
  · rename_i hl
    cases h
    rw [List.length_take] at hl
    rw [List.take_of_length_le (by omega)]
    exact ⟨rfl, by omega⟩

theorem mem_anchor {f push : StoredFact} (h : s.anchor orgId through f = some push) :
    f.table = .sessionCommitObservations ∧ push ∈ s.visible orgId through .pushes ∧
      f.sourcePushId = some push.factId := by
  unfold RepositoryStore.anchor at h
  split at h
  · rename_i ht
    have hid := List.find?_some h
    exact ⟨ht, List.mem_of_find?_eq_some h, (of_decide_eq_true hid).symm⟩
  · cases h

theorem anchor_eq_some {f push : StoredFact} (ht : f.table = .sessionCommitObservations)
    (hp : push ∈ s.visible orgId through .pushes) (hid : f.sourcePushId = some push.factId) :
    s.anchor orgId through f = some push := by
  cases ha : s.anchor orgId through f with
  | none =>
    simp only [RepositoryStore.anchor, if_pos ht, List.find?_eq_none] at ha
    exact absurd (by simp [hid]) (ha push hp)
  | some other =>
    obtain ⟨-, ho, hoid⟩ := mem_anchor ha
    have hf := mem_visible.mp ho
    have hg := mem_visible.mp hp
    rw [hid] at hoid
    rw [fact_eq_of_key hf.1 hg.1 (hf.2.1.trans hg.2.1.symm) (Option.some.inj hoid).symm]

/-- What retaining a run of rows leaves: every key, and only rows of the run. -/
theorem retain_ok {items : List RepositoryIdentityEvidence}
    {sources : Dict SourceKey RepositoryIdentityEvidence}
    (h : items.foldlM (RepositoryStore.retain limit) Dict.empty = .ok sources) :
    sources.entries.length ≤ limit ∧
      (∀ item ∈ items, ∃ kept ∈ items, sourceKey kept = sourceKey item ∧
        sources.get? (sourceKey item) = some kept) ∧
      ∀ k kept, sources.get? k = some kept → kept ∈ items ∧ sourceKey kept = k := by
  refine foldlM_induct (fun seen (st : Dict SourceKey RepositoryIdentityEvidence) =>
    st.entries.length ≤ limit ∧
      (∀ item ∈ seen, ∃ kept ∈ seen, sourceKey kept = sourceKey item ∧
        st.get? (sourceKey item) = some kept) ∧
      ∀ k kept, st.get? k = some kept → kept ∈ seen ∧ sourceKey kept = k)
    (by simp [Dict.empty, Dict.get?]) ?_ h
  rintro seen x st st' ⟨-, hall, honly⟩ hst
  unfold RepositoryStore.retain at hst
  dsimp only at hst
  split at hst
  · cases hst
  · rename_i hl
    cases hst
    refine ⟨not_lt.mp hl, ?_, ?_⟩
    · intro item hi
      by_cases hk : sourceKey item = sourceKey x
      · exact ⟨x, by simp, hk.symm, by rw [Dict.get?_set, if_pos hk]⟩
      · rcases List.mem_append.mp hi with hi | hi
        · obtain ⟨kept, hm, hkk, hg⟩ := hall item hi
          exact ⟨kept, List.mem_append_left _ hm, hkk, by rw [Dict.get?_set, if_neg hk, hg]⟩
        · exact absurd (by rw [List.mem_singleton.mp hi]) hk
    · intro k kept hg
      rw [Dict.get?_set] at hg
      split at hg
      · rename_i hk
        cases hg
        exact ⟨by simp, hk.symm⟩
      · obtain ⟨hm, hkk⟩ := honly k kept hg
        exact ⟨List.mem_append_left _ hm, hkk⟩

theorem checkSourceKeys_ok {sourceKeys : Finset SourceKey}
    (h : RepositoryStore.checkSourceKeys sourceKeys = .ok ()) :
    ∀ key ∈ sourceKeys, RepositoryStore.validateSourceKey key ≠ none := by
  unfold RepositoryStore.checkSourceKeys at h
  split at h
  · cases h
  · split at h
    · cases h
    · rename_i hvalid
      exact fun key hk hn => hvalid ⟨key, hk, hn⟩

theorem retained_projected {table : FactTable} {role : RepositoryRole} {f : StoredFact}
    (hr : (table, role) ∈ sourceRoles) (hf : f ∈ s.visible orgId through table) :
    ∀ row ∈ s.retained orgId through role f, Projected s orgId through row := by
  intro row hrow
  simp only [RepositoryStore.retained, List.mem_cons, Option.mem_toList, Option.map_eq_some_iff]
    at hrow
  rcases hrow with rfl | ⟨push, hpush, rfl⟩
  · exact ⟨table, role, hr, f, hf, rfl⟩
  · exact ⟨.pushes, .repo, by simp [sourceRoles], push, (mem_anchor hpush).2.1, rfl⟩

variable [Collation]

/-- A read that stays within its limit has returned every row it selected. -/
theorem readRepositoryTable_ok {source : FactTable × RepositoryRole}
    {result out : List RepositoryIdentityEvidence} (hlim : result.length ≤ limit)
    (h : s.readRepositoryTable orgId through limit result source = .ok out) :
    out.length ≤ limit ∧ ∀ row, row ∈ out ↔ row ∈ result ∨
      ∃ f ∈ s.visible orgId through source.1, repositoryEvidence f source.2 = row := by
  obtain ⟨rfl, hl⟩ := append_within hlim h
  refine ⟨hl, fun row => ?_⟩
  rw [List.length_append, List.length_map, List.length_take] at hl
  rw [List.take_of_length_le (by omega), List.mem_append, List.mem_map]
  simp only [mem_orderBy]

theorem mem_readRepositoryIdentities {rows : List RepositoryIdentityEvidence}
    (h : s.readRepositoryIdentities orgId through limit = .ok rows) :
    rows.length ≤ repositoryIdentityLimit ∧ ∀ row, row ∈ rows ↔ Projected s orgId through row := by
  simp only [RepositoryStore.readRepositoryIdentities, bind_ok] at h
  obtain ⟨⟨⟩, hb, result, hres, hout⟩ := h
  have hlim := repositoryReadBounds_ok hb
  -- The tables are read one after another; the rows so far stay within the limit.
  obtain ⟨hl, hm⟩ := foldlM_induct (fun seen st => st.length ≤ limit ∧ ∀ row, row ∈ st ↔
      ∃ table role, (table, role) ∈ seen ∧ ∃ f ∈ s.visible orgId through table,
        repositoryEvidence f role = row) (by simp) (by
    rintro seen ⟨table, role⟩ st st' ⟨hl, hm⟩ hst
    obtain ⟨hl', hm'⟩ := readRepositoryTable_ok hl hst
    refine ⟨hl', fun row => ?_⟩
    rw [hm' row, hm row]
    simp only [List.mem_append, List.mem_singleton, Prod.mk.injEq, or_and_right, exists_or,
      and_assoc]
    simp) hres
  cases hout
  exact ⟨by rw [length_sortedBy]; omega, fun row => by rw [mem_sortedBy, hm row, Projected]⟩

theorem mem_readRepositoryRenames {rows : List RepositoryRename}
    (h : s.readRepositoryRenames orgId through limit = .ok rows) :
    rows.length ≤ repositoryIdentityLimit ∧
      ∀ row, row ∈ rows ↔ row ∈ s.visibleRenames orgId through := by
  simp only [RepositoryStore.readRepositoryRenames, bind_ok] at h
  obtain ⟨⟨⟩, hb, hrows⟩ := h
  have hlim := repositoryReadBounds_ok hb
  obtain ⟨rfl, hl⟩ := boundedRows_ok hrows
  exact ⟨by omega, fun row => mem_orderBy⟩

theorem witnessRows_sublist {sourceKeys : Finset SourceKey} {table : FactTable}
    {role : RepositoryRole} {rows : List StoredFact}
    (h : rows ∈ s.witnessRows orgId through sourceKeys table role) :
    rows.Sublist (orderBy (fun a b => Collation.le a.factId b.factId)
      (s.visible orgId through table)) := by
  simp only [RepositoryStore.witnessRows, List.mem_cons] at h
  rcases h with rfl | h
  · exact distinctOn_sublist _ _
  · split at h
    · rw [List.mem_singleton.mp h]
      exact List.filter_sublist
    · cases h

theorem witnessRows_visible {sourceKeys : Finset SourceKey} {table : FactTable}
    {role : RepositoryRole} {rows : List StoredFact}
    (h : rows ∈ s.witnessRows orgId through sourceKeys table role) :
    ∀ f ∈ rows, f ∈ s.visible orgId through table :=
  fun _ hf => mem_orderBy.mp ((witnessRows_sublist h).subset hf)

theorem witnessRows_nodup {sourceKeys : Finset SourceKey} {table : FactTable}
    {role : RepositoryRole} {rows : List StoredFact}
    (h : rows ∈ s.witnessRows orgId through sourceKeys table role) :
    (rows.map StoredFact.factId).Nodup := by
  refine List.Nodup.sublist ((witnessRows_sublist h).map _) ?_
  exact ((List.perm_insertionSort _ _).map _).nodup_iff.mpr (visible_ids_nodup table)

theorem mem_witnessItems {sourceKeys : Finset SourceKey} {row : RepositoryIdentityEvidence} :
    row ∈ s.witnessItems orgId through sourceKeys limit ↔
      ∃ table role, (table, role) ∈ sourceRoles ∧
        ∃ rows ∈ s.witnessRows orgId through sourceKeys table role,
          ∃ f ∈ rows.take (limit + 1), row ∈ s.retained orgId through role f := by
  simp only [RepositoryStore.witnessItems, List.mem_flatMap, Prod.exists]

/-- Within the limit no query of the witness read was cut short. -/
theorem witnessRows_take {sourceKeys : Finset SourceKey} {table : FactTable}
    {role : RepositoryRole} {rows : List StoredFact}
    {sources : Dict SourceKey RepositoryIdentityEvidence}
    (hs : (s.witnessItems orgId through sourceKeys limit).foldlM
      (RepositoryStore.retain limit) Dict.empty = .ok sources)
    (hr : (table, role) ∈ sourceRoles)
    (h : rows ∈ s.witnessRows orgId through sourceKeys table role) :
    rows.take (limit + 1) = rows := by
  obtain ⟨hl, hall, -⟩ := retain_ok hs
  apply List.take_of_length_le
  by_contra hover
  -- The rows read have distinct keys, and all of them were retained.
  have hsub : ((rows.take (limit + 1)).map (fun f => sourceKey (repositoryEvidence f role))) ⊆
      sources.keys := by
    intro k hk
    obtain ⟨f, hf, rfl⟩ := List.mem_map.mp hk
    obtain ⟨kept, -, -, hg⟩ := hall (repositoryEvidence f role)
      (mem_witnessItems.mpr ⟨table, role, hr, rows, h, f, hf, by
        simp [RepositoryStore.retained]⟩)
    exact (Dict.mem_keys_iff _).mpr ⟨kept, hg⟩
  have hnodup : ((rows.take (limit + 1)).map
      (fun f => sourceKey (repositoryEvidence f role))).Nodup := by
    have hids := (witnessRows_nodup h).sublist ((List.take_sublist (limit + 1) rows).map _)
    rw [List.Nodup, List.pairwise_map] at hids ⊢
    exact hids.imp (fun hne he => hne (congrArg SourceKey.factId he))
  have hlen := (hnodup.subperm hsub).length_le
  rw [List.length_map, List.length_take, Dict.keys, List.length_map] at hlen
  omega

theorem witnessItems_projected {sourceKeys : Finset SourceKey} {row : RepositoryIdentityEvidence}
    (h : row ∈ s.witnessItems orgId through sourceKeys limit) : Projected s orgId through row := by
  obtain ⟨table, role, hr, rows, hrows, f, hf, hrow⟩ := mem_witnessItems.mp h
  exact retained_projected hr (witnessRows_visible hrows f (List.mem_of_mem_take hf)) row hrow

/-- Every row the witness read returns, by the query that returned it. -/
theorem mem_readWitnesses [Interpreter] {sourceKeys : Finset SourceKey}
    {rows : List RepositoryIdentityEvidence} {names : List RepositoryRename}
    (ho : normalizeOrgId orgId = some orgId)
    (h : s.readRepositoryContextWitnesses orgId through sourceKeys limit = .ok (rows, names)) :
    rows.length ≤ repositoryIdentityLimit ∧ names.length ≤ repositoryIdentityLimit ∧
    (∀ key ∈ sourceKeys, RepositoryStore.validateSourceKey key ≠ none) ∧
    (∀ row, row ∈ rows ↔ ∃ table role, (table, role) ∈ sourceRoles ∧
      ∃ facts ∈ s.witnessRows orgId through sourceKeys table role,
        ∃ f ∈ facts, row ∈ s.retained orgId through role f) ∧
    ∀ n, n ∈ names ↔ n ∈ distinctOn RepositoryStore.renameState
      (orderBy (fun a b => Collation.le a.renameId b.renameId)
        (s.visibleRenames orgId through)) := by
  simp only [RepositoryStore.readRepositoryContextWitnesses, ho, Option.elim_some, bind_ok] at h
  obtain ⟨org, horg, ⟨⟩, hb, ⟨⟩, hkeys, sources, hs, renames, hr, hout⟩ := h
  cases horg
  have hlim := repositoryReadBounds_ok hb
  obtain ⟨hl, hall, honly⟩ := retain_ok hs
  obtain ⟨rfl, hlr⟩ := boundedRows_ok hr
  cases hout
  refine ⟨?_, ?_, checkSourceKeys_ok hkeys, fun row => ?_, fun n => mem_sortedBy⟩
  · rw [length_sortedBy, Dict.values, List.length_map]
    omega
  · rw [length_sortedBy]
    omega
  · have hitems : row ∈ s.witnessItems orgId through sourceKeys limit ↔
        ∃ table role, (table, role) ∈ sourceRoles ∧
          ∃ facts ∈ s.witnessRows orgId through sourceKeys table role,
            ∃ f ∈ facts, row ∈ s.retained orgId through role f := by
      rw [mem_witnessItems]
      constructor
      · rintro ⟨table, role, htr, facts, hf, rest⟩
        rw [witnessRows_take hs htr hf] at rest
        exact ⟨table, role, htr, facts, hf, rest⟩
      · rintro ⟨table, role, htr, facts, hf, rest⟩
        refine ⟨table, role, htr, facts, hf, ?_⟩
        rw [witnessRows_take hs htr hf]
        exact rest
    rw [← hitems, mem_sortedBy, Dict.values, List.mem_map]
    constructor
    · rintro ⟨⟨k, kept⟩, he, rfl⟩
      exact (honly k kept (sources.mem_entries_iff.mp he)).1
    · intro hi
      obtain ⟨kept, hk, hkk, hg⟩ := hall row hi
      rw [projected_unique (witnessItems_projected hi) (witnessItems_projected hk) hkk.symm]
      exact ⟨(sourceKey row, kept), sources.mem_entries_iff.mpr hg, rfl⟩

end

end Sediment.Proofs.StoreReads
