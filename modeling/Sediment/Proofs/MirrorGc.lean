import Sediment.Base.Results
import Sediment.Derive.MirrorGc
import Sediment.Proofs.CiPagination
import Sediment.Proofs.MirrorEnumeration

namespace Sediment.Proofs.MirrorGc
open Sediment.Base Sediment.Core Sediment.Derive Sediment.Proofs.MirrorPaths
open CiPagination

theorem behindPush_strict [Collation] (hlaw : Collation.Lawful) :
    StrictOrder RepositoryStore.capturedOrder
      (fun a b : StoredFact => behindPush (a.capturedAt.utc, a.factId) b)
      (fun a b => a.factId ≠ b.factId) where
  total a b := by
    simp only [RepositoryStore.capturedOrder, Bool.or_eq_true, decide_eq_true_eq,
      Bool.and_eq_true, beq_iff_eq]
    rcases lt_trichotomy a.capturedAt.utc b.capturedAt.utc with h | h | h
    · exact Or.inl (Or.inl h)
    · rcases hlaw.total a.factId b.factId with hle | hle
      · exact Or.inl (Or.inr ⟨h, hle⟩)
      · exact Or.inr (Or.inr ⟨h.symm, hle⟩)
    · exact Or.inr (Or.inl h)
  trans a b c := by
    simp only [RepositoryStore.capturedOrder, Bool.or_eq_true, decide_eq_true_eq,
      Bool.and_eq_true, beq_iff_eq]
    intro hab hbc
    rcases hab with hab | hab
    · exact Or.inl (by omega)
    · rcases hbc with hbc | hbc
      · exact Or.inl (by omega)
      · exact Or.inr ⟨by omega, hlaw.trans _ _ _ hab.2 hbc.2⟩
  asymm a b := by
    simp only [behindPush, Bool.or_eq_true, decide_eq_true_eq, Bool.and_eq_true, beq_iff_eq,
      Bool.not_eq_true', Bool.or_eq_false_iff, decide_eq_false_iff_not, Bool.and_eq_false_imp,
      Bool.not_eq_false']
    intro h
    rcases h with h | h
    · exact ⟨by omega, fun heq => by omega⟩
    · refine ⟨by omega, fun _ => ?_⟩
      rcases hlaw.total a.factId b.factId with hle | hle
      · exact hle
      · rw [h.2] at hle
        cases hle
  strict a b := by
    simp only [RepositoryStore.capturedOrder, behindPush, Bool.or_eq_true, decide_eq_true_eq,
      Bool.and_eq_true, beq_iff_eq, Bool.not_eq_true']
    intro h hne
    rcases h with h | h
    · exact Or.inl h
    · refine Or.inr ⟨h.1, ?_⟩
      by_contra hle
      rw [Bool.not_eq_false] at hle
      exact hne (hlaw.antisymm _ _ h.2 hle)
  symm a b h := h.symm

section
variable [Interpreter] {s : GCStore}

theorem visiblePushes_apart (s : GCStore) :
    (visiblePushes s).Pairwise (fun a b => a.factId ≠ b.factId) := by
  have htable : ∀ fact ∈ visiblePushes s, fact.table = .pushes :=
    fun fact hf => (of_decide_eq_true (List.mem_filter.mp hf).2).1
  have hkey := s.primaryKey.sublist (List.filter_sublist (l := s.facts) (p := fun fact =>
    fact.table = .pushes ∧ s.latestAction fact.orgId .pushes fact.factId ≠ some .quarantine))
  refine List.Pairwise.imp_of_mem ?_ hkey
  intro a b ha hb hab
  exact hab ((htable a ha).trans (htable b hb).symm)

/-- The pushes that one organization's read is about. -/
def ownPushes (s : GCStore) (orgId : String) : List StoredFact :=
  (visiblePushes s).filter (fun push => decide (push.orgId = orgId))

theorem ownPushes_apart (s : GCStore) (orgId : String) :
    (ownPushes s orgId).Pairwise (fun a b => a.factId ≠ b.factId) :=
  (visiblePushes_apart s).sublist List.filter_sublist

variable [Collation]

/-- A page takes the front of what is behind its cursor. -/
theorem pushGcPage_left (hlaw : Collation.Lawful) (orgId : String) (batchSize : Nat)
    {cursor : Option (Int × String)} {rest : List StoredFact}
    (h : Keyset.Left (orderBy RepositoryStore.capturedOrder (ownPushes s orgId))
      (fun push => (push.capturedAt.utc, push.factId)) cursor rest) :
    pushGcPage s orgId batchSize cursor = ⟨rest.take batchSize,
      (rest.take batchSize).getLast?.map (fun push => (push.capturedAt.utc, push.factId))⟩ := by
  have horder := behindPush_strict hlaw
  have hapart := ownPushes_apart s orgId
  have hrows : orderBy RepositoryStore.capturedOrder ((visiblePushes s).filter (fun push =>
      decide (push.orgId = orgId) && cursor.all (behindPush · push))) = rest := by
    have hsplit : (visiblePushes s).filter (fun push =>
        decide (push.orgId = orgId) && cursor.all (behindPush · push)) =
          (ownPushes s orgId).filter (fun push => cursor.all (behindPush · push)) := by
      rw [ownPushes, List.filter_filter]
      exact List.filter_congr (fun push _ => Bool.and_comm _ _)
    rw [hsplit, orderBy_filter_strict horder hapart]
    obtain ⟨rfl, rfl⟩ | ⟨front, last, hrows, rfl⟩ := h
    · simp
    · have hstrict := orderBy_strict horder hapart
      rw [hrows] at hstrict ⊢
      exact Keyset.filter_behind hstrict horder.asymm
  unfold pushGcPage
  dsimp only
  rw [hrows]

/-- Whatever the size of a page, every visible push is read once, in one order. -/
theorem iterPushGcRows_eq (hlaw : Collation.Lawful) (orgId : String) {batchSize : Nat}
    (hsize : 1 ≤ batchSize) : iterPushGcRows s orgId batchSize =
      .ok (orderBy RepositoryStore.capturedOrder (ownPushes s orgId)) := by
  have hserves := Keyset.serves_take (ε := GCError)
    (orderBy RepositoryStore.capturedOrder (ownPushes s orgId)) hsize
    (fun _ cursor rest hleft => congrArg Except.ok (pushGcPage_left hlaw orgId batchSize hleft))
  have hlen : (orderBy RepositoryStore.capturedOrder (ownPushes s orgId)).length <
      s.facts.length + 1 := by
    rw [orderBy, List.length_insertionSort, ownPushes, visiblePushes, List.filter_filter]
    exact Nat.lt_succ_of_le (List.length_filter_le _ _)
  have hwalk := Keyset.walk_complete hserves (s.facts.length + 1) 0 none _ (Or.inl ⟨rfl, rfl⟩) hlen
  unfold iterPushGcRows
  rw [if_neg (by omega), hwalk]
  rfl

end

section
variable [Interpreter] {orgId : String} {rows : List StoredFact}

/-- A push of the key. -/
def OfKey (orgId : String) (key : RepositoryKey) (push : StoredFact) : Prop :=
  pushRepositoryKey orgId push.repo = .ok (some key)

/-- The latest capture among the pushes of a key, if there is one. -/
def LatestOf (orgId : String) (rows : List StoredFact) (key : RepositoryKey) : Option Int → Prop
  | none => ∀ push ∈ rows, ¬OfKey orgId key push
  | some last => (∃ push ∈ rows, OfKey orgId key push ∧ push.capturedAt.utc = last) ∧
    ∀ push ∈ rows, OfKey orgId key push → push.capturedAt.utc ≤ last

theorem LatestOf.unique {key : RepositoryKey} {a b : Option Int} (ha : LatestOf orgId rows key a)
    (hb : LatestOf orgId rows key b) : a = b := by
  cases a with
  | none =>
    cases b with
    | none => rfl
    | some b =>
      obtain ⟨⟨push, hin, hkey, -⟩, -⟩ := hb
      exact absurd hkey (ha push hin)
  | some a =>
    obtain ⟨⟨push, hin, hkey, hlast⟩, hall⟩ := ha
    cases b with
    | none => exact absurd hkey (hb push hin)
    | some b =>
      obtain ⟨⟨push', hin', hkey', hlast'⟩, hall'⟩ := hb
      have hle := hall push' hin' hkey'
      have hge := hall' push hin hkey
      rw [show a = b by omega]

theorem LatestOf.perm {rows' : List StoredFact} {key : RepositoryKey} {a : Option Int}
    (hp : rows.Perm rows') (h : LatestOf orgId rows key a) : LatestOf orgId rows' key a := by
  cases a with
  | none => exact fun push hin => h push (hp.mem_iff.mpr hin)
  | some last =>
    obtain ⟨⟨push, hin, hkey⟩, hall⟩ := h
    exact ⟨⟨push, hp.mem_iff.mp hin, hkey⟩, fun push hin => hall push (hp.mem_iff.mpr hin)⟩

/-- One push more. -/
theorem LatestOf.push {seen : List StoredFact} {push : StoredFact} {key : RepositoryKey}
    {last : Option Int} (h : LatestOf orgId seen key last) (hkey : OfKey orgId key push) :
    LatestOf orgId (seen ++ [push]) key (some (latestOf push.capturedAt.utc last)) := by
  cases last with
  | none =>
    refine ⟨⟨push, by simp, hkey, rfl⟩, ?_⟩
    intro other hin hother
    rw [List.mem_append, List.mem_singleton] at hin
    obtain hin | rfl := hin
    · exact absurd hother (h other hin)
    · exact le_rfl
  | some last =>
    obtain ⟨⟨first, hfirst, hown, hlast⟩, hall⟩ := h
    unfold latestOf
    dsimp only
    split
    · rename_i hlater
      refine ⟨⟨push, by simp, hkey, rfl⟩, ?_⟩
      intro other hin hother
      rw [List.mem_append, List.mem_singleton] at hin
      obtain hin | rfl := hin
      · have hle := hall other hin hother
        omega
      · exact le_rfl
    · rename_i hlater
      refine ⟨⟨first, by simp [hfirst], hown, hlast⟩, ?_⟩
      intro other hin hother
      rw [List.mem_append, List.mem_singleton] at hin
      obtain hin | rfl := hin
      · exact hall other hin hother
      · omega

/-- A push of another namespace, or of none. -/
theorem LatestOf.other {seen : List StoredFact} {push : StoredFact} {key : RepositoryKey}
    {last : Option Int} (h : LatestOf orgId seen key last) (hkey : ¬OfKey orgId key push) :
    LatestOf orgId (seen ++ [push]) key last := by
  cases last with
  | none =>
    intro other hin
    rw [List.mem_append, List.mem_singleton] at hin
    obtain hin | rfl := hin
    · exact h other hin
    · exact hkey
  | some last =>
    obtain ⟨⟨first, hfirst, hown⟩, hall⟩ := h
    refine ⟨⟨first, by simp [hfirst], hown⟩, ?_⟩
    intro other hin hother
    rw [List.mem_append, List.mem_singleton] at hin
    obtain hin | rfl := hin
    · exact hall other hin hother
    · exact absurd hother hkey

def Refused (orgId : String) (push : StoredFact) : Prop :=
  ∀ key, pushRepositoryKey orgId push.repo ≠ .ok key

theorem pushRepositoryKey_error {columns : RepositoryColumns} {e : GCError}
    (h : pushRepositoryKey orgId columns = .error e) : e = .invalidPush := by
  unfold pushRepositoryKey at h
  split at h
  · split at h
    · cases h
    · split at h
      · cases h
      · cases h
        rfl
  · split at h
    · cases h
    · cases h
      rfl
  · cases h
    rfl

/-- The fold keeps the latest push of every key, or stops at a push with no valid namespace. -/
theorem lastPushByRepo_cases (orgId : String) (rows : List StoredFact) :
    (lastPushByRepo orgId rows = .error .invalidPush ∧ ∃ push ∈ rows, Refused orgId push) ∨
      ∃ latest, lastPushByRepo orgId rows = .ok latest ∧
        (∀ push ∈ rows, ¬Refused orgId push) ∧
        ∀ key, LatestOf orgId rows key (latest.get? key) := by
  have hcases := @foldlM_cases _ _ _ (addPush orgId)
    (fun seen (latest : Dict RepositoryKey Int) => (∀ push ∈ seen, ¬Refused orgId push) ∧
      ∀ key, LatestOf orgId seen key (latest.get? key))
    (fun e => e = .invalidPush ∧ ∃ push ∈ rows, Refused orgId push) Dict.empty rows
    ⟨fun push hin => absurd hin List.not_mem_nil,
      fun key push hin => absurd hin List.not_mem_nil⟩ (by
      intro seen push rest latest hrows hm
      obtain ⟨hvalid, hlatest⟩ := hm
      unfold addPush
      cases hkey : pushRepositoryKey orgId push.repo with
      | error e =>
        refine Or.inl ⟨e, ⟨pushRepositoryKey_error hkey, push, ?_, ?_⟩, rfl⟩
        · rw [← hrows]
          simp
        · intro key hok
          rw [hkey] at hok
          cases hok
      | ok found =>
        right
        have hvalid' : ∀ other ∈ seen ++ [push], ¬Refused orgId other := by
          intro other hin
          rw [List.mem_append, List.mem_singleton] at hin
          obtain hin | rfl := hin
          · exact hvalid other hin
          · exact fun h => h found hkey
        cases found with
        | none =>
          refine ⟨latest, rfl, hvalid', fun key => (hlatest key).other ?_⟩
          intro hof
          rw [OfKey, hkey] at hof
          cases hof
        | some own =>
          refine ⟨latest.alter own (latestOf push.capturedAt.utc), rfl, hvalid', fun key => ?_⟩
          rw [Dict.get?_alter]
          by_cases hown : key = own
          · rw [if_pos hown, hown]
            exact (hlatest own).push hkey
          · rw [if_neg hown]
            apply (hlatest key).other
            intro hof
            rw [OfKey, hkey] at hof
            cases hof
            exact hown rfl)
  obtain ⟨e, ⟨rfl, hbad⟩, herr⟩ | ⟨latest, hok, hvalid, hlatest⟩ := hcases
  · exact Or.inl ⟨herr, hbad⟩
  · exact Or.inr ⟨latest, hok, hvalid, hlatest⟩

/-- In another order the pushes give every key the same latest push, or fail alike. -/
theorem lastPushByRepo_perm {rows' : List StoredFact} (hp : rows.Perm rows') :
    (lastPushByRepo orgId rows = .error .invalidPush ∧
      lastPushByRepo orgId rows' = .error .invalidPush) ∨
    ∃ latest latest', lastPushByRepo orgId rows = .ok latest ∧
      lastPushByRepo orgId rows' = .ok latest' ∧ ∀ key, latest'.get? key = latest.get? key := by
  obtain ⟨herr, push, hin, hbad⟩ | ⟨latest, hok, hvalid, hlatest⟩ :=
    lastPushByRepo_cases orgId rows
  · obtain ⟨herr', -⟩ | ⟨-, -, hvalid', -⟩ := lastPushByRepo_cases orgId rows'
    · exact Or.inl ⟨herr, herr'⟩
    · exact absurd hbad (hvalid' push (hp.mem_iff.mp hin))
  · obtain ⟨-, push, hin, hbad⟩ | ⟨latest', hok', -, hlatest'⟩ := lastPushByRepo_cases orgId rows'
    · exact absurd hbad (hvalid push (hp.mem_iff.mpr hin))
    · exact Or.inr ⟨latest, latest', hok, hok',
        fun key => (hlatest' key).unique ((hlatest key).perm hp)⟩

end

section
variable {base : Path} {faults : Faults} {dryRun : Bool} {cutoff : Int} {tree : Tree}

theorem removeRepository_sublist (base : Path) (faults : Faults) (tree : Tree)
    (key : RepositoryKey) : (removeRepository base faults tree key).2.Sublist tree ∧
      ∀ p ∈ tree, ¬repositoryPath base key <+: p →
        p ∈ (removeRepository base faults tree key).2 := by
  unfold removeRepository
  dsimp only
  split
  · rename_i gone _
    refine ⟨List.filter_sublist, ?_⟩
    intro p hp hout
    rw [List.mem_filter]
    refine ⟨hp, ?_⟩
    have hnot : (repositoryPath base key).isPrefixOf p = false := by
      rw [← Bool.not_eq_true, List.isPrefixOf_iff_prefix]
      exact hout
    simp [hnot]
  · split
    · exact ⟨List.Sublist.refl _, fun p hp _ => hp⟩
    · refine ⟨List.filter_sublist, ?_⟩
      intro p hp hout
      rw [List.mem_filter]
      refine ⟨hp, ?_⟩
      have hnot : (repositoryPath base key).isPrefixOf p = false := by
        rw [← Bool.not_eq_true, List.isPrefixOf_iff_prefix]
        exact hout
      simp [hnot]

/-- What one verdict does: a mirror is removed, and paths are lost, only behind the cutoff. -/
theorem gcMirror_cases (base : Path) (faults : Faults) (dryRun : Bool) (cutoff : Int) (tree : Tree)
    (last : Option Int) (key : RepositoryKey) :
    let verdict := gcMirror base faults dryRun cutoff last tree key
    (verdict.1.1 = .removed → ∃ t, last = some t ∧ t < cutoff) ∧ verdict.2.Sublist tree ∧
      ∀ p ∈ tree, p ∉ verdict.2 → dryRun = false ∧ repositoryPath base key <+: p ∧
        ∃ t, last = some t ∧ t < cutoff := by
  have hsub := removeRepository_sublist base faults tree key
  unfold gcMirror
  cases last with
  | none => exact ⟨nofun, List.Sublist.refl _, fun p hp hout => absurd hp hout⟩
  | some t =>
    by_cases hlive : t ≥ cutoff
    · simp only [if_pos hlive]
      exact ⟨nofun, List.Sublist.refl _, fun p hp hout => absurd hp hout⟩
    · have hstale : ∃ t', some t = some t' ∧ t' < cutoff := ⟨t, rfl, by omega⟩
      simp only [if_neg hlive]
      cases dryRun with
      | true => exact ⟨fun _ => hstale, List.Sublist.refl _, fun p hp hout => absurd hp hout⟩
      | false =>
        have hlost : ∀ p ∈ tree, p ∉ (removeRepository base faults tree key).2 →
            repositoryPath base key <+: p := by
          intro p hp hout
          by_contra hnot
          exact hout (hsub.2 p hp hnot)
        simp only [Bool.false_eq_true, if_false]
        generalize removeRepository base faults tree key = result at hlost hsub ⊢
        obtain ⟨removal, rest⟩ := result
        cases removal with
        | done => exact ⟨fun _ => hstale, hsub.1, fun p hp hout => ⟨trivial, hlost p hp hout, hstale⟩⟩
        | absent => exact ⟨nofun, hsub.1, fun p hp hout => ⟨trivial, hlost p hp hout, hstale⟩⟩
        | failed => exact ⟨nofun, hsub.1, fun p hp hout => ⟨trivial, hlost p hp hout, hstale⟩⟩

variable [Interpreter] [PercentCoding.Replacement] {orgId : String}
  {context : RepositoryContext} {latest : Dict RepositoryKey Int}

/-- A key whose latest push lies before the cutoff. -/
def Expired (latest : Dict RepositoryKey Int) (cutoff : Int) (key : RepositoryKey) : Prop :=
  ∃ last, latest.get? key = some last ∧ last < cutoff

omit [Interpreter] [PercentCoding.Replacement] in
theorem gcListed_cases (base : Path) (faults : Faults) (dryRun : Bool) (orgId : String)
    (cutoff : Int) (context : RepositoryContext) (latest : Dict RepositoryKey Int)
    (keys : List RepositoryKey) (tree : Tree) :
    let verdicts := gcListed base faults dryRun orgId cutoff context latest tree keys
    List.Forall₂ (fun key result => result.action = .removed → Expired latest cutoff key) keys
        verdicts.1 ∧
      verdicts.2.Sublist tree ∧
      ∀ p ∈ tree, p ∉ verdicts.2 → dryRun = false ∧
        ∃ key ∈ keys, Expired latest cutoff key ∧ repositoryPath base key <+: p := by
  induction keys generalizing tree with
  | nil => exact ⟨.nil, List.Sublist.refl _, fun p hp hout => absurd hp hout⟩
  | cons key keys ih =>
    obtain ⟨hremoved, hsub, hlost⟩ := gcMirror_cases base faults dryRun cutoff tree (latest.get? key) key
    obtain ⟨hall, hsub', hlost'⟩ :=
      ih (gcMirror base faults dryRun cutoff (latest.get? key) tree key).2
    refine ⟨.cons hremoved hall, hsub'.trans hsub, ?_⟩
    intro p hp hout
    by_cases hfirst : p ∈ (gcMirror base faults dryRun cutoff (latest.get? key) tree key).2
    · obtain ⟨hdry, other, hin, hexpired⟩ := hlost' p hfirst hout
      exact ⟨hdry, other, List.mem_cons_of_mem key hin, hexpired⟩
    · obtain ⟨hdry, hpath, hexpired⟩ := hlost p hp hfirst
      exact ⟨hdry, key, List.mem_cons_self, hexpired, hpath⟩

omit [Interpreter] [PercentCoding.Replacement] in
/-- The verdicts ask the latest pushes for the listed keys only. -/
theorem gcListed_congr {latest' : Dict RepositoryKey Int}
    (h : ∀ key, latest'.get? key = latest.get? key) (keys : List RepositoryKey) (tree : Tree) :
    gcListed base faults dryRun orgId cutoff context latest' tree keys =
      gcListed base faults dryRun orgId cutoff context latest tree keys := by
  induction keys generalizing tree with
  | nil => rfl
  | cons key keys ih => simp only [gcListed, h, ih]

theorem gcOver_perm {rows rows' : List StoredFact} (hp : rows.Perm rows') :
    gcOver base faults dryRun orgId cutoff context rows' tree =
      gcOver base faults dryRun orgId cutoff context rows tree := by
  unfold gcOver
  obtain ⟨herr, herr'⟩ | ⟨latest, latest', hok, hok', hsame⟩ := lastPushByRepo_perm hp
  · rw [herr, herr']
  · rw [hok, hok', ok_bind, ok_bind]
    simp only [gcListed_congr hsame]

end

section
variable [Interpreter]

theorem pushRepositoryKey_key {orgId : String} {columns : RepositoryColumns} {key : RepositoryKey}
    (h : pushRepositoryKey orgId columns = .ok (some key)) :
    normalizeOrgId orgId = some key.orgId ∧ Shaped key := by
  unfold pushRepositoryKey at h
  split at h
  · split at h
    · cases h
    · split at h
      · rename_i own hown
        cases h
        obtain ⟨o, r, ho, -, rfl⟩ := legacyRepositoryKey_eq_some hown
        exact ⟨ho, .legacy (normalizeOrgId_shape ho).2⟩
      · cases h
  · split at h
    · rename_i own hown
      cases h
      obtain ⟨o, p, f, r, ho, -, hf, hr, rfl⟩ := identifiedRepositoryKey_eq_some hown
      exact ⟨ho, .identified (normalizeOrgId_shape ho).1 (forgeHost_shape hf)
        (providerRepositoryId_shape hr)⟩
    · cases h
  · cases h

/-- A key with visible pushes, all of them before the cutoff. -/
def Stale (s : GCStore) (cutoff : Int) (key : RepositoryKey) : Prop :=
  (∃ push ∈ visiblePushes s, OfKey push.orgId key push) ∧
  ∀ push ∈ visiblePushes s, OfKey push.orgId key push → push.capturedAt.utc < cutoff

/-- What one organization's read finds expired is stale in the whole store. -/
theorem stale_of_latest {s : GCStore} {orgId : String} {cutoff last : Int} {key : RepositoryKey}
    (h : LatestOf orgId (ownPushes s orgId) key (some last)) (hlast : last < cutoff) :
    Stale s cutoff key ∧ Shaped key := by
  have hown : ∀ push, push ∈ ownPushes s orgId ↔ push ∈ visiblePushes s ∧ push.orgId = orgId := by
    intro push
    rw [ownPushes, List.mem_filter, decide_eq_true_iff]
  have horg : ∀ push ∈ visiblePushes s, normalizeOrgId push.orgId = some push.orgId := by
    intro push hin
    obtain ⟨hfact, hvisible⟩ := List.mem_filter.mp hin
    exact s.organizations push hfact (of_decide_eq_true hvisible).1
  obtain ⟨⟨push, hin, hkey, -⟩, hall⟩ := h
  obtain ⟨hvisible, rfl⟩ := (hown push).mp hin
  obtain ⟨hnormal, hshaped⟩ := pushRepositoryKey_key hkey
  refine ⟨⟨⟨push, hvisible, hkey⟩, ?_⟩, hshaped⟩
  intro other hother hof
  have horg' : other.orgId = push.orgId := by
    have hsame := (pushRepositoryKey_key hof).1
    rw [horg other hother] at hsame
    rw [horg push hvisible] at hnormal
    exact (Option.some.inj hsame).trans (Option.some.inj hnormal).symm
  rw [horg'] at hof
  have hle := hall other ((hown other).mpr ⟨hother, horg'⟩) hof
  omega

variable [PercentCoding.Replacement] [Collation]

/-- Every visible push is read once whatever the pages, the verdicts depend on neither pages nor
order, and only the mirrors of stale repositories are reported or touched. -/
theorem gc_removes_only_stale (hlaw : Collation.Lawful) (s : GCStore) (base : Path)
    (faults : Faults) (orgId : String) (policy : MirrorGCPolicy) (now : AwareDatetime)
    (dryRun : Bool) (tree : Tree) :
    (∀ batchSize, 1 ≤ batchSize →
      (∃ rows, iterPushGcRows s orgId batchSize = .ok rows ∧ rows.Nodup ∧
        ∀ push, push ∈ rows ↔ push ∈ visiblePushes s ∧ push.orgId = orgId) ∧
      gcMirrorsBy batchSize s base faults orgId policy now dryRun tree =
        gcMirrors s base faults orgId policy now dryRun tree) ∧
    (∀ cutoff context rows rows', rows.Perm rows' →
      gcOver base faults dryRun orgId cutoff context rows' tree =
        gcOver base faults dryRun orgId cutoff context rows tree) ∧
    ∀ results tree', gcMirrors s base faults orgId policy now dryRun tree = .ok (results, tree') →
      ∃ cutoff keys, policy.cutoff now = .ok cutoff ∧
        listMirroredRepositories base tree orgId = some keys ∧
        List.Forall₂ (fun key result => result.action = .removed → Stale s cutoff key) keys
          results ∧
        (∀ p ∈ tree, p ∉ tree' → dryRun = false ∧
          ∃ key ∈ keys, Stale s cutoff key ∧ repositoryPath base key <+: p) ∧
        ∀ key, ValidKey key → ¬Stale s cutoff key →
          ∀ p, repositoryPath base key <+: p → (p ∈ tree' ↔ p ∈ tree) := by
  have hperm := List.perm_insertionSort
    (fun a b => RepositoryStore.capturedOrder a b = true) (ownPushes s orgId)
  refine ⟨?_, fun cutoff context rows rows' hp => gcOver_perm hp, ?_⟩
  · intro batchSize hsize
    have hread := iterPushGcRows_eq (s := s) hlaw orgId hsize
    have hread' := iterPushGcRows_eq (s := s) hlaw orgId (by decide : 1 ≤ gcBatchSize)
    refine ⟨⟨_, hread, ?_, ?_⟩, ?_⟩
    · have hnodup : (ownPushes s orgId).Nodup :=
        (ownPushes_apart s orgId).imp (fun hne heq => hne (congrArg StoredFact.factId heq))
      exact hperm.nodup_iff.mpr hnodup
    · intro push
      rw [mem_orderBy, ownPushes, List.mem_filter, decide_eq_true_iff]
    · unfold gcMirrors gcMirrorsBy
      rw [hread, hread']
  · intro results tree' hrun
    unfold gcMirrors gcMirrorsBy at hrun
    obtain ⟨cutoff, hcutoff, hrun⟩ := bind_ok.mp hrun
    obtain ⟨context, -, hrun⟩ := bind_ok.mp hrun
    rw [iterPushGcRows_eq hlaw orgId (by decide : 1 ≤ gcBatchSize), ok_bind] at hrun
    unfold gcOver at hrun
    obtain ⟨latest, hlatest, hrun⟩ := bind_ok.mp hrun
    obtain ⟨herr, -⟩ | ⟨latest', hok, -, hspec⟩ := lastPushByRepo_cases orgId
      (orderBy RepositoryStore.capturedOrder (ownPushes s orgId))
    · rw [herr] at hlatest
      cases hlatest
    obtain rfl : latest' = latest := by
      rw [hok] at hlatest
      exact Except.ok.inj hlatest
    have hstale : ∀ key, Expired latest' cutoff key → Stale s cutoff key ∧ Shaped key := by
      intro key hexpired
      obtain ⟨last, hget, hlast⟩ := hexpired
      have hown := (hspec key).perm hperm
      rw [hget] at hown
      exact stale_of_latest hown hlast
    cases hkeys : listMirroredRepositories base tree orgId with
    | none =>
      rw [hkeys] at hrun
      cases hrun
    | some keys =>
      rw [hkeys] at hrun
      have hlisted := Except.ok.inj hrun
      obtain ⟨hremoved, hsub, hlost⟩ := gcListed_cases base faults dryRun orgId cutoff
        context latest' keys tree
      rw [hlisted] at hremoved hsub hlost
      refine ⟨cutoff, keys, hcutoff, rfl, ?_, ?_, ?_⟩
      · refine hremoved.imp ?_
        intro key result himp haction
        exact (hstale key (himp haction)).1
      · intro p hp hout
        obtain ⟨hdry, key, hin, hexpired, hpath⟩ := hlost p hp hout
        exact ⟨hdry, key, hin, (hstale key hexpired).1, hpath⟩
      · intro key hvalid hlive p hpath
        refine ⟨fun hin => hsub.subset hin, fun hin => ?_⟩
        by_contra hout
        obtain ⟨-, other, -, hexpired, hother⟩ := hlost p hin hout
        obtain ⟨hdead, hshaped⟩ := hstale other hexpired
        rw [repositoryPath_eq base hshaped] at hother
        rw [repositoryPath_eq base (validKey_shaped hvalid)] at hpath
        -- both mirrors lie on the way to one path
        have hsame : key = other := by
          obtain hbelow | hbelow := List.prefix_or_prefix_of_prefix hpath hother
          · exact keyParts_initial (validKey_shaped hvalid) hshaped
              ((List.prefix_append_right_inj base).mp hbelow)
          · exact (keyParts_initial hshaped (validKey_shaped hvalid)
              ((List.prefix_append_right_inj base).mp hbelow)).symm
        rw [hsame] at hlive
        exact hlive hdead

end

def oldPush : StoredFact where
  table := .pushes
  factId := "push-1"
  orgId := "acme"
  repo := ⟨"acme/app", none, none, none⟩
  headRepo := ⟨"", none, none, none⟩
  capturedAt := ⟨0, "1970-01-01T00:00:00+00:00", "UTC", 0⟩
  sourcePushId := none

theorem oldPush_organization : ∀ fact ∈ [oldPush], fact.table = .pushes →
    @normalizeOrgId MirrorEnumeration.asciiLower fact.orgId = some fact.orgId := by
  intro fact hin _
  rw [List.mem_singleton.mp hin]
  decide

theorem no_renames :
    ([] : List RepositoryRename).Pairwise (fun a b => a.renameId ≠ b.renameId) := .nil

def oldStore : @GCStore MirrorEnumeration.asciiLower :=
  @GCStore.mk MirrorEnumeration.asciiLower
    ⟨[oldPush], [], [], List.pairwise_singleton _ _, no_renames, nofun⟩ oldPush_organization

def laterNow : AwareDatetime := ⟨91 * 86400000000, "1970-04-02T00:00:00+00:00", "UTC", 0⟩

/-- A run of the collector over two mirrors, one of them of a repository last pushed to long ago. -/
def oldRun : Except GCError (List MirrorGCResult × Tree) :=
  @gcMirrors MirrorEnumeration.asciiLower MirrorEnumeration.replaced byteCollation
    oldStore MirrorEnumeration.srv (fun _ => none) "acme" defaultGCPolicy laterNow false
    MirrorEnumeration.mirrored

def leaves (tree : Tree) (run : Except GCError (List MirrorGCResult × Tree)) : Bool :=
  match run with
  | .ok run => run.2 == tree
  | .error _ => false

theorem oldRun_leaves : leaves (MirrorEnumeration.mirrored.drop 2) oldRun = true := by
  decide +kernel

/-- Its mirror goes, and the other one stays. -/
theorem old_mirror_removed :
    ∃ results cutoff keys, oldRun = .ok (results, MirrorEnumeration.mirrored.drop 2) ∧
      List.Forall₂ (fun key result => result.action = .removed →
        @Stale MirrorEnumeration.asciiLower oldStore cutoff key) keys results ∧
      ∀ p ∈ MirrorEnumeration.mirrored, p ∉ MirrorEnumeration.mirrored.drop 2 →
        ∃ key ∈ keys, @Stale MirrorEnumeration.asciiLower oldStore cutoff key ∧
          repositoryPath MirrorEnumeration.srv key <+: p := by
  have htree := oldRun_leaves
  cases hrun : oldRun with
  | error e =>
    rw [hrun] at htree
    cases htree
  | ok run =>
    obtain ⟨results, tree'⟩ := run
    rw [hrun] at htree
    obtain rfl : tree' = MirrorEnumeration.mirrored.drop 2 := eq_of_beq htree
    let := MirrorEnumeration.asciiLower
    let := MirrorEnumeration.replaced
    let := byteCollation
    obtain ⟨-, -, hall⟩ := gc_removes_only_stale byteCollation_lawful oldStore
      MirrorEnumeration.srv (fun _ => none) "acme" defaultGCPolicy laterNow false
      MirrorEnumeration.mirrored
    obtain ⟨cutoff, keys, -, -, hremoved, hlost, -⟩ := hall results _ hrun
    refine ⟨results, cutoff, keys, rfl, hremoved, ?_⟩
    intro p hin hout
    exact (hlost p hin hout).2

end Sediment.Proofs.MirrorGc
