import Sediment.Derive.Mirror

namespace Sediment.Proofs.MirrorPaths
open Sediment.Base Sediment.Core Sediment.Derive
open PercentCoding (quote unquote Replacement quote_injective unquote_quote slash_not_mem_quote
  percent_mem_quote)

/-- A text that a path keeps as one component, and that does not lead upwards. -/
structure Leaf (s : String) : Prop where
  nonempty : s ≠ ""
  notHere : s ≠ "."
  notUp : s ≠ ".."

theorem leaf_of_head {c : Char} {rest : List Char} {s : String} (hs : s.toList = c :: rest)
    (hc : c ≠ '.') : Leaf s := by
  constructor
  · intro he
    simp [he] at hs
  · intro he
    simp [he] at hs
    exact hc hs.1.symm
  · intro he
    simp [he] at hs
    exact hc hs.1.symm

theorem quote_empty : quote "" = "" := by decide

theorem quote_dot : quote "." = "." := by decide

theorem quote_dots : quote ".." = ".." := by decide

theorem quote_leaf {s : String} (h : Leaf s) : Leaf (quote s) := by
  constructor
  · intro he
    exact h.nonempty (quote_injective (he.trans quote_empty.symm))
  · intro he
    exact h.notHere (quote_injective (he.trans quote_dot.symm))
  · intro he
    exact h.notUp (quote_injective (he.trans quote_dots.symm))

theorem pathParts_leaf {s : String} (h : Leaf s) (hs : '/' ∉ s.toList) : pathParts s = [s] := by
  have hne : s.toList ≠ [] := fun he => h.nonempty (String.toList_inj.mp he)
  have hdot : s.toList ≠ ['.'] := fun he => h.notHere (String.toList_inj.mp he)
  rw [pathParts, List.splitOn_eq_singleton hs, List.filter_singleton]
  simp [hne, hdot]

theorem joinPath_leaf (path : Path) {s : String} (h : Leaf s) (hs : '/' ∉ s.toList) :
    joinPath path s = path ++ [s] := by
  have hhead : s.toList.head? ≠ some '/' := fun he => hs (List.mem_of_mem_head? he)
  rw [joinPath, if_neg hhead, pathParts_leaf h hs]

theorem joinPath_quote (path : Path) {s : String} (h : Leaf s) :
    joinPath path (quote s) = path ++ [quote s] :=
  joinPath_leaf path (quote_leaf h) (slash_not_mem_quote s)

/-- What the validators of a key leave open to its path. -/
inductive Shaped : RepositoryKey → Prop
  | legacy {orgId repo : String} (ho : '/' ∉ orgId.toList) : Shaped (.legacy orgId repo)
  | identified {orgId : String} {identity : RepositoryIdentity} (ho : Leaf orgId)
      (hh : Leaf identity.host) (hr : Leaf identity.repositoryId) :
      Shaped (.identified orgId identity)

def legacyName (orgId repo : String) : String := orgId ++ "/" ++ repo

theorem slash_mem_legacyName (orgId repo : String) : '/' ∈ (legacyName orgId repo).toList := by
  simp [legacyName]

theorem leaf_legacyName (orgId repo : String) : Leaf (legacyName orgId repo) := by
  have h := slash_mem_legacyName orgId repo
  constructor
  · intro he
    rw [he] at h
    simp at h
  · intro he
    rw [he] at h
    simp at h
  · intro he
    rw [he] at h
    simp at h

theorem leaf_provider (provider : ForgeProvider) : Leaf provider.value := by
  cases provider
  exact ⟨by decide, by decide, by decide⟩

/-- The components of a mirror below the base. -/
def keyParts : RepositoryKey → Path
  | .legacy orgId repo => [quote (legacyName orgId repo)]
  | .identified orgId identity =>
    [identifiedMirrorNamespace, quote orgId, quote identity.provider.value, quote identity.host,
      quote identity.repositoryId]

theorem joinPath_namespace (base : Path) :
    joinPath base identifiedMirrorNamespace = base ++ [identifiedMirrorNamespace] :=
  joinPath_leaf base ⟨by decide, by decide, by decide⟩ (by simp [identifiedMirrorNamespace])

theorem mirrorPath_eq (base : Path) (orgId repo : String) :
    mirrorPath base orgId repo = base ++ keyParts (.legacy orgId repo) :=
  joinPath_quote base (leaf_legacyName orgId repo)

theorem repositoryPath_eq (base : Path) {key : RepositoryKey} (h : Shaped key) :
    repositoryPath base key = base ++ keyParts key := by
  cases h with
  | legacy ho => exact mirrorPath_eq base _ _
  | @identified orgId identity ho hh hr =>
    simp only [repositoryPath, List.foldl_cons, List.foldl_nil]
    rw [joinPath_namespace, joinPath_quote _ ho, joinPath_quote _ (leaf_provider _),
      joinPath_quote _ hh, joinPath_quote _ hr]
    simp [keyParts]

theorem locksPath_eq (base : Path) : locksPath base = base ++ [".locks"] :=
  joinPath_leaf base ⟨by decide, by decide, by decide⟩ (by simp)

theorem observationLocksPath_eq (base : Path) :
    observationLocksPath base = base ++ [".observation-locks"] :=
  joinPath_leaf base ⟨by decide, by decide, by decide⟩ (by simp)

theorem keyParts_ne_nil (key : RepositoryKey) : keyParts key ≠ [] := by
  cases key with
  | legacy => exact List.cons_ne_nil _ _
  | identified => exact List.cons_ne_nil _ _

theorem keyParts_leaf {key : RepositoryKey} (h : Shaped key) :
    ∀ part ∈ keyParts key, Leaf part ∧ '/' ∉ part.toList := by
  intro part hp
  cases h with
  | legacy ho =>
    rw [keyParts, List.mem_singleton] at hp
    subst hp
    exact ⟨quote_leaf (leaf_legacyName _ _), slash_not_mem_quote _⟩
  | identified ho hh hr =>
    simp only [keyParts, List.mem_cons, List.not_mem_nil, or_false] at hp
    rcases hp with rfl | rfl | rfl | rfl | rfl
    · exact ⟨⟨by decide, by decide, by decide⟩, by simp [identifiedMirrorNamespace]⟩
    · exact ⟨quote_leaf ho, slash_not_mem_quote _⟩
    · exact ⟨quote_leaf (leaf_provider _), slash_not_mem_quote _⟩
    · exact ⟨quote_leaf hh, slash_not_mem_quote _⟩
    · exact ⟨quote_leaf hr, slash_not_mem_quote _⟩

/-- A legacy name ends its organization at its first separator. -/
theorem legacyName_inj {orgId orgId' repo repo' : String} (h : '/' ∉ orgId.toList)
    (h' : '/' ∉ orgId'.toList) (he : legacyName orgId repo = legacyName orgId' repo') :
    orgId = orgId' ∧ repo = repo' := by
  have hl := congrArg String.toList he
  simp only [legacyName, String.toList_append] at hl
  have hbefore : ∀ {o r : String}, '/' ∉ o.toList →
      (o.toList ++ "/".toList ++ r.toList).takeWhile (· != '/') = o.toList := by
    intro o r ho
    rw [List.append_assoc, List.takeWhile_append_of_pos]
    · simp
    · intro c hc
      exact bne_iff_ne.mpr (fun he => ho (he ▸ hc))
  have ho := congrArg (List.takeWhile (· != '/')) hl
  rw [hbefore h, hbefore h'] at ho
  rw [ho] at hl
  exact ⟨String.toList_inj.mp ho, String.toList_inj.mp (List.append_cancel_left hl)⟩

theorem legacy_head (orgId repo : String) : '%' ∈ (quote (legacyName orgId repo)).toList :=
  percent_mem_quote (slash_mem_legacyName orgId repo)

/-- One mirror inside another is that mirror. -/
theorem keyParts_initial {key key' : RepositoryKey} (h : Shaped key) (h' : Shaped key')
    (hp : keyParts key <+: keyParts key') : key = key' := by
  cases h with
  | @legacy orgId repo ho =>
    cases h' with
    | @legacy orgId' repo' ho' =>
      have hq := hp.eq_of_length rfl
      simp only [keyParts, List.cons.injEq, and_true] at hq
      obtain ⟨rfl, rfl⟩ := legacyName_inj ho ho' (quote_injective hq)
      rfl
    | @identified orgId' identity' ho' hh' hr' =>
      simp only [keyParts, List.cons_prefix_cons] at hp
      have hm := legacy_head orgId repo
      rw [hp.1] at hm
      simp [identifiedMirrorNamespace] at hm
  | @identified orgId identity ho hh hr =>
    cases h' with
    | @legacy orgId' repo' ho' =>
      simp only [keyParts, List.cons_prefix_cons] at hp
      have hm := legacy_head orgId' repo'
      rw [← hp.1] at hm
      simp [identifiedMirrorNamespace] at hm
    | @identified orgId' identity' ho' hh' hr' =>
      have hq := hp.eq_of_length rfl
      simp only [keyParts, List.cons.injEq, and_true, true_and] at hq
      obtain ⟨hO, hH, hR⟩ := hq
      obtain ⟨provider, host, repositoryId⟩ := identity
      obtain ⟨provider', host', repositoryId'⟩ := identity'
      cases provider
      cases provider'
      rw [quote_injective hO]
      rw [show host = host' from quote_injective hH,
        show repositoryId = repositoryId' from quote_injective hR]

/-- Neither path lies in the other, and they differ. -/
def Apart (p q : Path) : Prop := ¬ p <+: q ∧ ¬ q <+: p

theorem keyParts_apart_dir {key : RepositoryKey} {name : String}
    (hn : name ≠ identifiedMirrorNamespace)
    (hc : '%' ∉ name.toList) : Apart (keyParts key) [name] := by
  have hhead : (keyParts key).head? ≠ some name := by
    intro he
    cases key with
    | legacy orgId repo =>
      have hm := legacy_head orgId repo
      rw [Option.some.inj he] at hm
      exact hc hm
    | identified orgId identity => exact hn (Option.some.inj he).symm
  obtain ⟨part, rest, hk⟩ := List.exists_cons_of_ne_nil (keyParts_ne_nil key)
  rw [hk, List.head?_cons] at hhead
  rw [hk]
  constructor
  · intro hp
    rw [List.cons_prefix_cons] at hp
    exact hhead (congrArg some hp.1)
  · intro hp
    rw [List.cons_prefix_cons] at hp
    exact hhead (congrArg some hp.1.symm)

theorem apart_append {base p q : Path} (h : Apart p q) : Apart (base ++ p) (base ++ q) := by
  unfold Apart
  rw [List.prefix_append_right_inj, List.prefix_append_right_inj]
  exact h

section
variable [Interpreter]

theorem normalizeOrgId_shape {raw orgId : String} (h : normalizeOrgId raw = some orgId) :
    Leaf orgId ∧ '/' ∉ orgId.toList := by
  unfold normalizeOrgId at h
  obtain ⟨value, -, h⟩ := Option.bind_eq_some_iff.mp h
  dsimp only at h
  split at h
  · split at h
    · cases h
    · rename_i c rest hl
      split at h
      · rename_i hc
        obtain rfl := Option.some.inj h
        constructor
        · apply leaf_of_head hl
          intro he
          rw [he] at hc
          exact absurd hc.1 (by decide)
        · rw [hl, List.mem_cons, not_or]
          constructor
          · intro he
            rw [← he] at hc
            exact absurd hc.1 (by decide)
          · intro hm
            exact absurd (List.all_eq_true.mp hc.2.2 _ hm) (by decide)
      · cases h
  · cases h

theorem forgeHost_shape {raw host : String} (h : forgeHost raw = some host) : Leaf host := by
  unfold forgeHost at h
  obtain ⟨value, -, h⟩ := Option.bind_eq_some_iff.mp h
  dsimp only at h
  split at h
  · rename_i hc
    obtain rfl := Option.some.inj h
    have hall := hc.2
    constructor
    · intro he
      rw [he] at hall
      revert hall
      decide
    · intro he
      rw [he] at hall
      revert hall
      decide
    · intro he
      rw [he] at hall
      revert hall
      decide
  · cases h

omit [Interpreter] in
theorem providerRepositoryId_shape {raw repositoryId : String}
    (h : providerRepositoryId raw = some repositoryId) : Leaf repositoryId := by
  unfold providerRepositoryId at h
  obtain ⟨value, -, h⟩ := Option.bind_eq_some_iff.mp h
  split at h
  · cases h
  · rename_i c rest hl
    split at h
    · rename_i hc
      obtain rfl := Option.some.inj h
      apply leaf_of_head hl
      intro he
      rw [he] at hc
      exact absurd hc.1 (by decide)
    · cases h

theorem legacyRepositoryKey_eq_some {orgId repo : String} {key : RepositoryKey}
    (h : legacyRepositoryKey orgId repo = some key) :
    ∃ o r, normalizeOrgId orgId = some o ∧ requiredRepoSlug repo = some r ∧ key = .legacy o r := by
  obtain ⟨o, ho, h⟩ := Option.bind_eq_some_iff.mp h
  obtain ⟨r, hr, h⟩ := Option.bind_eq_some_iff.mp h
  exact ⟨o, r, ho, hr, (Option.some.inj h).symm⟩

theorem identifiedRepositoryKey_eq_some {orgId provider host repositoryId : String}
    {key : RepositoryKey} (h : identifiedRepositoryKey orgId provider host repositoryId = some key) :
    ∃ o p f r, normalizeOrgId orgId = some o ∧ forgeProvider provider = some p ∧
      forgeHost host = some f ∧ providerRepositoryId repositoryId = some r ∧
        key = .identified o ⟨p, f, r⟩ := by
  unfold identifiedRepositoryKey at h
  obtain ⟨p, hp, h⟩ := Option.bind_eq_some_iff.mp h
  obtain ⟨f, hf, h⟩ := Option.bind_eq_some_iff.mp h
  obtain ⟨r, hr, h⟩ := Option.bind_eq_some_iff.mp h
  obtain ⟨o, ho, h⟩ := Option.bind_eq_some_iff.mp h
  exact ⟨o, p, f, r, ho, hp, hf, hr, (Option.some.inj h).symm⟩

theorem validKey_shaped {key : RepositoryKey} (h : ValidKey key) : Shaped key := by
  cases key with
  | legacy orgId repo =>
    obtain ⟨o, r, ho, -, hk⟩ := legacyRepositoryKey_eq_some h
    cases hk
    exact .legacy (normalizeOrgId_shape ho).2
  | identified orgId identity =>
    obtain ⟨o, p, f, r, ho, -, hf, hr, hk⟩ := identifiedRepositoryKey_eq_some h
    cases hk
    exact .identified (normalizeOrgId_shape ho).1 (forgeHost_shape hf) (providerRepositoryId_shape hr)

end

end Sediment.Proofs.MirrorPaths
