import Sediment.Proofs.MirrorPaths

namespace Sediment.Proofs.MirrorEnumeration
open Sediment.Base Sediment.Core Sediment.Derive Sediment.Proofs.MirrorPaths
open PercentCoding (quote unquote Replacement quote_injective unquote_quote)

section
variable [Interpreter] {base : Path} {tree tree' : Tree}

/-- What every sequence of operations keeps of the paths below the base. -/
structure Tidy (base : Path) (tree : Tree) : Prop where
  touched : ∀ p ∈ tree, Touched base p
  below : ∀ p ∈ tree, base <+: p
  closed : ∀ p ∈ tree, p ≠ base → p.dropLast ∈ tree

theorem tidy_nil : Tidy base [] :=
  ⟨fun _ h => absurd h List.not_mem_nil, fun _ h => absurd h List.not_mem_nil,
    fun _ h => absurd h List.not_mem_nil⟩

theorem tidy_create (ht : Tidy base tree) {p : Path} (hp : Touched base p) (hb : base <+: p)
    (hparent : p = base ∨ p.dropLast ∈ tree) : Tidy base (p :: tree) := by
  constructor
  · intro q hq
    rcases List.mem_cons.mp hq with rfl | hq
    · exact hp
    · exact ht.touched q hq
  · intro q hq
    rcases List.mem_cons.mp hq with rfl | hq
    · exact hb
    · exact ht.below q hq
  · intro q hq hne
    rcases List.mem_cons.mp hq with rfl | hq
    · exact List.mem_cons_of_mem _ (hparent.resolve_left hne)
    · exact List.mem_cons_of_mem _ (ht.closed q hq hne)

theorem tidy_delete (ht : Tidy base tree) {p : Path} (hleaf : ∀ q ∈ tree, q.dropLast = p → q = p) :
    Tidy base (tree.filter (· ≠ p)) := by
  constructor
  · intro q hq
    exact ht.touched q (List.mem_of_mem_filter hq)
  · intro q hq
    exact ht.below q (List.mem_of_mem_filter hq)
  · intro q hq hne
    obtain ⟨hq, hqp⟩ := List.mem_filter.mp hq
    apply List.mem_filter.mpr
    refine ⟨ht.closed q hq hne, decide_eq_true ?_⟩
    intro hd
    exact of_decide_eq_true hqp (hleaf q hq hd)

omit [Interpreter] in
theorem movedPath_append (source target rest : Path) :
    movedPath source target (source ++ rest) = target ++ rest := by
  rw [movedPath, List.take_left, if_pos rfl, List.drop_left]

omit [Interpreter] in
theorem movedPath_other {source p : Path} (target : Path) (h : ¬ source <+: p) :
    movedPath source target p = p := by
  rw [movedPath, if_neg]
  intro he
  exact h (List.prefix_iff_eq_take.mpr he.symm)

/-- Moving one directory of the base moves all that lies in it. -/
theorem moved_closed (ht : Tidy base tree) {old new : String} (hold : base ++ [old] ∈ tree) :
    ∀ p ∈ tree, movedPath (base ++ [old]) (base ++ [new]) p ≠ base →
      (movedPath (base ++ [old]) (base ++ [new]) p).dropLast ∈
        tree.map (movedPath (base ++ [old]) (base ++ [new])) := by
  have hfixed : ¬ base ++ [old] <+: base := by
    intro hp
    have hl := hp.length_le
    simp at hl
  have hbase : base ∈ tree := by
    have hm := ht.closed _ hold (by simp)
    rwa [List.dropLast_concat] at hm
  intro p hp hne
  apply List.mem_map.mpr
  by_cases hm : base ++ [old] <+: p
  · obtain ⟨rest, rfl⟩ := hm
    rw [movedPath_append]
    rcases List.eq_nil_or_concat rest with rfl | ⟨front, last, rfl⟩
    · rw [List.append_nil, List.dropLast_concat]
      exact ⟨base, hbase, movedPath_other _ hfixed⟩
    · have hup := ht.closed _ hp (by simp)
      rw [List.concat_eq_append, ← List.append_assoc, List.dropLast_concat] at hup ⊢
      exact ⟨_, hup, movedPath_append _ _ _⟩
  · rw [movedPath_other _ hm] at hne ⊢
    have hup : ¬ base ++ [old] <+: p.dropLast := fun hpre => hm (hpre.trans (List.dropLast_prefix p))
    exact ⟨_, ht.closed p hp hne, movedPath_other _ hup⟩

theorem tidy_rename (ht : Tidy base tree) {orgId old new : String}
    (hn : ValidKey (.legacy orgId new)) (hold : mirrorPath base orgId old ∈ tree) :
    Tidy base (tree.map (movedPath (mirrorPath base orgId old) (mirrorPath base orgId new))) := by
  have hpath : ∀ repo, mirrorPath base orgId repo = base ++ [quote (legacyName orgId repo)] :=
    fun repo => mirrorPath_eq base orgId repo
  have hnew := hpath new
  rw [hpath old] at hold ⊢
  constructor
  · intro q hq
    obtain ⟨p, hp, rfl⟩ := List.mem_map.mp hq
    by_cases hm : base ++ [quote (legacyName orgId old)] <+: p
    · obtain ⟨rest, rfl⟩ := hm
      rw [movedPath_append]
      exact Or.inr (Or.inl ⟨.legacy orgId new, hn, Or.inr (List.prefix_append _ _)⟩)
    · rw [movedPath_other _ hm]
      exact ht.touched p hp
  · intro q hq
    obtain ⟨p, hp, rfl⟩ := List.mem_map.mp hq
    by_cases hm : base ++ [quote (legacyName orgId old)] <+: p
    · obtain ⟨rest, rfl⟩ := hm
      rw [movedPath_append, hnew, List.append_assoc]
      exact List.prefix_append _ _
    · rw [movedPath_other _ hm]
      exact ht.below p hp
  · intro q hq hne
    obtain ⟨p, hp, rfl⟩ := List.mem_map.mp hq
    rw [hnew] at hne ⊢
    exact moved_closed ht hold p hp hne

theorem step_tidy (ht : Tidy base tree) (hs : MirrorStep base tree tree') : Tidy base tree' := by
  cases hs with
  | create p hp hb hparent => exact tidy_create ht hp hb hparent
  | delete p hleaf => exact tidy_delete ht hleaf
  | rename orgId old new ho hn hne hold hnew => exact tidy_rename ht hn hold

theorem mirrorTree_tidy (h : MirrorTree base tree) : Tidy base tree := by
  induction h with
  | start => exact tidy_nil
  | step _ hs ih => exact step_tidy ih hs

/-- A path that exists has all its directories. -/
theorem ancestor_mem (ht : Tidy base tree) {q : Path} (hq : base <+: q) :
    ∀ rest : Path, q ++ rest ∈ tree → q ∈ tree := by
  intro rest
  induction rest using List.reverseRecOn with
  | nil => simp
  | append_singleton rest last ih =>
    intro hp
    have hup := ht.closed _ hp (by
      intro he
      have hl := hq.length_le
      rw [← he] at hl
      simp at hl)
    rw [← List.append_assoc, List.dropLast_concat] at hup
    exact ih hup

/-- Below the base lie mirrors, what leads to them, and the two lock directories. -/
theorem touched_parts (ht : Tidy base tree) {parts : Path} (hne : parts ≠ [])
    (hp : base ++ parts ∈ tree) :
    (∃ key, ValidKey key ∧ (parts <+: keyParts key ∨ keyParts key <+: parts)) ∨
      parts.head? = some ".locks" ∨ parts.head? = some ".observation-locks" := by
  have hlock : ∀ {name : String}, base ++ [name] <+: base ++ parts → parts.head? = some name := by
    intro name h
    rw [List.prefix_append_right_inj] at h
    obtain ⟨rest, rfl⟩ := h
    rfl
  rcases ht.touched _ hp with h | ⟨key, hk, h⟩ | h | h
  · have hl := h.length_le
    rw [List.length_append] at hl
    exact absurd (List.length_eq_zero_iff.mp (by omega)) hne
  · rw [repositoryPath_eq base (validKey_shaped hk), List.prefix_append_right_inj,
      List.prefix_append_right_inj] at h
    exact Or.inl ⟨key, hk, h⟩
  · rw [locksPath_eq] at h
    exact Or.inr (Or.inl (hlock h))
  · rw [observationLocksPath_eq] at h
    exact Or.inr (Or.inr (hlock h))

variable [Replacement]

omit [Interpreter] in
theorem unquote_plain {s : String} (h : '%' ∉ s.toList) : unquote s = s := if_neg h

omit [Interpreter] [Replacement] in
theorem mem_children {path : Path} {name : String} (h : path ++ [name] ∈ tree) :
    name ∈ children tree path := by
  rw [children, List.mem_dedup, List.mem_filterMap]
  refine ⟨_, h, ?_⟩
  rw [if_pos List.dropLast_concat, List.getLast?_concat]

/-- A mirror directory that decodes to a name of the organization is the mirror
of that name. -/
theorem legacy_entry (ht : Tidy base tree) {orgId repo name : String} (ho : '/' ∉ orgId.toList)
    (hhead : base ++ [name] ++ ["HEAD"] ∈ tree) (hdecoded : unquote name = legacyName orgId repo) :
    ValidKey (.legacy orgId repo) ∧ name = quote (legacyName orgId repo) := by
  have hplain : '%' ∉ name.toList → '/' ∈ name.toList := by
    intro h
    rw [unquote_plain h] at hdecoded
    rw [hdecoded]
    exact slash_mem_legacyName orgId repo
  rw [List.append_assoc] at hhead
  rcases touched_parts ht (by simp) hhead with ⟨key, hk, h⟩ | h | h
  · cases key with
    | legacy o r =>
      have hname : quote (legacyName o r) = name := by
        rcases h with h | h
        · exact absurd h.length_le (by simp [keyParts])
        · rw [keyParts, List.singleton_append, List.cons_prefix_cons] at h
          exact h.1
      rw [← hname, unquote_quote] at hdecoded
      cases validKey_shaped hk with
      | legacy ho' =>
        obtain ⟨rfl, rfl⟩ := legacyName_inj ho' ho hdecoded
        exact ⟨hk, hname.symm⟩
    | identified o identity =>
      have hname : name = identifiedMirrorNamespace := by
        rcases h with h | h
        · rw [keyParts, List.singleton_append, List.cons_prefix_cons] at h
          exact h.1
        · exact absurd h.length_le (by simp [keyParts])
      rw [hname] at hplain
      exact absurd (hplain (by simp [identifiedMirrorNamespace])) (by simp [identifiedMirrorNamespace])
  · rw [List.singleton_append, List.head?_cons, Option.some.injEq] at h
    rw [h] at hplain
    exact absurd (hplain (by simp)) (by simp)
  · rw [List.singleton_append, List.head?_cons, Option.some.injEq] at h
    rw [h] at hplain
    exact absurd (hplain (by simp)) (by simp)

omit [Interpreter] [Replacement] in
theorem legacyName_prefix {orgId : String} {decoded : List Char}
    (h : (orgId ++ "/").toList.isPrefixOf decoded = true) :
    decoded = (legacyName orgId (String.ofList (decoded.drop (orgId ++ "/").toList.length))).toList := by
  obtain ⟨rest, rfl⟩ := List.isPrefixOf_iff_prefix.mp h
  rw [List.drop_left]
  simp [legacyName]

/-- The names listed for an organization are those of its legacy mirrors. -/
theorem mem_listMirroredRepos (ht : Tidy base tree) {orgId repo : String}
    (ho : '/' ∉ orgId.toList) :
    repo ∈ listMirroredRepos base tree orgId ↔
      ValidKey (.legacy orgId repo) ∧ mirrorExists base tree (.legacy orgId repo) := by
  unfold listMirroredRepos
  constructor
  · intro h
    split at h
    · exact absurd h List.not_mem_nil
    · dsimp only at h
      obtain ⟨name, hname, hr⟩ := List.mem_filterMap.mp h
      split at hr
      · cases hr
      · rename_i hhead
        rw [not_or, not_not] at hhead
        split at hr
        · rename_i hpre
          have hrepo := Option.some.inj hr
          have hdecoded := legacyName_prefix hpre
          rw [hrepo] at hdecoded
          obtain ⟨hk, hq⟩ := legacy_entry ht ho hhead.2 (String.toList_inj.mp hdecoded)
          refine ⟨hk, ?_⟩
          rw [mirrorExists, repositoryPath_eq base (validKey_shaped hk), keyParts, ← hq]
          exact hhead.2
        · cases hr
  · intro h
    obtain ⟨hk, hm⟩ := h
    rw [mirrorExists, repositoryPath_eq base (validKey_shaped hk), keyParts] at hm
    have hdir := ancestor_mem ht (List.prefix_append base _) _ hm
    have hbase := ancestor_mem ht (List.prefix_refl base) _ hdir
    rw [if_neg (not_not.mpr hbase)]
    dsimp only
    apply List.mem_filterMap.mpr
    refine ⟨_, mem_children hdir, ?_⟩
    have hlocks : quote (legacyName orgId repo) ≠ ".locks" := by
      intro he
      have hp := legacy_head orgId repo
      rw [he] at hp
      simp at hp
    have hpre : (orgId ++ "/").toList.isPrefixOf (legacyName orgId repo).toList = true := by
      have hname : (legacyName orgId repo).toList = (orgId ++ "/").toList ++ repo.toList :=
        String.toList_append
      rw [List.isPrefixOf_iff_prefix, hname]
      exact List.prefix_append _ _
    rw [if_neg (not_or.mpr ⟨hlocks, not_not.mpr hm⟩), unquote_quote, if_pos hpre]
    simp [legacyName]

omit [Interpreter] [Replacement] in
theorem organizationRoot_eq {orgId : String} (ho : Leaf orgId) :
    joinPath (joinPath base identifiedMirrorNamespace) (quote orgId) =
      base ++ [identifiedMirrorNamespace, quote orgId] := by
  rw [joinPath_namespace, joinPath_quote _ ho, List.append_assoc]
  rfl

omit [Replacement] in
/-- A directory three levels below the root of an organization that holds a
`HEAD` is the mirror of one of its identified repositories. -/
theorem identified_entry (ht : Tidy base tree) {orgId provider host repositoryId : String}
    (hhead : base ++ [identifiedMirrorNamespace, quote orgId, provider, host, repositoryId, "HEAD"] ∈
      tree) :
    ∃ identity, ValidKey (.identified orgId identity) ∧ provider = quote identity.provider.value ∧
      host = quote identity.host ∧ repositoryId = quote identity.repositoryId := by
  rcases touched_parts ht (by simp) hhead with ⟨key, hk, h⟩ | h | h
  · cases key with
    | legacy o r =>
      have hname : quote (legacyName o r) = identifiedMirrorNamespace := by
        rcases h with h | h
        · exact absurd h.length_le (by simp [keyParts])
        · rw [keyParts, List.cons_prefix_cons] at h
          exact h.1
      have hm := legacy_head o r
      rw [hname] at hm
      simp [identifiedMirrorNamespace] at hm
    | identified o identity =>
      rcases h with h | h
      · exact absurd h.length_le (by simp [keyParts])
      · simp only [keyParts, List.cons_prefix_cons] at h
        obtain ⟨-, horg, hp, hh, hr, -⟩ := h
        obtain rfl := quote_injective horg
        exact ⟨identity, hk, hp.symm, hh.symm, hr.symm⟩
  · rw [List.head?_cons, Option.some.injEq] at h
    exact absurd h (by decide)
  · rw [List.head?_cons, Option.some.injEq] at h
    exact absurd h (by decide)

omit [Interpreter] [Replacement] in
theorem mem_grandchildren {root entry : Path} :
    entry ∈ grandchildren tree root ↔ ∃ a b c, entry = root ++ [a, b, c] ∧ entry ∈ tree := by
  rw [grandchildren, List.mem_filter, decide_eq_true_eq]
  constructor
  · intro h
    obtain ⟨hm, htake, hlen⟩ := h
    have hsplit := List.take_append_drop root.length entry
    have hrest : (entry.drop root.length).length = 3 := by
      rw [List.length_drop]
      omega
    obtain ⟨a, b, c, habc⟩ := List.length_eq_three.mp hrest
    rw [htake, habc] at hsplit
    exact ⟨a, b, c, hsplit.symm, hm⟩
  · intro h
    obtain ⟨a, b, c, rfl, hm⟩ := h
    exact ⟨hm, List.take_left, by simp⟩

theorem identifiedEntry_eq_some (ht : Tidy base tree) {orgId : String} (ho : Leaf orgId)
    {entry : Path} {key : RepositoryKey} {a b c : String}
    (he : entry = base ++ [identifiedMirrorNamespace, quote orgId] ++ [a, b, c]) :
    identifiedEntry base tree orgId (base ++ [identifiedMirrorNamespace, quote orgId]) entry =
        some key ↔
      ValidKey key ∧ key.orgId = orgId ∧ entry = repositoryPath base key ∧
        mirrorExists base tree key := by
  subst he
  unfold identifiedEntry
  rw [List.drop_left]
  constructor
  · intro h
    split at h
    · cases h
    · rename_i hhead
      rw [not_not, List.append_assoc, List.append_assoc] at hhead
      obtain ⟨identity, hk, rfl, rfl, rfl⟩ := identified_entry ht hhead
      dsimp only at h
      rw [unquote_quote, unquote_quote, unquote_quote] at h
      obtain ⟨key', hkey', h⟩ := Option.bind_eq_some_iff.mp h
      obtain rfl : RepositoryKey.identified orgId identity = key' :=
        Option.some.inj (hk.symm.trans hkey')
      split at h
      · rename_i hpath
        obtain rfl := Option.some.inj h
        refine ⟨hk, rfl, hpath.symm, ?_⟩
        rw [mirrorExists, hpath, List.append_assoc, List.append_assoc]
        exact hhead
      · cases h
  · intro h
    obtain ⟨hk, rfl, hpath, hm⟩ := h
    rw [mirrorExists, ← hpath] at hm
    rw [if_neg (not_not.mpr hm)]
    dsimp only
    cases key with
    | legacy o r =>
      rw [repositoryPath_eq base (validKey_shaped hk), List.append_assoc,
        List.append_cancel_left_eq] at hpath
      simp [keyParts] at hpath
    | identified o identity =>
      have hparts := hpath
      rw [repositoryPath_eq base (validKey_shaped hk), List.append_assoc,
        List.append_cancel_left_eq] at hparts
      simp only [keyParts, List.cons_append, List.nil_append, List.cons.injEq, and_true,
        true_and] at hparts
      obtain ⟨-, rfl, rfl, rfl⟩ := hparts
      rw [unquote_quote, unquote_quote, unquote_quote]
      apply Option.bind_eq_some_iff.mpr
      exact ⟨_, hk, if_pos hpath.symm⟩

theorem mem_legacy (ht : Tidy base tree) {orgId : String} (ho : '/' ∉ orgId.toList)
    (key : RepositoryKey) :
    key ∈ (listMirroredRepos base tree orgId).filterMap (legacyRepositoryKey orgId) ↔
      ∃ repo, key = .legacy orgId repo ∧ ValidKey key ∧ mirrorExists base tree key := by
  rw [List.mem_filterMap]
  constructor
  · intro h
    obtain ⟨repo, hrepo, hkey⟩ := h
    obtain ⟨hk, hm⟩ := (mem_listMirroredRepos ht ho).mp hrepo
    obtain rfl : RepositoryKey.legacy orgId repo = key := Option.some.inj (hk.symm.trans hkey)
    exact ⟨repo, rfl, hk, hm⟩
  · intro h
    obtain ⟨repo, rfl, hk, hm⟩ := h
    exact ⟨repo, (mem_listMirroredRepos ht ho).mpr ⟨hk, hm⟩, hk⟩

theorem mem_identified (ht : Tidy base tree) {orgId : String} (ho : Leaf orgId)
    (key : RepositoryKey) :
    (base ++ [identifiedMirrorNamespace, quote orgId] ∈ tree ∧
        key ∈ (grandchildren tree (base ++ [identifiedMirrorNamespace, quote orgId])).filterMap
          (identifiedEntry base tree orgId (base ++ [identifiedMirrorNamespace, quote orgId]))) ↔
      ∃ identity, key = .identified orgId identity ∧ ValidKey key ∧ mirrorExists base tree key := by
  rw [List.mem_filterMap]
  constructor
  · intro h
    obtain ⟨-, entry, hentry, hkey⟩ := h
    obtain ⟨a, b, c, hpath, -⟩ := mem_grandchildren.mp hentry
    obtain ⟨hk, horg, hat, hm⟩ := (identifiedEntry_eq_some ht ho hpath).mp hkey
    cases key with
    | legacy o r =>
      rw [repositoryPath_eq base (validKey_shaped hk), hpath, List.append_assoc,
        List.append_cancel_left_eq] at hat
      simp [keyParts] at hat
    | identified o identity =>
      obtain rfl : o = orgId := horg
      exact ⟨identity, rfl, hk, hm⟩
  · intro h
    obtain ⟨identity, rfl, hk, hm⟩ := h
    have hpath : repositoryPath base (.identified orgId identity) =
        base ++ [identifiedMirrorNamespace, quote orgId] ++
          [quote identity.provider.value, quote identity.host, quote identity.repositoryId] := by
      rw [repositoryPath_eq base (validKey_shaped hk), List.append_assoc]
      rfl
    have hdir : repositoryPath base (.identified orgId identity) ∈ tree := by
      apply ancestor_mem ht _ _ hm
      rw [hpath, List.append_assoc]
      exact List.prefix_append _ _
    have hroot : base ++ [identifiedMirrorNamespace, quote orgId] ∈ tree := by
      rw [hpath] at hdir
      exact ancestor_mem ht (List.prefix_append _ _) _ hdir
    exact ⟨hroot, _, mem_grandchildren.mpr ⟨_, _, _, hpath, hdir⟩,
      (identifiedEntry_eq_some ht ho hpath).mpr ⟨hk, rfl, rfl, hm⟩⟩

theorem mem_listMirroredRepositories (ht : Tidy base tree) {rawOrg orgId : String}
    (ho : normalizeOrgId rawOrg = some orgId) :
    ∃ keys, listMirroredRepositories base tree rawOrg = some keys ∧ keys.Nodup ∧
      ∀ key, key ∈ keys ↔ ValidKey key ∧ key.orgId = orgId ∧ mirrorExists base tree key := by
  obtain ⟨hleaf, hslash⟩ := normalizeOrgId_shape ho
  unfold listMirroredRepositories
  rw [ho]
  refine ⟨_, rfl, (sortedBy_perm _ _).nodup_iff.mpr (List.nodup_dedup _), ?_⟩
  intro key
  rw [organizationRoot_eq hleaf, mem_sortedBy, List.mem_dedup, List.mem_append, mem_legacy ht hslash,
    List.mem_ite_nil_right, mem_identified ht hleaf]
  constructor
  · intro h
    rcases h with ⟨repo, rfl, hk, hm⟩ | ⟨identity, rfl, hk, hm⟩
    · exact ⟨hk, rfl, hm⟩
    · exact ⟨hk, rfl, hm⟩
  · intro h
    obtain ⟨hk, rfl, hm⟩ := h
    cases key with
    | legacy o repo => exact Or.inl ⟨repo, rfl, hk, hm⟩
    | identified o identity => exact Or.inr ⟨identity, rfl, hk, hm⟩

end

/-- Every valid key has a directory of its own strictly below the base, apart
from every other mirror and from the locks, and an organization's listing is
exactly the mirrors that exist for it, whatever ran before. -/
theorem mirrors_injective_and_enumerated [Interpreter] [Replacement] (base : Path) :
    (∀ key, ValidKey key → ∃ parts : Path, parts ≠ [] ∧ repositoryPath base key = base ++ parts ∧
      ∀ part ∈ parts, part ≠ "" ∧ part ≠ "." ∧ part ≠ ".." ∧ '/' ∉ part.toList) ∧
    (∀ key key', ValidKey key → ValidKey key' → key ≠ key' →
      Apart (repositoryPath base key) (repositoryPath base key')) ∧
    (∀ key, ValidKey key → Apart (repositoryPath base key) (locksPath base) ∧
      Apart (repositoryPath base key) (observationLocksPath base)) ∧
    ∀ tree, MirrorTree base tree → ∀ rawOrg orgId, normalizeOrgId rawOrg = some orgId →
      ∃ keys, listMirroredRepositories base tree rawOrg = some keys ∧ keys.Nodup ∧
        ∀ key, key ∈ keys ↔ ValidKey key ∧ key.orgId = orgId ∧ mirrorExists base tree key := by
  refine ⟨?_, ?_, ?_, ?_⟩
  · intro key hk
    have hshape := validKey_shaped hk
    refine ⟨keyParts key, keyParts_ne_nil key, repositoryPath_eq base hshape, ?_⟩
    intro part hp
    obtain ⟨hleaf, hslash⟩ := keyParts_leaf hshape part hp
    exact ⟨hleaf.nonempty, hleaf.notHere, hleaf.notUp, hslash⟩
  · intro key key' hk hk' hne
    have hshape := validKey_shaped hk
    have hshape' := validKey_shaped hk'
    rw [repositoryPath_eq base hshape, repositoryPath_eq base hshape']
    apply apart_append
    exact ⟨fun hp => hne (keyParts_initial hshape hshape' hp),
      fun hp => hne (keyParts_initial hshape' hshape hp).symm⟩
  · intro key hk
    rw [repositoryPath_eq base (validKey_shaped hk), locksPath_eq, observationLocksPath_eq]
    constructor
    · apply apart_append
      exact keyParts_apart_dir (by decide) (by simp)
    · apply apart_append
      exact keyParts_apart_dir (by decide) (by simp)
  · intro tree htree rawOrg orgId ho
    exact mem_listMirroredRepositories (mirrorTree_tidy htree) ho

@[reducible] def asciiLower : Interpreter := ⟨fun s => String.ofList (s.toList.map Char.toLower)⟩

@[reducible] def replaced : Replacement := ⟨fun _ => ['\uFFFD']⟩

def srv : Path := ["srv"]

def appKey : RepositoryKey := .legacy "acme" "acme/app"

def apiKey : RepositoryKey := .identified "acme" ⟨.github, "github.com", "42"⟩

def mirrored : Tree :=
  [["srv", "acme%2Facme%2Fapp", "HEAD"], ["srv", "acme%2Facme%2Fapp"],
    ["srv", "repositories-v1", "acme", "github", "github.com", "42", "HEAD"],
    ["srv", "repositories-v1", "acme", "github", "github.com", "42"],
    ["srv", "repositories-v1", "acme", "github", "github.com"],
    ["srv", "repositories-v1", "acme", "github"], ["srv", "repositories-v1", "acme"],
    ["srv", "repositories-v1"], ["srv"]]

theorem appKey_valid : @ValidKey asciiLower appKey := by decide

theorem apiKey_valid : @ValidKey asciiLower apiKey := by decide

theorem mirrored_tree : @MirrorTree asciiLower srv mirrored := by
  let := asciiLower
  have create : ∀ {tree : Tree} (key : RepositoryKey) (p : Path), ValidKey key →
      p <+: repositoryPath srv key ∨ repositoryPath srv key <+: p →
      srv <+: p ∧ (p = srv ∨ p.dropLast ∈ tree) → MirrorTree srv tree → MirrorTree srv (p :: tree) :=
    fun key p hk hp h ht => .step ht (.create p (Or.inr (Or.inl ⟨key, hk, hp⟩)) h.1 h.2)
  have app := appKey_valid
  have api := apiKey_valid
  apply create appKey _ app (by decide) (by decide)
  apply create appKey _ app (by decide) (by decide)
  apply create apiKey _ api (by decide) (by decide)
  apply create apiKey _ api (by decide) (by decide)
  apply create apiKey _ api (by decide) (by decide)
  apply create apiKey _ api (by decide) (by decide)
  apply create apiKey _ api (by decide) (by decide)
  apply create apiKey _ api (by decide) (by decide)
  apply create apiKey _ api (by decide) (by decide)
  exact .start

/-- Both mirrors are listed, and neither lies in the other. -/
theorem mirrored_listed : ∃ keys, @listMirroredRepositories replaced srv mirrored asciiLower "Acme" =
      some keys ∧ appKey ∈ keys ∧ apiKey ∈ keys ∧
      Apart (repositoryPath srv appKey) (repositoryPath srv apiKey) := by
  let := asciiLower
  let := replaced
  have app := appKey_valid
  have api := apiKey_valid
  obtain ⟨-, hapart, -, hlist⟩ := mirrors_injective_and_enumerated srv
  have horg : normalizeOrgId "Acme" = some "acme" := by decide
  obtain ⟨keys, hkeys, -, hmem⟩ := hlist mirrored mirrored_tree "Acme" "acme" horg
  refine ⟨keys, hkeys, ?_, ?_, hapart _ _ app api (by decide)⟩
  · exact (hmem appKey).mpr ⟨app, rfl, by decide⟩
  · exact (hmem apiKey).mpr ⟨api, rfl, by decide⟩

end Sediment.Proofs.MirrorEnumeration
