import Sediment.Api.CiFailures

namespace Sediment.Proofs.CiPagination
open Sediment.Base Sediment.Base.JsonScan Sediment.Core Sediment.Derive Sediment.Api
open Sediment.Base.Keyset (Page walk Serves)

theorem isoText_plain (d : Datetime) : Plain d.isoText := plain_toNat d.isoformat

theorem isoText_inj {a b : Datetime} (h : a.isoText = b.isoText) : a = b := by
  have hchars := congrArg (List.map Char.ofNat) h
  simp only [Datetime.isoText, map_ofNat_toNat] at hchars
  exact Datetime.isoformat_inj hchars

theorem repositorySortKey_inj {a b : RepositoryKey} (h : repositorySortKey a = repositorySortKey b) :
    a = b := by
  cases a with
  | identified orgId identity =>
    cases b with
    | identified orgId' identity' =>
      simp only [repositorySortKey, List.cons.injEq, and_true] at h
      obtain ⟨horg, -, -, hhost, hid⟩ := h
      obtain ⟨⟨⟩, host, id⟩ := identity
      obtain ⟨⟨⟩, host', id'⟩ := identity'
      subst horg hhost hid
      rfl
    | legacy orgId' repo => simp [repositorySortKey] at h
  | legacy orgId repo =>
    cases b with
    | identified orgId' identity' => simp [repositorySortKey] at h
    | legacy orgId' repo' =>
      simp only [repositorySortKey, List.cons.injEq, and_true] at h
      obtain ⟨horg, -, hrepo⟩ := h
      subst horg hrepo
      rfl

theorem ciFilterValue_clean (f : CiFilter) :
    Clean Plain (fun _ : Empty => True) (ciFilterValue f) := by
  apply Clean.arr
  intro v hv
  simp only [List.mem_cons, List.not_mem_nil, or_false] at hv
  rcases hv with rfl | rfl | rfl | rfl | rfl | rfl | rfl | rfl | rfl
  · exact .str (plain_codePoints _)
  · apply Clean.arr
    intro v hv
    obtain ⟨part, -, rfl⟩ := List.mem_map.mp hv
    exact .str (plain_codePoints _)
  · exact .str (isoText_plain _)
  · exact .int _
  · exact .str (isoText_plain _)
  · exact .str (isoText_plain _)
  · exact .str (plain_codePoints _)
  · cases f.workflowName with
    | none => exact .null
    | some name => exact .str (plain_codePoints _)
  · cases f.prNumber with
    | none => exact .null
    | some n => exact .int _

theorem ciFilterValue_inj {a b : CiFilter} (h : ciFilterValue a = ciFilterValue b) : a = b := by
  simp only [ciFilterValue, Json.arr.injEq, List.cons.injEq, and_true, Json.str.injEq,
    Json.int.injEq, Nat.cast_inj] at h
  obtain ⟨horg, hkey, hasOf, hrevision, hafter, hbefore, hresult, hworkflow, hpr⟩ := h
  have hkeys : repositorySortKey a.repositoryKey = repositorySortKey b.repositoryKey := by
    apply List.map_injective_iff.mpr _ hkey
    intro x y hxy
    exact codePoints_injective (Json.str.inj hxy)
  have hname : a.workflowName = b.workflowName := by
    cases ha : a.workflowName <;> cases hb : b.workflowName <;> rw [ha, hb] at hworkflow
    · cases hworkflow
    · cases hworkflow
    · exact congrArg some (codePoints_injective (Json.str.inj hworkflow))
  have hnumber : a.prNumber = b.prNumber := by
    cases ha : a.prNumber <;> cases hb : b.prNumber <;> rw [ha, hb] at hpr
    · cases hpr
    · cases hpr
    · exact congrArg some (Int.ofNat_inj.mp (Json.int.inj hpr))
  cases a
  cases b
  simp only [CiFilter.mk.injEq]
  exact ⟨repositorySortKey_inj hkeys, codePoints_injective horg, isoText_inj hasOf, hrevision,
    isoText_inj hafter, isoText_inj hbefore,
    CIResult.value_injective (codePoints_injective hresult), hname, hnumber⟩

/-- Different filters have different keys. -/
theorem ciFilterKey_inj {a b : CiFilter} (h : ciFilterKey a = ciFilterKey b) : a = b := by
  have hend : Stops [] := .inl rfl
  have htext : ciFilterKey a ++ [] = ciFilterKey b ++ [] := by rw [h]
  exact ciFilterValue_inj (render_inj (compact_legible _) (ciFilterValue_clean a)
    (ciFilterValue_clean b) hend hend htext).1

theorem ciFilterKey_plain (f : CiFilter) : Plain (ciFilterKey f) :=
  plain_of_scalar (compact_scalar (ciFilterValue_clean f))

theorem scalarText_codePoints (s : String) : scalarText (codePoints s) = some s := by
  have hall : (codePoints s).all (fun n => n.isValidChar) = true := by
    rw [List.all_eq_true]
    intro n hn
    obtain ⟨c, -, rfl⟩ := List.mem_map.mp hn
    exact decide_eq_true c.valid
  rw [scalarText, if_pos hall, codePoints, map_ofNat_toNat, String.ofList_toList]

section
variable [DatetimeReader] {depth : Nat}

/-- An issued cursor is read back where its filter key is the one in force, and refused
where it is not. -/
theorem decodeCiCursor_encode (hreader : DatetimeReader.Lawful) {capturedAt : Datetime}
    {outcomeId : String} (hid : nonEmptyId outcomeId = some outcomeId) {issued : Text}
    (hplain : Plain issued) (filterKey : Text) :
    decodeCiCursor depth (encodeCiCursor capturedAt outcomeId issued) filterKey =
      if issued = filterKey then .ok (capturedAt, outcomeId) else .error foreignCursor := by
  have hbytes := Base64.decode_repad (encodeUtf8_lt
    (stringsText [capturedAt.isoText, codePoints outcomeId, issued]))
  have hall : ∀ t ∈ [capturedAt.isoText, codePoints outcomeId, issued], Plain t := by
    simp only [List.mem_cons, List.not_mem_nil, or_false, forall_eq_or_imp, forall_eq]
    exact ⟨isoText_plain _, plain_codePoints _, hplain⟩
  have hload := loads_stringsText depth (List.cons_ne_nil _ _) hall
  have htime : awareText (.str capturedAt.isoText) = some capturedAt := by
    rw [awareText, hreader]
  have hvalid : validatedId (.str (codePoints outcomeId)) = some outcomeId := by
    rw [validatedId, scalarText_codePoints, Option.bind_some, hid]
  rw [decodeCiCursor, encodeCiCursor, hbytes, Option.bind_some, decodeUtf8_encodeUtf8]
  simp only [hload, List.map_cons, List.map_nil, unpackThree, htime, hvalid]

end

section
variable [Collation]

/-- One outcome comes before another in the order of the pages. -/
def newer (a b : StoredOutcome) : Bool := behind (a.capturedAt, a.outcomeId) b

theorem newer_asymm (hlaw : Collation.Lawful) (a b : StoredOutcome) (h : newer a b = true) :
    newer b a = false := by
  simp only [newer, behind, Bool.or_eq_true, decide_eq_true_eq, Bool.and_eq_true, beq_iff_eq,
    Bool.not_eq_true'] at h
  simp only [newer, behind, Bool.or_eq_false_iff, decide_eq_false_iff_not, Bool.and_eq_false_imp,
    beq_iff_eq, Bool.not_eq_false']
  rcases h with h | h
  · exact ⟨by omega, fun heq => by omega⟩
  · refine ⟨by omega, fun _ => ?_⟩
    rcases hlaw.total a.outcomeId b.outcomeId with hle | hle
    · rw [h.2] at hle
      cases hle
    · exact hle

theorem newer_of_newestFirst (hlaw : Collation.Lawful) {a b : StoredOutcome}
    (h : newestFirst a b = true) (hne : a.outcomeId ≠ b.outcomeId) : newer a b = true := by
  simp only [newestFirst, Bool.or_eq_true, decide_eq_true_eq, Bool.and_eq_true, beq_iff_eq] at h
  simp only [newer, behind, Bool.or_eq_true, decide_eq_true_eq, Bool.and_eq_true, beq_iff_eq,
    Bool.not_eq_true']
  rcases h with h | h
  · exact .inl h
  · refine .inr ⟨h.1.symm, ?_⟩
    by_contra hle
    rw [Bool.not_eq_false] at hle
    exact hne (hlaw.antisymm _ _ hle h.2)

theorem newestFirst_total (hlaw : Collation.Lawful) (a b : StoredOutcome) :
    newestFirst a b = true ∨ newestFirst b a = true := by
  simp only [newestFirst, Bool.or_eq_true, decide_eq_true_eq, Bool.and_eq_true, beq_iff_eq]
  rcases hlaw.total a.outcomeId b.outcomeId with hle | hle
  · rcases lt_trichotomy a.capturedAt.instant b.capturedAt.instant with h | h | h
    · exact .inr (.inl h)
    · exact .inr (.inr ⟨h.symm, hle⟩)
    · exact .inl (.inl h)
  · rcases lt_trichotomy a.capturedAt.instant b.capturedAt.instant with h | h | h
    · exact .inr (.inl h)
    · exact .inl (.inr ⟨h, hle⟩)
    · exact .inl (.inl h)

theorem newestFirst_trans (hlaw : Collation.Lawful) (a b c : StoredOutcome)
    (hab : newestFirst a b = true) (hbc : newestFirst b c = true) : newestFirst a c = true := by
  simp only [newestFirst, Bool.or_eq_true, decide_eq_true_eq, Bool.and_eq_true,
    beq_iff_eq] at hab hbc ⊢
  rcases hab with hab | hab
  · rcases hbc with hbc | hbc
    · exact .inl (by omega)
    · exact .inl (by omega)
  · rcases hbc with hbc | hbc
    · exact .inl (by omega)
    · exact .inr ⟨by omega, hlaw.trans _ _ _ hbc.2 hab.2⟩

variable {rows : List StoredOutcome}

theorem orderBy_newer (hlaw : Collation.Lawful)
    (hids : rows.Pairwise (fun a b => a.outcomeId ≠ b.outcomeId)) :
    (orderBy newestFirst rows).Pairwise (fun a b => newer a b = true) := by
  have : Std.Total (fun a b : StoredOutcome => newestFirst a b = true) :=
    ⟨newestFirst_total hlaw⟩
  have : IsTrans StoredOutcome (fun a b => newestFirst a b = true) := ⟨newestFirst_trans hlaw⟩
  have hsorted := List.pairwise_insertionSort (fun a b => newestFirst a b = true) rows
  have hperm := List.perm_insertionSort (fun a b => newestFirst a b = true) rows
  have hdistinct := (hperm.pairwise_iff (fun h => h.symm)).mpr hids
  exact (hsorted.and hdistinct).imp (fun h => newer_of_newestFirst hlaw h.1 h.2)

/-- What a condition keeps is ordered alike before and after. -/
theorem orderBy_filter (hlaw : Collation.Lawful)
    (hids : rows.Pairwise (fun a b => a.outcomeId ≠ b.outcomeId)) (p : StoredOutcome → Bool) :
    orderBy newestFirst (rows.filter p) = (orderBy newestFirst rows).filter p := by
  have hleft := orderBy_newer hlaw (hids.sublist (List.filter_sublist (p := p)))
  have hright := (orderBy_newer hlaw hids).sublist (List.filter_sublist (p := p))
  have hperm : (orderBy newestFirst (rows.filter p)).Perm ((orderBy newestFirst rows).filter p) :=
    (List.perm_insertionSort _ _).trans ((List.perm_insertionSort _ _).symm.filter p)
  refine hperm.eq_of_pairwise ?_ hleft hright
  intro a b _ _ hab hba
  rw [newer_asymm hlaw a b hab] at hba
  cases hba

end

/-- A page is the front of what is left, and names a cursor exactly when more is left. -/
theorem ciPage_take (filterKey : Text) {limit : Nat} (hlimit : 1 ≤ limit)
    (rest : List StoredOutcome) :
    (rest.length ≤ limit ∧ ciPage filterKey limit (rest.take (limit + 1)) = ⟨rest, none⟩) ∨
    ∃ front last behind, rest = front ++ last :: behind ∧
      ciPage filterKey limit (rest.take (limit + 1)) =
        ⟨front ++ [last], some (encodeCiCursor last.capturedAt last.outcomeId filterKey)⟩ := by
  by_cases hlen : limit < rest.length
  · right
    have htake : (rest.take (limit + 1)).take limit = rest.take limit := by
      rw [List.take_take, Nat.min_eq_left (by omega)]
    have hne : rest.take limit ≠ [] := by
      intro h
      have := congrArg List.length h
      rw [List.length_take, List.length_nil] at this
      omega
    refine ⟨(rest.take limit).dropLast, (rest.take limit).getLast hne, rest.drop limit, ?_, ?_⟩
    · calc rest = rest.take limit ++ rest.drop limit := (List.take_append_drop limit rest).symm
        _ = ((rest.take limit).dropLast ++ [(rest.take limit).getLast hne]) ++ rest.drop limit := by
          rw [List.dropLast_append_getLast hne]
        _ = _ := by rw [List.append_assoc, List.singleton_append]
    · rw [ciPage, htake, if_pos (by rw [List.length_take]; omega),
        List.getLast?_eq_some_getLast hne, List.dropLast_append_getLast hne]
      rfl
  · left
    have htake : rest.take (limit + 1) = rest := List.take_of_length_le (by omega)
    refine ⟨by omega, ?_⟩
    rw [ciPage, htake, if_neg hlen, List.take_of_length_le (by omega)]

section
variable [Interpreter] [Collation] [DatetimeReader] {depth : Nat} {s : CiStore} {orgId : String}
  {q : CiFailuresQuery}

/-- The outcomes a request is about: those of the selected repository that pass its filters. -/
def ciMatching (s : CiStore) : Option CiFilter → List StoredOutcome
  | none => []
  | some f =>
    match repositoryReadKey f.repositoryKey with
    | .ok key => s.outcomes.filter (ciMatches s key f)
    | .error _ => []

/-- Where a client stands: at the start, or behind the outcome its cursor names. -/
def CiLeft (f : CiFilter) (rows : List StoredOutcome) (cursor : Option (List Char))
    (rest : List StoredOutcome) : Prop :=
  (cursor = none ∧ rest = rows) ∨ ∃ front last, rows = front ++ last :: rest ∧
    cursor = some (encodeCiCursor last.capturedAt last.outcomeId (ciFilterKey f))

omit [Collation] [DatetimeReader] in
theorem ciMatching_distinct (s : CiStore) (f : Option CiFilter) :
    (ciMatching s f).Pairwise (fun a b => a.outcomeId ≠ b.outcomeId) := by
  unfold ciMatching
  split
  · exact List.Pairwise.nil
  · split
    · exact s.primaryKey.sublist List.filter_sublist
    · exact List.Pairwise.nil

omit [DatetimeReader] in
/-- Two reads of one filter differ in the position and the size only. -/
theorem readCiOutcomeSummaries_ok (hlaw : Collation.Lawful) {f : CiFilter} {limit : Nat}
    {first : List StoredOutcome}
    (h : readCiOutcomeSummaries s f none limit = .ok first)
    (before : Option (Datetime × String)) {limit' : Nat} (hlimit : 1 ≤ limit' ∧ limit' ≤ 101) :
    readCiOutcomeSummaries s f before limit' =
      .ok (((orderBy newestFirst (ciMatching s (some f))).filter (fun o =>
        before.all (behind · o))).take limit') := by
  unfold readCiOutcomeSummaries at h ⊢
  rw [if_neg (not_not.mpr hlimit)]
  split at h
  · cases h
  cases hkey : repositoryReadKey f.repositoryKey with
  | error e =>
    rw [hkey] at h
    cases h
  | ok key =>
    rw [hkey] at h
    simp only at h ⊢
    split at h
    · cases h
    rename_i hpr
    have hsplit : s.outcomes.filter (fun o => ciMatches s key f o && before.all (behind · o)) =
        (ciMatching s (some f)).filter (fun o => before.all (behind · o)) := by
      simp only [ciMatching, hkey]
      rw [List.filter_filter]
      exact List.filter_congr (fun o _ => Bool.and_comm _ _)
    have hids := ciMatching_distinct s (some f)
    rw [if_neg hpr, hsplit, orderBy_filter hlaw hids]

/-- Every page of an answered request is answered, and takes the front of what is left. -/
theorem queryCiFailures_serves (hlaw : Collation.Lawful) (hreader : DatetimeReader.Lawful)
    {f : CiFilter} (hfilter : ciFilter s orgId q = .ok (some f)) {limit : Nat}
    {first : List StoredOutcome} (hfirst : readCiOutcomeSummaries s f none limit = .ok first)
    {sizes : Nat → Nat} (hsizes : ∀ i, 1 ≤ sizes i ∧ sizes i ≤ 100) :
    Serves (fun i cursor => queryCiFailures s orgId depth q (sizes i) cursor)
      (CiLeft f (orderBy newestFirst (ciMatching s (some f)))) := by
  intro i cursor rest hleft
  have hsize := hsizes i
  have hdistinct := ciMatching_distinct s (some f)
  have hnewer := orderBy_newer hlaw hdistinct
  have hread : ∃ before, cursor.mapM (decodeCiCursor depth · (ciFilterKey f)) = .ok before ∧
      readCiOutcomeSummaries s f before (sizes i + 1) = .ok (rest.take (sizes i + 1)) := by
    rcases hleft with ⟨rfl, rfl⟩ | ⟨front, last, hrows, rfl⟩
    · refine ⟨none, rfl, ?_⟩
      rw [readCiOutcomeSummaries_ok hlaw hfirst none (by omega)]
      simp
    · refine ⟨some (last.capturedAt, last.outcomeId), ?_, ?_⟩
      · rw [Option.mapM_some, decodeCiCursor_encode hreader last.idValid (ciFilterKey_plain f),
          if_pos rfl]
        rfl
      · rw [readCiOutcomeSummaries_ok hlaw hfirst _ (by omega), hrows]
        rw [hrows] at hnewer
        exact congrArg (fun rows => Except.ok (rows.take (sizes i + 1)))
          (Keyset.filter_behind hnewer (newer_asymm hlaw))
  obtain ⟨before, hbefore, hrows⟩ := hread
  have hanswer : queryCiFailures s orgId depth q (sizes i) cursor =
      .ok (ciPage (ciFilterKey f) (sizes i) (rest.take (sizes i + 1))) := by
    simp only [queryCiFailures, hfilter, hbefore, hrows]
  refine ⟨_, hanswer, ?_⟩
  rcases ciPage_take (ciFilterKey f) hsize.1 rest with ⟨-, hpage⟩ | ⟨front', last', more, hrest, hpage⟩
  · rw [hpage]
  · rw [hpage]
    refine ⟨by simp, more, by rw [hrest, List.append_assoc, List.singleton_append], .inr ?_⟩
    rcases hleft with ⟨-, rfl⟩ | ⟨front, last, hsplit, -⟩
    · exact ⟨front', last', hrest, rfl⟩
    · exact ⟨front ++ last :: front', last', by rw [hsplit, hrest, List.append_assoc]; rfl, rfl⟩

/-- A page that names a cursor settled its filter, and bound the cursor to it. -/
theorem queryCiFailures_next {limit : Nat} {cursor : Option (List Char)}
    {page : Page StoredOutcome (List Char)} {next : List Char}
    (h : queryCiFailures s orgId depth q limit cursor = .ok page) (hnext : page.next = some next) :
    ∃ (f : CiFilter) (last : StoredOutcome), ciFilter s orgId q = .ok (some f) ∧
      next = encodeCiCursor last.capturedAt last.outcomeId (ciFilterKey f) ∧
      nonEmptyId last.outcomeId = some last.outcomeId := by
  unfold queryCiFailures at h
  cases hfilter : ciFilter s orgId q with
  | error e =>
    rw [hfilter] at h
    cases h
  | ok filter =>
    rw [hfilter] at h
    cases filter with
    | none =>
      simp only at h
      split at h
      · cases h
      · injection h with h
        rw [← h] at hnext
        cases hnext
    | some f =>
      simp only at h
      split at h
      · cases h
      split at h
      · cases h
      injection h with h
      rw [← h, ciPage] at hnext
      simp only at hnext
      split at hnext
      · obtain ⟨last, -, hlast⟩ := Option.map_eq_some_iff.mp hnext
        exact ⟨f, last, rfl, hlast.symm, last.idValid⟩
      · cases hnext

/-- A cursor bound to one filter is refused wherever another one, or none, is in force. -/
theorem queryCiFailures_refuses (hreader : DatetimeReader.Lawful) {capturedAt : Datetime}
    {outcomeId : String} (hid : nonEmptyId outcomeId = some outcomeId) {f : CiFilter}
    (hne : ciFilter s orgId q ≠ .ok (some f)) (limit : Nat) :
    ∃ e, queryCiFailures s orgId depth q limit
      (some (encodeCiCursor capturedAt outcomeId (ciFilterKey f))) = .error e := by
  cases hfilter : ciFilter s orgId q with
  | error e => exact ⟨e, by simp only [queryCiFailures, hfilter]⟩
  | ok filter =>
    cases filter with
    | none => exact ⟨foreignCursor, by simp only [queryCiFailures, hfilter]; rfl⟩
    | some g =>
      have hkey : ciFilterKey f ≠ ciFilterKey g := by
        intro heq
        rw [hfilter, ciFilterKey_inj heq] at hne
        exact hne rfl
      have hdecode : decodeCiCursor depth (encodeCiCursor capturedAt outcomeId (ciFilterKey f))
          (ciFilterKey g) = .error foreignCursor := by
        rw [decodeCiCursor_encode hreader hid (ciFilterKey_plain f), if_neg hkey]
      refine ⟨foreignCursor, ?_⟩
      simp only [queryCiFailures, hfilter, Option.mapM_some, hdecode]
      rfl

/-- A client that follows the cursors of an answered request, under any page sizes, meets every
matching outcome once, newest first, and comes to the end; a cursor gives back its position
where it was issued and is refused everywhere else. -/
theorem ci_pagination_complete (hlaw : Collation.Lawful) (hreader : DatetimeReader.Lawful)
    (depth : Nat) (s : CiStore) (orgId : String) (q : CiFailuresQuery) :
    (∀ sizes : Nat → Nat, (∀ i, 1 ≤ sizes i ∧ sizes i ≤ 100) →
      ∀ first, queryCiFailures s orgId depth q (sizes 0) none = .ok first →
      ∃ filter rows, ciFilter s orgId q = .ok filter ∧ rows.Perm (ciMatching s filter) ∧
        rows.Nodup ∧ rows.Pairwise (fun a b => newer a b = true) ∧
        ∀ n, rows.length < n →
          walk (fun i cursor => queryCiFailures s orgId depth q (sizes i) cursor) n 0 none =
            .ok (rows, true)) ∧
    (∀ (capturedAt : Datetime) (outcomeId : String) (f : CiFilter),
      nonEmptyId outcomeId = some outcomeId →
      decodeCiCursor depth (encodeCiCursor capturedAt outcomeId (ciFilterKey f)) (ciFilterKey f) =
        .ok (capturedAt, outcomeId)) ∧
    (∀ (s' : CiStore) (orgId' : String) (q' : CiFailuresQuery) (limit' : Nat)
      (cursor' : Option (List Char)) (page : Page StoredOutcome (List Char)) (next : List Char),
      queryCiFailures s' orgId' depth q' limit' cursor' = .ok page → page.next = some next →
      ciFilter s orgId q ≠ ciFilter s' orgId' q' →
      ∀ limit, ∃ e, queryCiFailures s orgId depth q limit (some next) = .error e) := by
  refine ⟨?_, ?_, ?_⟩
  · intro sizes hsizes first hfirst
    unfold queryCiFailures at hfirst
    cases hfilter : ciFilter s orgId q with
    | error e =>
      rw [hfilter] at hfirst
      cases hfirst
    | ok filter =>
      rw [hfilter] at hfirst
      cases filter with
      | none =>
        refine ⟨none, [], rfl, List.Perm.refl _, List.nodup_nil, List.Pairwise.nil, ?_⟩
        intro n hn
        obtain ⟨n, rfl⟩ := Nat.exists_eq_add_one_of_ne_zero (by omega : n ≠ 0)
        simp only [walk, queryCiFailures, hfilter]
        rfl
      | some f =>
        simp only [Option.mapM_none, pure, Except.pure] at hfirst
        split at hfirst
        · cases hfirst
        rename_i outcomes hread
        have hdistinct := ciMatching_distinct s (some f)
        have hnewer := orderBy_newer hlaw hdistinct
        have hperm := List.perm_insertionSort (fun a b : StoredOutcome => newestFirst a b = true)
          (ciMatching s (some f))
        have hnodup : (ciMatching s (some f)).Nodup :=
          hdistinct.imp (fun hne heq => hne (by rw [heq]))
        refine ⟨some f, orderBy newestFirst (ciMatching s (some f)), rfl, hperm,
          hperm.nodup_iff.mpr hnodup, hnewer, ?_⟩
        intro n hn
        exact Keyset.walk_complete (queryCiFailures_serves hlaw hreader hfilter hread hsizes) n 0
          none _ (.inl ⟨rfl, rfl⟩) hn
  · intro capturedAt outcomeId f hid
    rw [decodeCiCursor_encode hreader hid (ciFilterKey_plain f), if_pos rfl]
  · intro s' orgId' q' limit' cursor' page next hpage hnext hne limit
    obtain ⟨f, last, hfilter, hcursor, hid⟩ := queryCiFailures_next hpage hnext
    rw [hfilter] at hne
    rw [hcursor]
    exact queryCiFailures_refuses hreader hid hne limit

end

abbrev wholeReader : DatetimeReader :=
  ⟨fun t => (readIsoformat (t.map Char.ofNat)).map .aware⟩

abbrev byteCollation : Collation := ⟨fun a b => decide (a ≤ b)⟩

theorem wholeReader_lawful : @DatetimeReader.Lawful wholeReader := by
  intro d
  change (readIsoformat (d.isoText.map Char.ofNat)).map PyDatetime.aware = _
  rw [Datetime.isoText, map_ofNat_toNat, readIsoformat_isoformat]
  rfl

theorem byteCollation_lawful : @Collation.Lawful byteCollation := by
  let _ : Collation := byteCollation
  constructor
  · intro a b
    simp only [Collation.le, decide_eq_true_eq]
    exact le_total a b
  · intro a b c hab hbc
    simp only [Collation.le, decide_eq_true_eq] at hab hbc ⊢
    exact le_trans hab hbc
  · intro a b hab hba
    simp only [Collation.le, decide_eq_true_eq] at hab hba
    exact le_antisymm hab hba

theorem early_range : wallMin ≤ 1000000 ∧ (1000000 : Int) ≤ wallMax := by decide

theorem start_range : wallMin ≤ 0 ∧ (0 : Int) ≤ wallMax := by decide

theorem late_range : wallMin ≤ 2000000 ∧ (2000000 : Int) ≤ wallMax := by decide

def earlyTime : Datetime := ⟨1000000, 0, early_range, Datetime.zero_offset⟩

theorem firstFailure_id : nonEmptyId "a" = some "a" := by decide +kernel

theorem secondFailure_id : nonEmptyId "b" = some "b" := by decide +kernel

def failureRow (id : String) (h : nonEmptyId id = some id) : StoredOutcome where
  outcomeId := id
  orgId := "acme"
  repo := ⟨"acme/app", none, none, none⟩
  result := .failed
  workflowName := "CI"
  prNumber := none
  capturedAt := earlyTime
  idValid := h

theorem twoFailures_ids : [failureRow "a" firstFailure_id, failureRow "b" secondFailure_id].Pairwise
    (fun a b => a.outcomeId ≠ b.outcomeId) := by
  simp [failureRow]

theorem noFacts_key : ([] : List StoredFact).Pairwise
    (fun a b => a.table = b.table → a.factId ≠ b.factId) := List.Pairwise.nil

def twoFailures : CiStore where
  repository := ⟨[], [], [], noFacts_key, List.Pairwise.nil, by simp⟩
  outcomes := [failureRow "a" firstFailure_id, failureRow "b" secondFailure_id]
  primaryKey := twoFailures_ids

def failuresQuery : CiFailuresQuery where
  capturedAfter := ⟨0, 0, start_range, Datetime.zero_offset⟩
  capturedBefore := ⟨2000000, 0, late_range, Datetime.zero_offset⟩
  repo := some "acme/app"

theorem twoFailures_first :
    letI : Interpreter := ⟨id⟩
    letI : Collation := byteCollation
    letI : DatetimeReader := wholeReader
    (queryCiFailures twoFailures "acme" 10 failuresQuery 1 none).toBool = true := by
  decide +kernel

/-- Two failures of one instant, one page each. -/
theorem tied_failures_paged :
    letI : Interpreter := ⟨id⟩
    letI : Collation := byteCollation
    letI : DatetimeReader := wholeReader
    ∃ rows filter, ciFilter twoFailures "acme" failuresQuery = .ok filter ∧
      rows.Perm (ciMatching twoFailures filter) ∧
      ∀ n, rows.length < n → walk (fun _ cursor =>
        queryCiFailures twoFailures "acme" 10 failuresQuery 1 cursor) n 0 none = .ok (rows, true) := by
  let _ : Interpreter := ⟨id⟩
  let _ : Collation := byteCollation
  let _ : DatetimeReader := wholeReader
  obtain ⟨hwalk, -, -⟩ := ci_pagination_complete byteCollation_lawful wholeReader_lawful 10
    twoFailures "acme" failuresQuery
  have hok := twoFailures_first
  cases hfirst : queryCiFailures twoFailures "acme" 10 failuresQuery 1 none with
  | error e =>
    rw [hfirst] at hok
    cases hok
  | ok first =>
    obtain ⟨filter, rows, hfilter, hperm, -, -, hn⟩ := hwalk (fun _ => 1) (by simp) first hfirst
    exact ⟨rows, filter, hfilter, hperm, hn⟩

end Sediment.Proofs.CiPagination
