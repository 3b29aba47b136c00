import Sediment.Base.Results
import Sediment.Export.DiffSft
import Sediment.Proofs.GatewayTotal
import Sediment.Proofs.LabelConfidence
import Sediment.Proofs.RepositoryContext

namespace Sediment.Proofs.DiffSft
open Sediment.Base Sediment.Core Sediment.Derive Sediment.Export
open Sediment.Derive.Diff (DiffSkipReason DiffSection DiffParseResult parseDiffSections)

variable {digest : CIResolutionPolicy → String} {context : Option RepositoryContext}
variable {policy : SFTPolicy} {mirrors : Mirrors}

/-- The diff that a mirror has of a commit. -/
def commitDiff (mirrors : Mirrors) (commit : CommitKey) : Option (List Char) :=
  (mirrors commit.repository).bind (fun mirror => mirror.fetchCommitDiff commit.commitSha)

/-- What parsing the commit's diff once counts. -/
def diffSkips (mirrors : Mirrors) (commit : CommitKey) (reason : DiffSkipReason) : Nat :=
  ((commitDiff mirrors commit).bind
    (fun rawDiff => (parseDiffSections rawDiff).skipped.get? reason)).getD 0

/-- What the parsing has come to when it has parsed these commits, in this order: the last one
is held, and each is counted once. -/
structure Parsed (mirrors : Mirrors) (commits : List CommitKey) (s : Parsing) : Prop where
  ascending : commits.Pairwise (fun a b => commitSortKey a < commitSortKey b)
  held : ∀ commit parsed, s.parsedCommits.get? commit = some parsed →
    ∃ rawDiff, commitDiff mirrors commit = some rawDiff ∧ parsed = parseDiffSections rawDiff
  last : ∀ commit ∈ commits.getLast?, (s.parsedCommits.get? commit).isSome
  skipped : ∀ reason, s.skipped reason = (commits.map (diffSkips mirrors · reason)).sum

/-- In a run that visits commits in ascending order, a commit that is not held has not been
parsed. -/
theorem fresh_commit {commits : List CommitKey} {s : Parsing} {commit : CommitKey}
    (h : Parsed mirrors commits s)
    (hvisit : ∀ c ∈ commits, commitSortKey c ≤ commitSortKey commit)
    (hnone : s.parsedCommits.get? commit = none) :
    ∀ c ∈ commits, commitSortKey c < commitSortKey commit := by
  intro c hc
  apply lt_of_le_of_ne (hvisit c hc)
  intro heq
  have hsame := RepositoryContext.commitSortKey_injective heq
  subst hsame
  obtain ⟨before, after, rfl⟩ := List.append_of_mem hc
  rcases List.eq_nil_or_concat after with rfl | ⟨middle, final, rfl⟩
  · have hheld := h.last c (by simp)
    rw [hnone] at hheld
    cases hheld
  · have hlater : commitSortKey c < commitSortKey final :=
      (List.pairwise_cons.mp (List.pairwise_append.mp h.ascending).2.1).1 final (by simp)
    exact absurd (hvisit final (by simp)) (not_le.mpr hlater)

/-- One look at a commit's sections: they are those of its diff, and it joins the commits that
are parsed at most once. -/
theorem parsed_sections {commits : List CommitKey} {s s' : Parsing} {commit : CommitKey}
    {mirror : DiffMirror} {outcome : Except DiffSFTSkipReason (List DiffSection)}
    (h : Parsed mirrors commits s)
    (hvisit : ∀ c ∈ commits, commitSortKey c ≤ commitSortKey commit)
    (hmirror : mirrors commit.repository = some mirror)
    (hs : s.sections commit mirror = (s', outcome)) :
    (Parsed mirrors commits s' ∨ Parsed mirrors (commits ++ [commit]) s') ∧
    ∀ sections, outcome = .ok sections → ∃ rawDiff, commitDiff mirrors commit = some rawDiff ∧
      sections = (parseDiffSections rawDiff).sections := by
  unfold Parsing.sections at hs
  cases hheld : s.parsedCommits.get? commit with
  | some parsed =>
    rw [hheld] at hs
    cases hs
    refine ⟨Or.inl h, ?_⟩
    intro sections hsections
    cases hsections
    obtain ⟨rawDiff, hraw, rfl⟩ := h.held commit parsed hheld
    exact ⟨rawDiff, hraw, rfl⟩
  | none =>
    rw [hheld] at hs
    cases hraw : mirror.fetchCommitDiff commit.commitSha with
    | none =>
      rw [hraw] at hs
      cases hs
      exact ⟨Or.inl h, fun _ hsections => by cases hsections⟩
    | some rawDiff =>
      rw [hraw] at hs
      simp only at hs
      split at hs
      · cases hs
        exact ⟨Or.inl h, fun _ hsections => by cases hsections⟩
      · cases hs
        have hdiff : commitDiff mirrors commit = some rawDiff := by
          rw [commitDiff, hmirror, Option.bind_some, hraw]
        have hfresh := fresh_commit h hvisit hheld
        refine ⟨Or.inr ⟨?_, ?_, ?_, ?_⟩, ?_⟩
        · refine List.pairwise_append.mpr ⟨h.ascending, List.pairwise_singleton _ _, ?_⟩
          intro c hc c' hc'
          rw [List.mem_singleton.mp hc']
          exact hfresh c hc
        · intro c parsed hparsed
          rw [Dict.get?_set] at hparsed
          split at hparsed
          · rename_i heq
            cases hparsed
            exact ⟨rawDiff, heq ▸ hdiff, rfl⟩
          · cases hparsed
        · intro c hc
          rw [List.getLast?_concat] at hc
          cases hc
          rw [Dict.get?_set, if_pos rfl]
          rfl
        · intro reason
          rw [List.map_append, List.sum_append, ← h.skipped reason]
          simp [diffSkips, hdiff]
        · intro sections hsections
          cases hsections
          exact ⟨rawDiff, hdiff, rfl⟩

/-- The sections of a diff that a group is attributed, as one text. -/
def attributedPatch (group : List CompletionFields) (sections : List DiffSection) : List Char :=
  (sections.filter (fun s => attributedTo group s.filePath)).flatMap DiffSection.patch

theorem attributedPatch_perm {group group' : List CompletionFields} (h : group.Perm group')
    (sections : List DiffSection) :
    attributedPatch group sections = attributedPatch group' sections := by
  unfold attributedPatch
  congr 2
  funext s
  exact Bool.eq_iff_iff.mpr (by simp [attributedTo, h.mem_iff])

theorem selectedPatch_ok {members : List CompletionFields} {sections : List DiffSection}
    {patch : List Char} (h : selectedPatch members sections = .ok patch) :
    (∀ row ∈ members, ∃ s ∈ sections, s.filePath = row.path.toList) ∧
    patch = attributedPatch members sections := by
  unfold selectedPatch at h
  split at h
  · cases h
  · rename_i hany
    cases h
    refine ⟨?_, rfl⟩
    intro row hrow
    by_contra hnone
    refine hany (List.any_eq_true.mpr ⟨row, hrow, List.all_eq_true.mpr ?_⟩)
    intro s hs
    exact decide_eq_true (fun heq => hnone ⟨s, hs, heq⟩)

theorem partner_of_mem {α β : Type} {R : α → β → Prop} {xs : List α} {ys : List β}
    (h : List.Forall₂ R xs ys) {x : α} (hx : x ∈ xs) : ∃ y ∈ ys, R x y := by
  induction h with
  | nil => cases hx
  | cons hxy _ ih =>
    rcases List.mem_cons.mp hx with rfl | hx
    · exact ⟨_, by simp, hxy⟩
    · obtain ⟨y, hy, hr⟩ := ih hx
      exact ⟨y, List.mem_cons_of_mem _ hy, hr⟩

theorem oneSource_all {sources : List SFTEligibilitySource} {source : SFTEligibilitySource}
    (h : oneSource sources = some source) : ∀ other ∈ sources, other = source := by
  cases sources with
  | nil => cases h
  | cons first rest =>
    simp only [oneSource] at h
    by_cases hall : rest.all (· = first) = true
    · rw [if_pos hall] at h
      cases h
      intro other hother
      rcases List.mem_cons.mp hother with heq | hrest
      · exact heq
      · simpa using List.all_eq_true.mp hall other hrest
    · rw [if_neg hall] at h
      cases h

section
variable [Interpreter]

/-- The rows that stand for one call and commit, in the order of the population. -/
def groupRows (rows : List CompletionFields) (key : GroupKey) : List CompletionFields :=
  rows.filter (fun row => row.abandonment.isNone && (groupKey row).toOption = some key)

/-- A row with its key, unless it is abandoned. -/
def keyed (row : CompletionFields) : Option (GroupKey × CompletionFields) :=
  if row.abandonment.isSome then none else (groupKey row).toOption.map (fun key => (key, row))

theorem grouping_groups {rows : List CompletionFields} {s : Grouping}
    (h : rows.foldlM Grouping.add {} = .ok s) :
    s.groups = Dict.empty.gather (rows.filterMap keyed) := by
  have hrun := foldlM_induct
    (fun seen (s : Grouping) => s.groups = Dict.empty.gather (seen.filterMap keyed)) rfl (by
      intro seen row s s' hs hadd
      rw [List.filterMap_append, Dict.gather, List.foldl_append]
      unfold Grouping.add at hadd
      split at hadd
      · rename_i habandoned
        cases hadd
        rw [hs]
        simp [keyed, habandoned, Dict.gather]
      · rename_i habandoned
        split at hadd
        · cases hadd
        · rename_i key hkey
          cases hadd
          have hrow : keyed row = some (key, row) := by
            unfold keyed
            rw [if_neg habandoned, hkey]
            rfl
          rw [List.filterMap_cons_some hrow, List.filterMap_nil, hs]
          rfl) h
  exact hrun

theorem groupRows_eq (rows : List CompletionFields) (key : GroupKey) :
    groupRows rows key = ((rows.filterMap keyed).filter (fun p => p.1 = key)).map Prod.snd := by
  rw [List.filter_filterMap, List.map_filterMap, groupRows, ← List.filterMap_eq_filter]
  congr 1
  funext row
  cases habandoned : row.abandonment with
  | some a => simp [keyed, Option.guard, habandoned]
  | none =>
    cases hkey : groupKey row with
    | error e => simp [keyed, Option.guard, habandoned, hkey, Except.toOption]
    | ok own =>
      by_cases hown : own = key
      · simp [keyed, Option.guard, habandoned, hkey, Except.toOption, hown]
      · simp [keyed, Option.guard, habandoned, hkey, Except.toOption, hown]

/-- Each group of a population holds exactly the rows of its key. -/
theorem mem_groups {rows : List CompletionFields} {s : Grouping}
    (h : rows.foldlM Grouping.add {} = .ok s) {key : GroupKey} {group : List CompletionFields}
    (hgroup : (key, group) ∈ s.groups.entries) :
    group = groupRows rows key ∧ group ≠ [] := by
  rw [grouping_groups h, Dict.mem_entries_gather] at hgroup
  obtain ⟨⟨row, hrow⟩, rfl⟩ := hgroup
  rw [groupRows_eq]
  refine ⟨rfl, List.ne_nil_of_mem (a := row) ?_⟩
  exact List.mem_map.mpr ⟨(key, row), List.mem_filter.mpr ⟨hrow, by simp⟩, rfl⟩

theorem memberSources_ok {members : List CompletionFields} {sources : List SFTEligibilitySource}
    (h : memberSources digest context policy members = .ok (.ok sources)) :
    List.Forall₂ (fun m source => eligibilitySource digest context policy m = .ok (.ok source))
      members sources := by
  induction members generalizing sources with
  | nil =>
    unfold memberSources at h
    cases h
    exact List.Forall₂.nil
  | cons m rest ih =>
    unfold memberSources at h
    split at h
    · cases h
    · cases h
    · rename_i source hsource
      split at h
      · cases h
      · cases h
      · rename_i others hothers
        cases h
        exact List.Forall₂.cons hsource (ih hothers)

variable {φ : Type}

/-- What a draft holds of its group. -/
structure Drafted (digest : CIResolutionPolicy → String) (context : Option RepositoryContext)
    (policy : SFTPolicy) (group : List CompletionFields) (d : Draft φ) : Prop where
  members : d.members.Perm group
  eligible : ∀ row ∈ group, eligibilitySource digest context policy row = .ok (.ok d.source)
  confident : ∀ row ∈ group, ∃ c,
    resolveConfidence digest context policy.labelConfidence row = .ok (some c) ∧ d.confidence ≤ c
  attained : ∃ row ∈ group,
    resolveConfidence digest context policy.labelConfidence row = .ok (some d.confidence)

section
variable [Captured.PyFloat φ] {calls : Calls φ}

theorem confidentDraft_ok {callId repo : String} {first : CompletionFields}
    {members : List CompletionFields} {source : SFTEligibilitySource} {ci : CIResolutionResult}
    {d : Draft φ}
    (h : confidentDraft digest context policy calls callId repo first members source ci =
      .ok (.ok d)) :
    d.members = members ∧ d.source = source ∧
    (∀ row ∈ members, ∃ c,
      resolveConfidence digest context policy.labelConfidence row = .ok (some c) ∧
        d.confidence ≤ c) ∧
    ∃ row ∈ members,
      resolveConfidence digest context policy.labelConfidence row = .ok (some d.confidence) := by
  unfold confidentDraft at h
  split at h
  · cases h
  · rename_i options hoptions
    split at h
    · cases h
    · rename_i confidences hall
      split at h
      · cases h
      · rename_i least hleast
        split at h
        · cases h
        · split at h
          · cases h
          · cases h
            have hread := forall₂_of_mapM_ok hoptions
            have hsome : options = confidences.map some := by
              clear hread hoptions hleast
              induction options generalizing confidences with
              | nil => cases hall; rfl
              | cons o options ih =>
                rw [List.mapM_cons] at hall
                cases o with
                | none => cases hall
                | some c =>
                  cases hrest : options.mapM id with
                  | none =>
                    rw [hrest] at hall
                    cases hall
                  | some cs =>
                    rw [hrest] at hall
                    cases hall
                    rw [ih cs hrest, List.map_cons]
            obtain ⟨hmem, hle⟩ := List.min?_eq_some_iff.mp hleast
            refine ⟨rfl, rfl, ?_, ?_⟩
            · intro row hrow
              obtain ⟨o, ho, hresolve⟩ := partner_of_mem hread hrow
              rw [hsome] at ho
              obtain ⟨c, hc, rfl⟩ := List.mem_map.mp ho
              exact ⟨c, hresolve, hle c hc⟩
            · exact (mem_of_mapM_ok hoptions (some least)).mp
                (hsome ▸ List.mem_map_of_mem hmem)

theorem draft_ok {key : GroupKey} {group : List CompletionFields} {drafting : Drafting φ}
    {d : Draft φ} (h : draft digest context policy calls key group = .ok drafting)
    (hd : drafting.outcome = .ok d) : Drafted digest context policy group d := by
  have hperm := sortedBy_perm CompletionFields.path group
  unfold draft at h
  simp only at h
  generalize sortedBy CompletionFields.path group = members at h hperm
  split at h
  · cases h
    cases hd
  · split at h
    · cases h
    · split at h
      · cases h
      · split at h
        · cases h
          cases hd
        · split at h
          · cases h
            cases hd
          · split at h
            · cases h
            · split at h
              · cases h
              · cases h
                cases hd
              · rename_i first rest _ _ ci _ sources hsources
                split at h
                · cases h
                  cases hd
                · rename_i source hsource
                  split at h
                  · cases h
                  · rename_i outcome houtcome
                    cases h
                    cases hd
                    obtain ⟨hmembers, hown, hconfident, hattained⟩ := confidentDraft_ok houtcome
                    refine ⟨hmembers ▸ hperm, ?_, ?_, ?_⟩
                    · intro row hrow
                      obtain ⟨other, hother, heligible⟩ :=
                        partner_of_mem (memberSources_ok hsources) (hperm.mem_iff.mpr hrow)
                      rw [heligible, hown, oneSource_all hsource other hother]
                    · intro row hrow
                      exact hconfident row (hperm.mem_iff.mpr hrow)
                    · obtain ⟨row, hrow, hresolve⟩ := hattained
                      exact ⟨row, hperm.mem_iff.mp hrow, hresolve⟩

end

/-- A sample of the group of one call and commit. -/
structure Exact (digest : CIResolutionPolicy → String) (context : Option RepositoryContext)
    (policy : SFTPolicy) (mirrors : Mirrors) (key : GroupKey) (group : List CompletionFields)
    (sample : DiffSFTSample φ) : Prop where
  member : group ≠ []
  call : sample.metadata.completionId = key.1
  commit : sample.metadata.commitSha = key.2.commitSha
  eligible : ∀ row ∈ group, eligibilitySource digest context policy row =
    .ok (.ok sample.metadata.eligibilitySource)
  confident : ∀ row ∈ group, ∃ c, resolveConfidence digest context policy.labelConfidence row =
    .ok (some c) ∧ sample.metadata.labelConfidence ≤ c
  attained : ∃ row ∈ group, resolveConfidence digest context policy.labelConfidence row =
    .ok (some sample.metadata.labelConfidence)
  patch : ∃ rawDiff, commitDiff mirrors key.2 = some rawDiff ∧
    (∀ row ∈ group, ∃ s ∈ (parseDiffSections rawDiff).sections, s.filePath = row.path.toList) ∧
    sample.completion = [.assistant none
      (some ((attributedPatch group (parseDiffSections rawDiff).sections).map Char.toNat)) []]

theorem patchDraft_spec {key : GroupKey} {group : List CompletionFields} {d : Draft φ}
    {commits : List CommitKey} {s : Parsing} (h : Parsed mirrors commits s)
    (hvisit : ∀ c ∈ commits, commitSortKey c ≤ commitSortKey key.2)
    (hd : Drafted digest context policy group d) (hgroup : group ≠ []) :
    (Parsed mirrors commits (patchDraft context policy mirrors key s d).1 ∨
      Parsed mirrors (commits ++ [key.2]) (patchDraft context policy mirrors key s d).1) ∧
    ∀ sample, (patchDraft context policy mirrors key s d).2 = .ok sample →
      Exact digest context policy mirrors key group sample := by
  unfold patchDraft
  cases hmirror : mirrors key.2.repository with
  | none => exact ⟨Or.inl h, fun _ hsample => by cases hsample⟩
  | some mirror =>
    simp only
    cases hlook : s.sections key.2 mirror with
    | mk parsing outcome =>
    obtain ⟨hparsed, hsections⟩ := parsed_sections h hvisit hmirror hlook
    cases outcome with
    | error reason => exact ⟨hparsed, fun _ hsample => by cases hsample⟩
    | ok sections =>
      obtain ⟨rawDiff, hraw, rfl⟩ := hsections sections rfl
      simp only
      cases hpatch : selectedPatch d.members (parseDiffSections rawDiff).sections with
      | error reason => exact ⟨hparsed, fun _ hsample => by cases hsample⟩
      | ok patch =>
        refine ⟨hparsed, ?_⟩
        intro sample hsample
        obtain ⟨havailable, rfl⟩ := selectedPatch_ok hpatch
        simp only [Draft.sample] at hsample
        cases hmodel : ofMapping (validateText d.model) with
        | error reason =>
          rw [hmodel] at hsample
          cases hsample
        | ok u =>
          rw [hmodel] at hsample
          cases hsample
          refine
            { member := hgroup
              call := rfl
              commit := rfl
              eligible := hd.eligible
              confident := hd.confident
              attained := hd.attained
              patch := ⟨rawDiff, hraw, ?_, ?_⟩ }
          · intro row hrow
            exact havailable row (hd.members.mem_iff.mpr hrow)
          · rw [attributedPatch_perm hd.members]

/-- What a run has come to when it has visited these groups. -/
structure Projected (digest : CIResolutionPolicy → String) (context : Option RepositoryContext)
    (policy : SFTPolicy) (mirrors : Mirrors) (visited : List (GroupKey × List CompletionFields))
    (s : DiffSFTState φ) : Prop where
  parsed : ∃ commits, Parsed mirrors commits s.parsing ∧
    ∀ c ∈ commits, ∃ group ∈ visited, group.1.2 = c
  rows : ∃ emitted : List ((GroupKey × List CompletionFields) × DiffSFTSample φ),
    (emitted.map Prod.fst).Sublist visited ∧ emitted.map Prod.snd = s.rows ∧
    ∀ pair ∈ emitted, Exact digest context policy mirrors pair.1.1 pair.1.2 pair.2

theorem projected_start {declined : DiffSFTSkipReason → Nat} :
    Projected (φ := φ) digest context policy mirrors [] { declined } := by
  refine ⟨⟨[], ⟨List.Pairwise.nil, ?_, ?_, ?_⟩, ?_⟩, ⟨[], List.Sublist.refl _, rfl, ?_⟩⟩
  · intro commit parsed hheld
    cases hheld
  · intro commit hcommit
    cases hcommit
  · intro reason
    rfl
  · intro commit hcommit
    cases hcommit
  · intro pair hpair
    cases hpair

variable [Captured.PyFloat φ] {calls : Calls φ}

theorem projected_step {visited : List (GroupKey × List CompletionFields)}
    {group : GroupKey × List CompletionFields} {s s' : DiffSFTState φ}
    (h : Projected digest context policy mirrors visited s)
    (horder : ∀ other ∈ visited, commitSortKey other.1.2 ≤ commitSortKey group.1.2)
    (hgroup : group.2 ≠ [])
    (hs : DiffSFTState.step digest context policy calls mirrors s group = .ok s') :
    Projected digest context policy mirrors (visited ++ [group]) s' := by
  obtain ⟨⟨commits, hparsed, hfrom⟩, ⟨emitted, hsub, hrows, hexact⟩⟩ := h
  have hkept : ∀ c ∈ commits, ∃ other ∈ visited ++ [group], other.1.2 = c := by
    intro c hc
    obtain ⟨other, hother, heq⟩ := hfrom c hc
    exact ⟨other, List.mem_append_left _ hother, heq⟩
  have hsame : (emitted.map Prod.fst).Sublist (visited ++ [group]) :=
    hsub.trans (List.sublist_append_left _ _)
  unfold DiffSFTState.step at hs
  split at hs
  · cases hs
  · rename_i drafting hdraft
    simp only at hs
    split at hs
    · cases hs
      exact ⟨⟨commits, hparsed, hkept⟩, ⟨emitted, hsame, hrows, hexact⟩⟩
    · rename_i d houtcome
      have hvisit : ∀ c ∈ commits, commitSortKey c ≤ commitSortKey group.1.2 := by
        intro c hc
        obtain ⟨other, hother, rfl⟩ := hfrom c hc
        exact horder other hother
      obtain ⟨hparsing, hsample⟩ :=
        patchDraft_spec hparsed hvisit (draft_ok hdraft houtcome) hgroup
      cases hs
      have hcommits : ∃ commits, Parsed mirrors commits
          (patchDraft context policy mirrors group.1 s.parsing d).1 ∧
          ∀ c ∈ commits, ∃ other ∈ visited ++ [group], other.1.2 = c := by
        rcases hparsing with hparsing | hparsing
        · exact ⟨commits, hparsing, hkept⟩
        · refine ⟨commits ++ [group.1.2], hparsing, ?_⟩
          intro c hc
          rcases List.mem_append.mp hc with hc | hc
          · exact hkept c hc
          · exact ⟨group, by simp, (List.mem_singleton.mp hc).symm⟩
      cases hpatched : (patchDraft context policy mirrors group.1 s.parsing d).2 with
      | error reason => exact ⟨hcommits, ⟨emitted, hsame, hrows, hexact⟩⟩
      | ok sample =>
        refine ⟨hcommits, ⟨emitted ++ [(group, sample)], ?_, ?_, ?_⟩⟩
        · rw [List.map_append]
          exact hsub.append (List.Sublist.refl _)
        · rw [List.map_append, hrows]
          rfl
        · intro pair hpair
          rcases List.mem_append.mp hpair with hpair | hpair
          · exact hexact pair hpair
          · rw [List.mem_singleton.mp hpair]
            exact hsample sample hpatched

theorem projected_run {groups : List (GroupKey × List CompletionFields)} {s s' : DiffSFTState φ}
    (hstart : Projected digest context policy mirrors [] s)
    (horder : groups.Pairwise (fun a b => commitSortKey a.1.2 ≤ commitSortKey b.1.2))
    (hgroups : ∀ group ∈ groups, group.2 ≠ [])
    (hs : groups.foldlM (DiffSFTState.step digest context policy calls mirrors) s = .ok s') :
    Projected digest context policy mirrors groups s' := by
  have hcases := foldlM_cases (Projected digest context policy mirrors) (fun _ => True) groups
    (f := DiffSFTState.step digest context policy calls mirrors) hstart (by
      intro visited group rest st hsplit hst
      cases hstep : DiffSFTState.step digest context policy calls mirrors st group with
      | error e => exact Or.inl ⟨e, trivial, rfl⟩
      | ok st' =>
        refine Or.inr ⟨st', rfl, projected_step hst ?_ ?_ hstep⟩
        · intro other hother
          rw [← hsplit] at horder
          exact (List.pairwise_append.mp horder).2.2 other hother group (by simp)
        · exact hgroups group (by rw [← hsplit]; simp))
  rcases hcases with ⟨e, -, he⟩ | ⟨out, hout, hprojected⟩
  · rw [hs] at he
    cases he
  · rw [hs] at hout
    cases hout
    exact hprojected

/-- Every sample is the one sample of its call and commit, and holds exactly the attributed part
of the commit's diff; the skips are those of a set of commits, each counted once. -/
theorem diff_sft_exact (digest : CIResolutionPolicy → String)
    (context : Option RepositoryContext) (policy : SFTPolicy) (calls : Calls φ)
    (mirrors : Mirrors) (rows : List AttributedCompletion) (p : DiffSFTProjection φ)
    (h : projectDiffSft digest context policy calls mirrors rows = .ok p) :
    (∃ emitted : List (GroupKey × DiffSFTSample φ),
      (emitted.map Prod.fst).Nodup ∧ (emitted.map Prod.snd).Perm p.rows ∧
      ∀ pair ∈ emitted, Exact digest context policy mirrors pair.1
        (groupRows (rows.map AttributedCompletion.toCompletionFields) pair.1) pair.2) ∧
    ∃ commits : List CommitKey, commits.Nodup ∧
      (∀ c ∈ commits, ∃ callId,
        groupRows (rows.map AttributedCompletion.toCompletionFields) (callId, c) ≠ []) ∧
      ∀ reason, p.skipped (.diff reason) = (commits.map (diffSkips mirrors · reason)).sum := by
  unfold projectDiffSft at h
  split at h
  · cases h
  · rename_i grouping hgrouping
    simp only at h
    split at h
    · cases h
    · rename_i s hrun
      cases h
      have hentry : ∀ group ∈ sortedBy groupOrder grouping.groups.entries,
          group.2 = groupRows (rows.map AttributedCompletion.toCompletionFields) group.1 ∧
            group.2 ≠ [] := by
        intro group hgroup
        exact mem_groups hgrouping (mem_sortedBy.mp hgroup)
      have horder : (sortedBy groupOrder grouping.groups.entries).Pairwise
          (fun a b => commitSortKey a.1.2 ≤ commitSortKey b.1.2) :=
        (sortedBy_pairwise groupOrder _).imp (fun hle => (Prod.Lex.monotone_fst _ _ hle))
      obtain ⟨⟨commits, hparsed, hfrom⟩, ⟨emitted, hsub, hemitted, hexact⟩⟩ :=
        projected_run projected_start horder (fun group hgroup => (hentry group hgroup).2) hrun
      constructor
      · refine ⟨emitted.map (fun pair => (pair.1.1, pair.2)), ?_, ?_, ?_⟩
        · rw [List.map_map]
          have hkeys := (hsub.map Prod.fst).nodup
            (((sortedBy_perm groupOrder _).map Prod.fst).nodup_iff.mpr grouping.groups.nodup)
          rwa [List.map_map] at hkeys
        · rw [List.map_map]
          change (emitted.map Prod.snd).Perm _
          rw [hemitted]
          exact (sortedBy_perm rowOrder s.rows).symm
        · intro pair hpair
          obtain ⟨source, hsource, rfl⟩ := List.mem_map.mp hpair
          have hvisited := hsub.subset (List.mem_map_of_mem hsource)
          rw [← (hentry _ hvisited).1]
          exact hexact source hsource
      · refine ⟨commits, hparsed.ascending.imp (fun hlt heq => ?_), ?_, hparsed.skipped⟩
        · exact absurd (heq ▸ hlt) (lt_irrefl _)
        · intro c hc
          obtain ⟨group, hgroup, rfl⟩ := hfrom c hc
          refine ⟨group.1.1, ?_⟩
          rw [← (hentry group hgroup).1]
          exact (hentry group hgroup).2

end

open Sediment.Base.JsonScan Sediment.Proofs.LabelConfidence Sediment.Proofs.GatewayTotal

/-- One accepted file of a call, at one commit. -/
def acceptedBy (callId : String) : AttributedCompletion :=
  { stampedFields [gesture true true] with
    inferenceCallId := callId
    commitSha := some "6d1f3f5b0c3a4d2e8f7a9b1c0d2e4f6a8b0c1d3e"
    variant := ⟨rfl, rfl, rfl, rfl, rfl⟩
    scores := by
      intro d hd score hs
      have hd' := List.mem_singleton.mp hd
      subst hd'
      cases hs }

/-- A mirror whose one diff adds a line to the attributed file, and breaks off in another. -/
def brokenOff : DiffMirror where
  fetchCommitDiff _ := some
    "diff --git a/f b/f\n--- a/f\n+++ b/f\n@@ -0,0 +1 @@\n+x\ndiff --git a/g b/g\n".toList

/-- A call that was asked nothing. -/
def unprompted : Captured.InferenceCall ℚ :=
  { inferenceCallId := codePoints "c1", orgId := codePoints "o", sessionId := codePoints "s"
    userId := none, gatewayProvider := .litellm, modelProvider := none
    model := some (codePoints "m"), inputMessages := [], outputMessages := []
    inputTokens := none, outputTokens := none, durationMs := none, modelCallId := none
    observedAt := someInstant, raw := [] }

/-- The calls of a projection's samples, and the sections that it counted as malformed. -/
def readOut (p : DiffSFTProjection ℚ) : List String × Nat :=
  (p.rows.map (fun row => row.metadata.completionId), p.skipped (.diff .malformedDiffSection))

/-- Both calls have their sample, and the broken section counts once. -/
theorem shared_commit_counted_once :
    letI : Interpreter := ⟨id⟩
    letI := exactFloat
    ∃ p, projectDiffSft (fun _ => "") none {} (fun _ => some unprompted)
        (fun _ => some brokenOff) [acceptedBy "c2", acceptedBy "c1"] = .ok p ∧
      readOut p = (["c1", "c2"], 1) ∧
      ∃ emitted : List (GroupKey × DiffSFTSample ℚ), (emitted.map Prod.snd).Perm p.rows ∧
        ∀ pair ∈ emitted, Exact (fun _ => "") none {} (fun _ => some brokenOff) pair.1
          (groupRows ([acceptedBy "c2", acceptedBy "c1"].map
            AttributedCompletion.toCompletionFields) pair.1) pair.2 := by
  let _ : Interpreter := ⟨id⟩
  let _ := exactFloat
  have hread : (projectDiffSft (fun _ => "") none {} (fun _ => some unprompted)
      (fun _ => some brokenOff) [acceptedBy "c2", acceptedBy "c1"]).toOption.map readOut =
      some (["c1", "c2"], 1) := by
    decide +kernel
  cases hp : projectDiffSft (fun _ => "") none {} (fun _ => some unprompted)
      (fun _ => some brokenOff) [acceptedBy "c2", acceptedBy "c1"] with
  | error e =>
    rw [hp] at hread
    cases hread
  | ok p =>
    rw [hp] at hread
    obtain ⟨⟨emitted, -, hperm, hexact⟩, -⟩ := diff_sft_exact _ _ _ _ _ _ p hp
    exact ⟨p, rfl, Option.some.inj hread, emitted, hperm, hexact⟩

end Sediment.Proofs.DiffSft
