import Sediment.Base.Results
import Sediment.Derive.Attribution
import Sediment.Proofs.RepositoryIdentity
import Sediment.Proofs.WitnessContext

namespace Sediment.Proofs.AttributionMatch
open Base Sediment.Core Sediment.Derive Sediment.Derive.Attributions
open Base.JsonScan (codePoints)

example : trueDivide 3 10 = gitNotesPolicy.minSimilarity := by decide +kernel

variable {scorer : Scorer} {diffTokens : Tokens} {floor : ℚ} {cs cs' : List Candidate}

/-- A candidate whose score is positive and reaches the floor. -/
def Qualifies (scorer : Scorer) (diffTokens : Tokens) (floor : ℚ) (c : Candidate) : Prop :=
  0 < scorer c.tokens diffTokens ∧ floor ≤ scorer c.tokens diffTokens

instance (scorer : Scorer) (diffTokens : Tokens) (floor : ℚ) :
    DecidablePred (Qualifies scorer diffTokens floor) :=
  fun _ => inferInstanceAs (Decidable (_ ∧ _))

def scored (scorer : Scorer) (diffTokens : Tokens) (c : Candidate) : InferenceCall × ℚ :=
  (c.call, scorer c.tokens diffTokens)

/-- A higher score ranks higher, and among equal scores the lesser call. -/
def matchRank (m : InferenceCall × ℚ) : ℚ ×ₗ (Int ×ₗ String)ᵒᵈ :=
  toLex (m.2, OrderDual.toDual (callOrder m.1))

theorem matchRank_lt {held m : InferenceCall × ℚ} : matchRank held < matchRank m ↔
    held.2 < m.2 ∨ (m.2 = held.2 ∧ callOrder m.1 < callOrder held.1) := by
  rw [matchRank, matchRank, Prod.Lex.toLex_lt_toLex, eq_comm (a := m.2)]
  rfl

theorem matchRank_le {held m : InferenceCall × ℚ} : matchRank m ≤ matchRank held ↔
    m.2 < held.2 ∨ (m.2 = held.2 ∧ callOrder held.1 ≤ callOrder m.1) := by
  rw [matchRank, matchRank, Prod.Lex.toLex_le_toLex]
  rfl

theorem scoreCandidate_eq (best : Option (InferenceCall × ℚ)) (c : Candidate) :
    scoreCandidate scorer diffTokens floor best c =
      if Qualifies scorer diffTokens floor c then
        Argmax.keep matchRank best (scored scorer diffTokens c)
      else best := by
  unfold scoreCandidate
  by_cases hq : Qualifies scorer diffTokens floor c
  · have hkept : ¬ (scorer c.tokens diffTokens ≤ 0 ∨ scorer c.tokens diffTokens < floor) := by
      rw [not_or, not_le, not_lt]
      exact hq
    rw [if_pos hq, if_neg hkept]
    cases best with
    | none => rfl
    | some held => simp only [Argmax.keep, scored, matchRank_lt]
  · rw [if_neg hq, if_pos]
    by_contra hn
    rw [not_or, not_le, not_lt] at hn
    exact hq hn

/-- The loop of `_best_match` keeps the best of what qualifies. -/
theorem bestMatch_eq (cs : List Candidate) : bestMatch cs diffTokens floor scorer =
    Argmax.best matchRank ((cs.filter (Qualifies scorer diffTokens floor)).map
      (scored scorer diffTokens)) := by
  induction cs using List.reverseRecOn with
  | nil => rfl
  | append_singleton cs c ih =>
    have hlast : bestMatch (cs ++ [c]) diffTokens floor scorer =
        scoreCandidate scorer diffTokens floor (bestMatch cs diffTokens floor scorer) c := by
      simp [Attributions.bestMatch]
    rw [hlast, scoreCandidate_eq, ih, List.filter_append, List.map_append]
    split
    · rename_i hq
      rw [List.filter_cons_of_pos (by simpa using hq), List.filter_nil, List.map_singleton,
        Argmax.best_concat]
    · rename_i hq
      rw [List.filter_cons_of_neg (by simpa using hq), List.filter_nil, List.map_nil,
        List.append_nil]

theorem bestMatch_eq_none : bestMatch cs diffTokens floor scorer = none ↔
    ∀ c ∈ cs, ¬ Qualifies scorer diffTokens floor c := by
  rw [bestMatch_eq, Argmax.best_eq_none, List.map_eq_nil_iff, List.filter_eq_nil_iff]
  simp

/-- The winner is a candidate, and no candidate that qualifies comes before it. -/
theorem bestMatch_spec {best : InferenceCall × ℚ}
    (h : bestMatch cs diffTokens floor scorer = some best) :
    (∃ c ∈ cs, Qualifies scorer diffTokens floor c ∧ scored scorer diffTokens c = best) ∧
    ∀ c ∈ cs, Qualifies scorer diffTokens floor c →
      scorer c.tokens diffTokens < best.2 ∨
        (scorer c.tokens diffTokens = best.2 ∧ callOrder best.1 ≤ callOrder c.call) := by
  rw [bestMatch_eq] at h
  obtain ⟨hmem, hmax⟩ := Argmax.best_spec h
  constructor
  · obtain ⟨c, hc, he⟩ := List.mem_map.mp hmem
    rw [List.mem_filter, decide_eq_true_eq] at hc
    exact ⟨c, hc.1, hc.2, he⟩
  · intro c hc hq
    have hin : scored scorer diffTokens c ∈ (cs.filter (Qualifies scorer diffTokens floor)).map
        (scored scorer diffTokens) := by
      apply List.mem_map_of_mem
      rw [List.mem_filter, decide_eq_true_eq]
      exact ⟨hc, hq⟩
    exact matchRank_le.mp (hmax _ hin)

theorem scored_perm (hp : cs.Perm cs') :
    ((cs.filter (Qualifies scorer diffTokens floor)).map (scored scorer diffTokens)).Perm
      ((cs'.filter (Qualifies scorer diffTokens floor)).map (scored scorer diffTokens)) :=
  (hp.filter _).map _

/-- The score, the time and the id of the winner are those in any other order. -/
theorem rank_bestMatch_perm (hp : cs.Perm cs') :
    (bestMatch cs diffTokens floor scorer).map matchRank =
      (bestMatch cs' diffTokens floor scorer).map matchRank := by
  rw [bestMatch_eq, bestMatch_eq]
  exact Argmax.rank_best_perm (scored_perm hp)

/-- Ids tell the candidates apart, as the primary key of the calls does. -/
def DistinctIds (cs : List Candidate) : Prop :=
  ∀ a ∈ cs, ∀ b ∈ cs, a.call.inferenceCallId = b.call.inferenceCallId → a = b

theorem bestMatch_perm (hp : cs.Perm cs') (hd : DistinctIds cs) :
    bestMatch cs diffTokens floor scorer = bestMatch cs' diffTokens floor scorer := by
  rw [bestMatch_eq, bestMatch_eq]
  apply Argmax.best_perm (scored_perm hp)
  intro a ha b hb hr
  obtain ⟨c, hc, rfl⟩ := List.mem_map.mp ha
  obtain ⟨d, hm, rfl⟩ := List.mem_map.mp hb
  have hid : c.call.inferenceCallId = d.call.inferenceCallId :=
    congrArg (fun r : ℚ ×ₗ (Int ×ₗ String)ᵒᵈ =>
      (ofLex (OrderDual.ofDual (ofLex r).2)).2) hr
  rw [hd c (List.mem_of_mem_filter hc) d (List.mem_of_mem_filter hm) hid]

section
variable {mirror : RepoMirror} {policy : AttributionPolicy} {provenance : Attributions.Provenance}
  {resolved : ResolvedPush} {sha : String} {orgCandidates sessionCandidates : List Candidate}

/-- The files are attributed one by one, and the others counted. -/
theorem foldl_attributeNext (files : List ScoredFile) (start : AttributionResult) :
    files.foldl (attributeNext scorer policy provenance resolved sha orgCandidates
        sessionCandidates) start =
      { attributions := start.attributions ++ files.filterMap (attributeFile scorer policy
          provenance resolved sha orgCandidates sessionCandidates)
        skipped := start.skipped + Multiset.replicate (files.countP (fun file =>
          (attributeFile scorer policy provenance resolved sha orgCandidates sessionCandidates
            file).isNone)) .noMatch } := by
  induction files using List.reverseRecOn with
  | nil => simp
  | append_singleton files file ih =>
    rw [List.foldl_append, ih, List.foldl_cons, List.foldl_nil, List.filterMap_append,
      List.countP_append]
    cases hf : attributeFile scorer policy provenance resolved sha orgCandidates
        sessionCandidates file with
    | none =>
      simp only [attributeNext, hf, AttributionResult.skip, List.filterMap_cons_none hf,
        List.filterMap_nil, List.append_nil, List.countP_singleton, Option.isNone_none, if_true,
        Multiset.replicate_add, add_assoc]
    | some attribution => simp [attributeNext, hf]

/-- Candidates of the Sessions a commit names. -/
def ofSessions (mirror : RepoMirror) (sha : String) (supplied : Option (Finset String))
    (candidates : List Candidate) : List Candidate :=
  candidates.filter (fun candidate =>
    decide (codePoints candidate.call.sessionId ∈ commitSessions mirror sha supplied))

theorem attributeCommit_attributions {rawDiff : List Char} {gitNotesCandidates : List Candidate}
    {noteSessionIds : Option (Finset String)} (hd : mirror.commitDiff sha = some rawDiff) :
    (attributeCommit mirror scorer policy provenance resolved sha orgCandidates gitNotesCandidates
        noteSessionIds).attributions =
      (scoredFiles (Diff.parseDiffSections rawDiff)).filterMap (attributeFile scorer policy
        provenance resolved sha orgCandidates
        (ofSessions mirror sha noteSessionIds gitNotesCandidates)) := by
  simp only [attributeCommit, hd]
  split
  · rename_i hfiles
    rw [hfiles]
    split <;> rfl
  · rw [foldl_attributeNext, List.nil_append]
    rfl

theorem attributeCommit_unavailable {gitNotesCandidates : List Candidate}
    {noteSessionIds : Option (Finset String)} (hd : mirror.commitDiff sha = none) :
    (attributeCommit mirror scorer policy provenance resolved sha orgCandidates gitNotesCandidates
        noteSessionIds).attributions = [] := by
  simp only [attributeCommit, hd]

/-- What a file is attributed by, and where its candidate comes from. -/
theorem attributeFile_source {file : ScoredFile} {a : Attribution}
    (h : attributeFile scorer policy provenance resolved sha orgCandidates sessionCandidates file =
      some a) :
    a.commitSha = sha ∧
      ((a.attributionSource = .gitNotes ∧ sessionCandidates ≠ []) ∨
        (a.attributionSource = .jaccard ∧ orgCandidates ≠ [])) := by
  have hne : ∀ {cs : List Candidate} {floor : ℚ} {best : InferenceCall × ℚ},
      bestMatch cs file.diffTokens floor scorer = some best → cs ≠ [] := by
    intro cs floor best hb
    obtain ⟨⟨c, hc, -⟩, -⟩ := bestMatch_spec hb
    exact List.ne_nil_of_mem hc
  unfold attributeFile at h
  cases hs : bestMatch sessionCandidates file.diffTokens policy.gitNotes.minSimilarity scorer with
  | some best =>
    simp only [hs, Option.map_some, Option.some.injEq] at h
    subst h
    exact ⟨rfl, Or.inl ⟨rfl, hne hs⟩⟩
  | none =>
    simp only [hs] at h
    cases ho : bestMatch orgCandidates file.diffTokens policy.jaccard.minSimilarity scorer with
    | none =>
      rw [ho] at h
      cases h
    | some best =>
      rw [ho] at h
      cases h
      exact ⟨rfl, Or.inr ⟨rfl, hne ho⟩⟩

end

/-- A claim attributes its own commit, by a call inside a window of its push. -/
theorem mem_attributeClaim {m : RepoMirror} {policy : AttributionPolicy}
    {provenance : Attributions.Provenance} {r : ResolvedPush} {sha : String}
    {noteSessionIds : CommitKey → Option (Finset String)} {a : Attribution}
    (h : a ∈ (attributeClaim scorer policy provenance cs noteSessionIds m r sha).attributions) :
    a.commitSha = sha ∧
      ((a.attributionSource = .gitNotes ∧
        ∃ c ∈ window cs r.push policy.gitNotes.lookbackWindowMinutes policy,
          codePoints c.call.sessionId ∈ commitSessions m sha (noteSessionIds ⟨r.key, sha⟩)) ∨
        (a.attributionSource = .jaccard ∧
          window cs r.push policy.jaccard.lookbackWindowMinutes policy ≠ [])) := by
  unfold attributeClaim at h
  cases hd : m.commitDiff sha with
  | none =>
    rw [attributeCommit_unavailable hd] at h
    cases h
  | some rawDiff =>
    rw [attributeCommit_attributions hd] at h
    obtain ⟨file, -, hf⟩ := List.mem_filterMap.mp h
    obtain ⟨hsha, hsource⟩ := attributeFile_source hf
    refine ⟨hsha, ?_⟩
    rcases hsource with ⟨hs, hne⟩ | hs
    · obtain ⟨c, hc⟩ := List.exists_mem_of_ne_nil _ hne
      rw [ofSessions, List.mem_filter, decide_eq_true_eq] at hc
      exact Or.inl ⟨hs, c, hc⟩
    · exact Or.inr hs

theorem DistinctIds.filter (hd : DistinctIds cs) (keep : Candidate → Bool) :
    DistinctIds (cs.filter keep) :=
  fun a ha b hb => hd a (List.mem_of_mem_filter ha) b (List.mem_of_mem_filter hb)

/-- Mirrors with the same objects and notes, whose ranges list the same commits. -/
structure SameMirror (m m' : RepoMirror) : Prop where
  commitDiff : m.commitDiff = m'.commitDiff
  commitNote : m.commitNote = m'.commitNote
  revList : ∀ n before after, Option.Rel List.Perm (m.revList n before after)
    (m'.revList n before after)

theorem SameMirror.refl (m : RepoMirror) : SameMirror m m where
  commitDiff := rfl
  commitNote := rfl
  revList := fun n before after => by
    cases m.revList n before after with
    | none => exact .none
    | some revs => exact .some (List.Perm.refl revs)

/-- Pushes that an attribution cannot tell apart. -/
structure SameClaimant (r r' : ResolvedPush) : Prop where
  key : r.key = r'.key
  repo : r.repo = r'.repo
  orgId : r.push.orgId = r'.push.orgId
  order : pushOrder r.push = pushOrder r'.push

theorem SameClaimant.refl (r : ResolvedPush) : SameClaimant r r := ⟨rfl, rfl, rfl, rfl⟩

theorem SameClaimant.capturedAt {r r' : ResolvedPush} (h : SameClaimant r r') :
    r.push.capturedAt.utc = r'.push.capturedAt.utc :=
  congrArg (fun o : Int ×ₗ String => (ofLex o).1) h.order

theorem SameClaimant.pushId {r r' : ResolvedPush} (h : SameClaimant r r') :
    r.push.pushId = r'.push.pushId :=
  congrArg (fun o : Int ×ₗ String => (ofLex o).2) h.order

section
variable {m m' : RepoMirror} {policy : AttributionPolicy} {provenance : Attributions.Provenance}
  {r r' : ResolvedPush} {sha : String} {org org' named named' : List Candidate}

theorem attributeFile_congr (hr : SameClaimant r r') (ho : org.Perm org') (hdo : DistinctIds org)
    (hn : named.Perm named') (hdn : DistinctIds named) (file : ScoredFile) :
    attributeFile scorer policy provenance r sha org named file =
      attributeFile scorer policy provenance r' sha org' named' file := by
  simp only [attributeFile, bestMatch_perm ho hdo, bestMatch_perm hn hdn, hr.key, hr.repo,
    hr.orgId, hr.pushId]

theorem attributeCommit_congr (hm : SameMirror m m') (hr : SameClaimant r r') (ho : org.Perm org')
    (hdo : DistinctIds org) (hn : named.Perm named') (hdn : DistinctIds named)
    (noteSessionIds : Option (Finset String)) :
    attributeCommit m scorer policy provenance r sha org named noteSessionIds =
      attributeCommit m' scorer policy provenance r' sha org' named' noteSessionIds := by
  have hsessions : commitSessions m sha noteSessionIds = commitSessions m' sha noteSessionIds := by
    unfold commitSessions
    rw [hm.commitNote]
  have hnext : ∀ keep, attributeNext scorer policy provenance r sha org (named.filter keep) =
      attributeNext scorer policy provenance r' sha org' (named'.filter keep) := by
    intro keep
    funext result file
    unfold attributeNext
    rw [attributeFile_congr hr ho hdo (hn.filter keep) (hdn.filter keep)]
  simp only [attributeCommit, hm.commitDiff, hsessions, hnext]

/-- A claim rests on the windows of its push, and not on the order of their candidates. -/
theorem attributeClaim_windows (hm : SameMirror m m') (hr : SameClaimant r r')
    {noteSessionIds : CommitKey → Option (Finset String)} (hd : DistinctIds cs)
    (hw : ∀ minutes, minutes ≤ max policy.jaccard.lookbackWindowMinutes
      policy.gitNotes.lookbackWindowMinutes →
      (window cs r.push minutes policy).Perm (window cs' r'.push minutes policy)) :
    attributeClaim scorer policy provenance cs noteSessionIds m r sha =
      attributeClaim scorer policy provenance cs' noteSessionIds m' r' sha := by
  unfold attributeClaim
  rw [hr.key]
  exact attributeCommit_congr hm hr (hw _ (le_max_left _ _)) (hd.filter _)
    (hw _ (le_max_right _ _)) (hd.filter _) _

theorem attributeClaim_congr (hm : SameMirror m m') (hr : SameClaimant r r')
    {noteSessionIds : CommitKey → Option (Finset String)} (hc : cs.Perm cs')
    (hd : DistinctIds cs) :
    attributeClaim scorer policy provenance cs noteSessionIds m r sha =
      attributeClaim scorer policy provenance cs' noteSessionIds m' r' sha := by
  apply attributeClaim_windows hm hr hd
  intro minutes _
  unfold window
  rw [hr.capturedAt]
  exact hc.filter _

theorem listPushCommits_perm (hm : SameMirror m m') (push : Push) (n : Nat) :
    (m.listPushCommits push n).Perm (m'.listPushCommits push n) := by
  unfold RepoMirror.listPushCommits
  split
  · exact List.Perm.refl _
  · have hrel := hm.revList (max 1 n) push.beforeSha push.afterSha
    cases hl : m.revList (max 1 n) push.beforeSha push.afterSha with
    | none =>
      rw [hl] at hrel
      cases hr : m'.revList (max 1 n) push.beforeSha push.afterSha with
      | none => exact List.Perm.refl _
      | some revs =>
        rw [hr] at hrel
        cases hrel
    | some revs =>
      rw [hl] at hrel
      cases hr : m'.revList (max 1 n) push.beforeSha push.afterSha with
      | none =>
        rw [hr] at hrel
        cases hrel
      | some revs' =>
        rw [hr] at hrel
        cases hrel with
        | some hp =>
          by_cases hnil : revs = []
          · subst hnil
            rw [hp.nil_eq.symm]
          · have hnil' : revs' ≠ [] := by
              intro he
              rw [he] at hp
              exact hnil hp.eq_nil
            simp only [hnil, hnil', if_false]
            exact (List.reverse_perm revs).trans (hp.trans (List.reverse_perm revs').symm)

end

theorem call_eq_of_id {s : Snapshot} {a b : InferenceCall} (ha : a ∈ s.calls.calls)
    (hb : b ∈ s.calls.calls)
    (hid : a.inferenceCallId = b.inferenceCallId) : a = b := by
  by_contra hne
  have hsymm : Std.Symm (fun a b : InferenceCall => ¬ collides a b) := by
    refine ⟨fun x y hxy hyx => hxy ?_⟩
    rcases hyx with h | h
    · exact Or.inl h.symm
    · exact Or.inr ⟨h.2 ▸ h.1, h.2.symm⟩
  exact s.calls.unique.forall ha hb hne (Or.inl hid)

section
variable [Interpreter] [Collation] [StoredBytes] {s : Snapshot} {rawOrg orgId : String}

/-- A visible call of the organization. -/
def VisibleCall (s : Snapshot) (orgId : String) (call : InferenceCall) : Prop :=
  call ∈ s.calls.calls ∧ call.orgId = orgId ∧ s.calls.latestAction call ≠ some .quarantine

theorem mem_readAttributionCandidates (ho : normalizeOrgId rawOrg = some orgId) {lower upper : Int}
    {limit : Option Nat} {calls : List InferenceCall}
    (h : s.readAttributionCandidates rawOrg lower upper limit none = .ok calls)
    (call : InferenceCall) :
    call ∈ calls ↔ VisibleCall s orgId call ∧ lower ≤ call.observedAt.utc ∧
      call.observedAt.utc ≤ upper := by
  simp only [Snapshot.readAttributionCandidates, ho, Option.elim_some, Option.elim_none, pure_bind,
    bind_ok] at h
  obtain ⟨-, -, -, -, hrows⟩ := h
  cases hrows
  simp only [mem_orderBy, List.mem_filter, VisibleCall, observedWithin, Bool.or_false,
    Bool.and_eq_true, decide_eq_true_eq, and_assoc]

theorem mem_scopeCandidates (ho : normalizeOrgId rawOrg = some orgId) {pushes : List Push}
    {policy : AttributionPolicy} {limit : Option Nat} {candidates : List Candidate}
    (h : scopeCandidates s rawOrg pushes policy limit = .ok candidates) (c : Candidate) :
    c ∈ candidates ↔ ∃ call, tokenized call = c ∧ VisibleCall s orgId call ∧
      (pushes.map (·.capturedAt.utc)).min?.getD 0 - max policy.jaccard.lookbackWindowMinutes
        policy.gitNotes.lookbackWindowMinutes * minuteMicros ≤ call.observedAt.utc ∧
      call.observedAt.utc ≤ (pushes.map (·.capturedAt.utc)).max?.getD 0 +
        policy.postPushGracePeriodMinutes * minuteMicros := by
  simp only [scopeCandidates, bind_ok] at h
  obtain ⟨calls, hcalls, hout⟩ := h
  cases hout
  simp only [List.mem_map, mem_readAttributionCandidates ho hcalls]
  constructor
  · intro hc
    obtain ⟨call, hc, ht⟩ := hc
    exact ⟨call, ht, hc⟩
  · intro hc
    obtain ⟨call, ht, hc⟩ := hc
    exact ⟨call, hc, ht⟩

theorem distinctIds_scopeCandidates (ho : normalizeOrgId rawOrg = some orgId) {pushes : List Push}
    {policy : AttributionPolicy} {limit : Option Nat} {candidates : List Candidate}
    (h : scopeCandidates s rawOrg pushes policy limit = .ok candidates) :
    DistinctIds candidates := by
  intro a ha b hb hid
  obtain ⟨x, rfl, hx, -⟩ := (mem_scopeCandidates ho h a).mp ha
  obtain ⟨y, rfl, hy, -⟩ := (mem_scopeCandidates ho h b).mp hb
  rw [call_eq_of_id hx.1 hy.1 hid]

theorem nodup_scopeCandidates {pushes : List Push} {policy : AttributionPolicy} {limit : Option Nat}
    {candidates : List Candidate} (h : scopeCandidates s rawOrg pushes policy limit = .ok candidates) :
    candidates.Nodup := by
  simp only [scopeCandidates, bind_ok] at h
  obtain ⟨calls, hcalls, hout⟩ := h
  cases hout
  simp only [Snapshot.readAttributionCandidates, bind_ok] at hcalls
  obtain ⟨org, -, -, -, named, -, -, -, hrows⟩ := hcalls
  cases hrows
  apply List.Nodup.map (fun a b hab => congrArg Candidate.call hab)
  rw [orderBy, (List.perm_insertionSort _ _).nodup_iff]
  apply List.Nodup.filter
  apply s.calls.unique.imp
  rintro a b hab rfl
  exact hab (Or.inl rfl)

/-- The read of a scope drops no candidate of a window of its pushes. -/
theorem window_scopeCandidates (ho : normalizeOrgId rawOrg = some orgId) {pushes : List Push}
    {policy : AttributionPolicy} {limit : Option Nat} {candidates : List Candidate}
    (h : scopeCandidates s rawOrg pushes policy limit = .ok candidates) {push : Push}
    (hp : push ∈ pushes) {minutes : Int} (hm : minutes ≤ max policy.jaccard.lookbackWindowMinutes
      policy.gitNotes.lookbackWindowMinutes) (c : Candidate) :
    c ∈ window candidates push minutes policy ↔ ∃ call, tokenized call = c ∧
      VisibleCall s orgId call ∧
      push.capturedAt.utc - minutes * minuteMicros ≤ call.observedAt.utc ∧
      call.observedAt.utc ≤
        push.capturedAt.utc + policy.postPushGracePeriodMinutes * minuteMicros := by
  have hin : push.capturedAt.utc ∈ pushes.map (·.capturedAt.utc) := List.mem_map_of_mem hp
  have hmin : (pushes.map (·.capturedAt.utc)).min?.getD 0 ≤ push.capturedAt.utc := by
    cases hmin : (pushes.map (·.capturedAt.utc)).min? with
    | none => rw [List.min?_eq_none_iff] at hmin; rw [hmin] at hin; cases hin
    | some least => exact (List.min?_eq_some_iff.mp hmin).2 _ hin
  have hmax : push.capturedAt.utc ≤ (pushes.map (·.capturedAt.utc)).max?.getD 0 := by
    cases hmax : (pushes.map (·.capturedAt.utc)).max? with
    | none => rw [List.max?_eq_none_iff] at hmax; rw [hmax] at hin; cases hin
    | some greatest => exact (List.max?_eq_some_iff.mp hmax).2 _ hin
  simp only [window, List.mem_filter, mem_scopeCandidates ho h, observedWithin, Bool.and_eq_true,
    decide_eq_true_eq]
  constructor
  · intro hc
    obtain ⟨⟨call, ht, hv, -⟩, hw⟩ := hc
    rw [← ht] at hw
    exact ⟨call, ht, hv, hw⟩
  · intro hc
    obtain ⟨call, ht, hv, hlo, hhi⟩ := hc
    have hspan : minutes * minuteMicros ≤ max policy.jaccard.lookbackWindowMinutes
        policy.gitNotes.lookbackWindowMinutes * minuteMicros :=
      mul_le_mul_of_nonneg_right hm (by decide)
    refine ⟨⟨call, ht, hv, ?_, ?_⟩, ?_⟩
    · omega
    · omega
    · rw [← ht]
      exact ⟨hlo, hhi⟩

end

/-- What `_best_match` returns is the best of the candidates that qualify, in any order of
them, none of which the reads and windows before it leave out. A file with a qualifying match
in a Session of the commit's note has the best one as its attribution, whatever the candidates
of the organization are. -/
theorem best_match_argmax :
    (∀ (scorer : Scorer) (diffTokens : Tokens) (floor : ℚ) (cs : List Candidate),
      (bestMatch cs diffTokens floor scorer = none ↔
        ∀ c ∈ cs, ¬ Qualifies scorer diffTokens floor c) ∧
      (∀ best, bestMatch cs diffTokens floor scorer = some best →
        (∃ c ∈ cs, Qualifies scorer diffTokens floor c ∧ c.call = best.1 ∧
          scorer c.tokens diffTokens = best.2) ∧
        ∀ c ∈ cs, Qualifies scorer diffTokens floor c →
          scorer c.tokens diffTokens < best.2 ∨
            (scorer c.tokens diffTokens = best.2 ∧ callOrder best.1 ≤ callOrder c.call)) ∧
      ∀ cs', cs.Perm cs' →
        (bestMatch cs diffTokens floor scorer).map (fun m => (m.2, callOrder m.1)) =
          (bestMatch cs' diffTokens floor scorer).map (fun m => (m.2, callOrder m.1)) ∧
        (DistinctIds cs →
          bestMatch cs diffTokens floor scorer = bestMatch cs' diffTokens floor scorer)) ∧
    (∀ [Interpreter] [Collation] [StoredBytes] (s : Snapshot) (rawOrg orgId : String)
      (pushes : List Push) (policy : AttributionPolicy) (limit : Option Nat)
      (candidates : List Candidate), normalizeOrgId rawOrg = some orgId →
      scopeCandidates s rawOrg pushes policy limit = .ok candidates →
      DistinctIds candidates ∧ ∀ push ∈ pushes, ∀ minutes, minutes ≤ max policy.jaccard.lookbackWindowMinutes
        policy.gitNotes.lookbackWindowMinutes →
      ∀ c, c ∈ window candidates push minutes policy ↔ ∃ call, tokenized call = c ∧
        VisibleCall s orgId call ∧
        push.capturedAt.utc - minutes * minuteMicros ≤ call.observedAt.utc ∧
        call.observedAt.utc ≤
          push.capturedAt.utc + policy.postPushGracePeriodMinutes * minuteMicros) ∧
    ∀ (mirror : RepoMirror) (scorer : Scorer) (policy : AttributionPolicy)
      (provenance : Attributions.Provenance) (resolved : ResolvedPush) (sha : String)
      (gitNotesCandidates : List Candidate) (noteSessionIds : Option (Finset String))
      (rawDiff : List Char), mirror.commitDiff sha = some rawDiff →
      (∀ orgCandidates, (attributeCommit mirror scorer policy provenance resolved sha
          orgCandidates gitNotesCandidates noteSessionIds).attributions =
        (scoredFiles (Diff.parseDiffSections rawDiff)).filterMap (attributeFile scorer policy
          provenance resolved sha orgCandidates
          (ofSessions mirror sha noteSessionIds gitNotesCandidates))) ∧
      ∀ file ∈ scoredFiles (Diff.parseDiffSections rawDiff), ∀ c ∈ gitNotesCandidates,
        codePoints c.call.sessionId ∈ commitSessions mirror sha noteSessionIds →
        Qualifies scorer file.diffTokens policy.gitNotes.minSimilarity c →
        ∃ best, bestMatch (ofSessions mirror sha noteSessionIds gitNotesCandidates)
            file.diffTokens policy.gitNotes.minSimilarity scorer = some best ∧
          ∀ orgCandidates, attributeFile scorer policy provenance resolved sha orgCandidates
            (ofSessions mirror sha noteSessionIds gitNotesCandidates) file = some {
              orgId := resolved.push.orgId
              repo := resolved.repo
              commitSha := sha
              filePath := file.filePath
              inferenceCallId := best.1.inferenceCallId
              sessionId := best.1.sessionId
              similarityScore := best.2
              attributionSource := .gitNotes
              provenance
              repositoryIdentity := identityOf resolved.key
              sourcePushId := resolved.push.pushId } := by
  refine ⟨?_, ?_, ?_⟩
  · intro scorer diffTokens floor cs
    refine ⟨bestMatch_eq_none, ?_, ?_⟩
    · intro best h
      obtain ⟨⟨c, hc, hq, he⟩, hmax⟩ := bestMatch_spec h
      exact ⟨⟨c, hc, hq, congrArg Prod.fst he, congrArg Prod.snd he⟩, hmax⟩
    · intro cs' hp
      refine ⟨?_, bestMatch_perm hp⟩
      have hrank := congrArg (Option.map (fun r : ℚ ×ₗ (Int ×ₗ String)ᵒᵈ =>
        ((ofLex r).1, OrderDual.ofDual (ofLex r).2)))
        (@rank_bestMatch_perm scorer diffTokens floor _ _ hp)
      rw [Option.map_map, Option.map_map] at hrank
      exact hrank
  · intro _ _ _ s rawOrg orgId pushes policy limit candidates ho h
    refine ⟨distinctIds_scopeCandidates ho h, ?_⟩
    intro push hp minutes hm c
    exact window_scopeCandidates ho h hp hm c
  · intro mirror scorer policy provenance resolved sha gitNotesCandidates noteSessionIds rawDiff hd
    refine ⟨fun orgCandidates => attributeCommit_attributions hd, ?_⟩
    intro file _ c hc hsession hq
    have hin : c ∈ ofSessions mirror sha noteSessionIds gitNotesCandidates := by
      rw [ofSessions, List.mem_filter, decide_eq_true_eq]
      exact ⟨hc, hsession⟩
    cases hb : bestMatch (ofSessions mirror sha noteSessionIds gitNotesCandidates)
        file.diffTokens policy.gitNotes.minSimilarity scorer with
    | none => exact absurd hq (bestMatch_eq_none.mp hb c hin)
    | some best =>
      refine ⟨best, rfl, fun orgCandidates => ?_⟩
      simp only [attributeFile, hb, Option.map_some]

open Sediment.Proofs.RepositoryIdentity (lowerCase noon)
open Sediment.Proofs.WitnessContext (byteOrder)

@[reducible] def fewBytes : StoredBytes := ⟨fun _ => 0⟩

def writtenCall (inferenceCallId sessionId text : String) : InferenceCall where
  inferenceCallId
  orgId := "acme"
  sessionId
  gatewayProvider := .litellm
  inputMessages := []
  outputMessages := [⟨"assistant", [.text text], none⟩]
  modelCallId := none
  observedAt := noon

/-- The call writes the line of the commit. -/
def exactCall : InferenceCall := writtenCall "c1" "s1" "alpha = beta"

/-- The call writes a line with one of three tokens. -/
def notedCall : InferenceCall := writtenCall "c2" "s2" "alpha = gamma"

def onePush : Push where
  pushId := "p1"
  orgId := "acme"
  repo := "acme/a"
  repositoryProvider := none
  repositoryHost := none
  repositoryId := none
  beforeSha := "0000000000000000000000000000000000000000"
  afterSha := "0123456789abcdef0123456789abcdef01234567"
  forced := false
  capturedAt := noon

def storedPush : StoredFact :=
  ⟨.pushes, "p1", "acme", ⟨"acme/a", none, none, none⟩, ⟨"acme/a", none, none, none⟩, noon, none⟩

theorem noRenames_key : ([] : List RepositoryRename).Pairwise
    (fun a b => a.renameId ≠ b.renameId) := List.Pairwise.nil

theorem noRenames_delivery : ∀ a ∈ ([] : List RepositoryRename), ∀ b ∈ ([] : List RepositoryRename),
    a.orgId = b.orgId → a.repositoryProvider = b.repositoryProvider →
    a.repositoryHost = b.repositoryHost → a.sourceEventId.isSome →
    a.sourceEventId = b.sourceEventId → a = b :=
  fun _ h => absurd h List.not_mem_nil

def twoCalls : Snapshot where
  repositories := ⟨[storedPush], [], [], List.pairwise_singleton _ _, noRenames_key,
    noRenames_delivery⟩
  calls := ⟨[exactCall, notedCall], [], [], by decide +kernel, by decide +kernel⟩
  pushes := [onePush]
  observations := []
  quarantined := rfl
  pushKey := List.pairwise_singleton _ _
  pushRows := by
    intro push hp
    rw [List.mem_singleton.mp hp]
    exact ⟨storedPush, List.mem_singleton_self _, rfl, rfl⟩
  observedBefore := by decide +kernel

def oneLineDiff : List Char :=
  "diff --git a/a.py b/a.py\n--- /dev/null\n+++ b/a.py\n@@ -0,0 +1 @@\n+alpha = beta\n".toList

def notedBody : String :=
  "\x7b\"v\": 1, \"sessions\": [\x7b\"tool\": \"codex\", \"session_id\": \"s2\", " ++
    "\"stamped_at\": \"2026-01-02T00:00:00Z\"\x7d]\x7d"

/-- The note of every commit names the second call's Session. -/
def notedMirror : RepoMirror where
  revList _ _ _ := none
  commitDiff _ := some oneLineDiff
  commitNote _ := readCommitNote 9 (some notedBody)

section
local instance : Interpreter := lowerCase
local instance : Collation := byteOrder
local instance : StoredBytes := fewBytes

/-- The better match comes first in the organization, and the noted one in the commit. -/
theorem noted_call_preferred :
    (∃ best, bestMatch [tokenized notedCall, tokenized exactCall] (tokenize "alpha = beta".toList)
        (1 / 2) jaccardTokens = some best ∧
      (∀ c ∈ [tokenized notedCall, tokenized exactCall],
        Qualifies jaccardTokens (tokenize "alpha = beta".toList) (1 / 2) c →
        jaccardTokens c.tokens (tokenize "alpha = beta".toList) < best.2 ∨
          (jaccardTokens c.tokens (tokenize "alpha = beta".toList) = best.2 ∧
            callOrder best.1 ≤ callOrder c.call)) ∧
      bestMatch [tokenized exactCall, tokenized notedCall] (tokenize "alpha = beta".toList)
        (1 / 2) jaccardTokens = some best) ∧
    (∃ candidates, scopeCandidates twoCalls "acme" [onePush] {} none = .ok candidates ∧
      DistinctIds candidates ∧
      tokenized exactCall ∈ window candidates onePush jaccardPolicy.lookbackWindowMinutes {}) ∧
    ∃ file ∈ scoredFiles (Diff.parseDiffSections oneLineDiff), ∀ orgCandidates,
      (attributeFile jaccardTokens {} ⟨"1", 0, none⟩
        ⟨onePush, .legacy "acme" "acme/a", some "acme/a"⟩ onePush.afterSha orgCandidates
        (ofSessions notedMirror onePush.afterSha none
          [tokenized notedCall, tokenized exactCall]) file).map
        (fun a => (a.inferenceCallId, a.attributionSource)) = some ("c2", .gitNotes) := by
  obtain ⟨hbest, hwindow, hfile⟩ := best_match_argmax
  refine ⟨?_, ?_, ?_⟩
  · obtain ⟨-, hmax, hperm⟩ := hbest jaccardTokens (tokenize "alpha = beta".toList) (1 / 2)
      [tokenized notedCall, tokenized exactCall]
    have hsome : (bestMatch [tokenized notedCall, tokenized exactCall]
        (tokenize "alpha = beta".toList) (1 / 2) jaccardTokens).isSome = true := by decide +kernel
    obtain ⟨best, hbest⟩ := Option.isSome_iff_exists.mp hsome
    have hdistinct : DistinctIds [tokenized notedCall, tokenized exactCall] := by
      simp [DistinctIds, tokenized, notedCall, exactCall, writtenCall]
    refine ⟨best, hbest, (hmax best hbest).2, ?_⟩
    rw [← hbest]
    exact ((hperm _ (List.Perm.swap _ _ _)).2 hdistinct).symm
  · have hread : (scopeCandidates twoCalls "acme" [onePush] {} none).isOk = true := by
      decide +kernel
    obtain ⟨candidates, hcandidates⟩ := ok_of_isOk hread
    obtain ⟨hdistinct, hin⟩ := hwindow twoCalls "acme" "acme" [onePush] {} none candidates
      (by decide +kernel) hcandidates
    refine ⟨candidates, hcandidates, hdistinct, ?_⟩
    refine (hin onePush (List.mem_singleton_self _) _ (le_max_left _ _) _).mpr
      ⟨exactCall, rfl, ⟨List.mem_cons_self, rfl, by decide +kernel⟩, by decide +kernel,
        by decide +kernel⟩
  · obtain ⟨file, hin, hnoted, hqualifies⟩ : ∃ file ∈ scoredFiles (Diff.parseDiffSections oneLineDiff),
        (bestMatch (ofSessions notedMirror onePush.afterSha none
          [tokenized notedCall, tokenized exactCall]) file.diffTokens
          gitNotesPolicy.minSimilarity jaccardTokens).map (fun m => m.1.inferenceCallId) =
            some "c2" ∧
        Qualifies jaccardTokens file.diffTokens gitNotesPolicy.minSimilarity
          (tokenized notedCall) := by decide +kernel
    obtain ⟨best, hbest, hattributed⟩ := (hfile notedMirror jaccardTokens {} ⟨"1", 0, none⟩
      ⟨onePush, .legacy "acme" "acme/a", some "acme/a"⟩ onePush.afterSha
      [tokenized notedCall, tokenized exactCall] none oneLineDiff rfl).2 file hin
      (tokenized notedCall) List.mem_cons_self (by decide +kernel) hqualifies
    refine ⟨file, hin, fun orgCandidates => ?_⟩
    rw [hattributed orgCandidates]
    rw [hbest] at hnoted
    exact congrArg some (Prod.ext (Option.some.inj hnoted) rfl)

end

end Sediment.Proofs.AttributionMatch
