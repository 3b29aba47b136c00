import Sediment.Base.FirstWins
import Sediment.Base.Tails
import Sediment.Derive.Survival
import Sediment.Proofs.TranscriptWindows

namespace Sediment.Proofs.ExternalLines
open Sediment.Base Sediment.Core Sediment.Cli Sediment.Derive Sediment.Proofs.TranscriptWindows
open Tails (tailSum tailSum_of_sorted tailSum_eq_iff)

def countsOf (o : EditObservation) : LineCounts := o.window.getD 0

theorem walk_frame (group : List EditObservation) (walk : TailWalk) {key : CallKey}
    (h : key ∉ group.map EditObservation.callKey) :
    (group.foldr tailStep walk).out.get? key = walk.out.get? key := by
  induction group with
  | nil => rfl
  | cons o group ih =>
    rw [List.map_cons, List.mem_cons, not_or] at h
    rw [List.foldr_cons, tailStep]
    cases o.window with
    | none => exact ih h.2
    | some counts =>
      dsimp only
      split
      · dsimp only
        rw [Dict.get?_set, if_neg h.1]
        exact ih h.2
      · exact ih h.2

theorem walk_covered {group : List EditObservation} (out : Dict CallKey LineCounts)
    (h : ∀ o ∈ group, o.window ≠ none) :
    (group.foldr tailStep ⟨0, true, out⟩).covered = true ∧
      (group.foldr tailStep ⟨0, true, out⟩).totals = (group.map countsOf).sum := by
  induction group with
  | nil => exact ⟨rfl, rfl⟩
  | cons o group ih =>
    obtain ⟨hcovered, htotals⟩ := ih (fun o ho => h o (List.mem_cons_of_mem _ ho))
    obtain ⟨counts, hcounts⟩ := Option.ne_none_iff_exists'.mp (h o (List.mem_cons_self ..))
    have hstep : tailStep o (group.foldr tailStep ⟨0, true, out⟩) =
        { (group.foldr tailStep ⟨0, true, out⟩) with
          totals := (group.foldr tailStep ⟨0, true, out⟩).totals + counts
          out := (group.foldr tailStep ⟨0, true, out⟩).out.set o.callKey
            ((group.foldr tailStep ⟨0, true, out⟩).totals + counts) } := by
      rw [tailStep, hcounts]
      dsimp only
      rw [if_pos hcovered]
    rw [List.foldr_cons, hstep]
    refine ⟨hcovered, ?_⟩
    dsimp only
    rw [htotals, List.map_cons, List.sum_cons, countsOf, hcounts, add_comm]
    rfl

/-- Where every window is known, an edit's total is the sum of the windows from it on. -/
theorem walk_total (front : List EditObservation) {o : EditObservation}
    {rest : List EditObservation} (out : Dict CallKey LineCounts)
    (h : ∀ o' ∈ front ++ o :: rest, o'.window ≠ none)
    (hkeys : ((front ++ o :: rest).map EditObservation.callKey).Nodup) :
    ((front ++ o :: rest).foldr tailStep ⟨0, true, out⟩).out.get? o.callKey =
      some ((o :: rest).map countsOf).sum := by
  induction front with
  | nil =>
    rw [List.nil_append] at h ⊢
    obtain ⟨hcovered, htotals⟩ := walk_covered out (fun o' ho => h o' (List.mem_cons_of_mem _ ho))
    obtain ⟨counts, hcounts⟩ := Option.ne_none_iff_exists'.mp (h o (List.mem_cons_self ..))
    rw [List.foldr_cons, tailStep, hcounts]
    dsimp only
    rw [if_pos hcovered]
    dsimp only
    rw [Dict.get?_set, if_pos rfl, htotals, List.map_cons, List.sum_cons, countsOf, hcounts,
      add_comm]
    rfl
  | cons o' front ih =>
    rw [List.cons_append] at h hkeys ⊢
    rw [List.map_cons, List.nodup_cons] at hkeys
    have htail := ih (fun p hp => h p (List.mem_cons_of_mem _ hp)) hkeys.2
    have hne : o.callKey ≠ o'.callKey := by
      intro he
      apply hkeys.1
      rw [← he]
      exact List.mem_map_of_mem (List.mem_append_right _ (List.mem_cons_self ..))
    rw [← htail, List.foldr_cons]
    exact walk_frame [o'] _ (by simpa using hne)

theorem mem_files {observations : List EditObservation} {key : FileKey}
    {group : List EditObservation} :
    (key, group) ∈ (Dict.empty.gather (observations.map (fun o => (o.fileKey, o)))).entries ↔
      (∃ o ∈ observations, o.fileKey = key) ∧
        group = observations.filter (fun o => o.fileKey = key) := by
  have hgroup : ((observations.map (fun o => (o.fileKey, o))).filter (fun p => p.1 = key)).map
      Prod.snd = observations.filter (fun o => o.fileKey = key) := by
    rw [List.filter_map, List.map_map]
    simp [Function.comp_def]
  rw [Dict.mem_entries_gather, hgroup]
  apply and_congr_left
  intro _
  constructor
  · intro h
    obtain ⟨v, hv⟩ := h
    obtain ⟨o, ho, he⟩ := List.mem_map.mp hv
    exact ⟨o, ho, congrArg Prod.fst he⟩
  · intro h
    obtain ⟨o, ho, rfl⟩ := h
    exact ⟨o, List.mem_map.mpr ⟨o, ho, rfl⟩⟩

/-- The total of an edit comes from the walk along its own file. -/
theorem externalLinesAfter_get {observations front rest : List EditObservation}
    {o : EditObservation} (ho : o ∈ observations)
    (honly : ∀ o' ∈ observations, o'.callKey = o.callKey → o' = o)
    (hwindows : ∀ o' ∈ observations, o'.fileKey = o.fileKey → o'.window ≠ none)
    (hkeys : ((observations.filter (fun o' => o'.fileKey = o.fileKey)).map
      EditObservation.callKey).Nodup)
    (hsplit : sortedBy observationOrder (observations.filter (fun o' => o'.fileKey = o.fileKey)) =
      front ++ o :: rest) :
    (externalLinesAfter observations).get? o.callKey = some ((o :: rest).map countsOf).sum := by
  have hframe : ∀ (groups : List (FileKey × List EditObservation)) (out : Dict CallKey LineCounts),
      (∀ group ∈ groups, o.callKey ∉ group.2.map EditObservation.callKey) →
      (groups.foldl (fun out group =>
        ((sortedBy observationOrder group.2).foldr tailStep ⟨0, true, out⟩).out) out).get?
          o.callKey = out.get? o.callKey := by
    intro groups
    induction groups with
    | nil =>
      intro out _
      rfl
    | cons group groups ih =>
      intro out h
      rw [List.foldl_cons, ih _ (fun g hg => h g (List.mem_cons_of_mem _ hg))]
      apply walk_frame
      rw [((sortedBy_perm observationOrder group.2).map _).mem_iff]
      exact h group (List.mem_cons_self ..)
  have hentry := mem_files.mpr ⟨⟨o, ho, rfl⟩, rfl⟩
  obtain ⟨before, after, hentries⟩ := List.append_of_mem hentry
  have hnodup := (Dict.empty.gather (observations.map (fun o => (o.fileKey, o)))).nodup
  rw [hentries, List.map_append, List.map_cons, List.nodup_append] at hnodup
  have hafter : ∀ group ∈ after, o.callKey ∉ group.2.map EditObservation.callKey := by
    intro group hg hm
    obtain ⟨o', ho', hkey⟩ := List.mem_map.mp hm
    have hin : group ∈ (Dict.empty.gather (observations.map (fun o => (o.fileKey, o)))).entries := by
      rw [hentries]
      exact List.mem_append_right _ (List.mem_cons_of_mem _ hg)
    have hgroup : group.2 = observations.filter (fun o => o.fileKey = group.1) :=
      (mem_files.mp hin).2
    rw [hgroup, List.mem_filter, decide_eq_true_eq] at ho'
    obtain rfl := honly o' ho'.1 hkey
    have hkeys' := List.mem_map_of_mem (f := Prod.fst) hg
    rw [← ho'.2] at hkeys'
    exact (List.nodup_cons.mp hnodup.2.1).1 hkeys'
  unfold externalLinesAfter
  dsimp only
  rw [hentries, List.foldl_append, List.foldl_cons, hframe after _ hafter, hsplit]
  have hmem : ∀ o' ∈ front ++ o :: rest, o' ∈ observations ∧ o'.fileKey = o.fileKey := by
    intro o' ho'
    rw [← hsplit, mem_sortedBy, List.mem_filter, decide_eq_true_eq] at ho'
    exact ho'
  apply walk_total
  · intro o' ho'
    exact hwindows o' (hmem o' ho').1 (hmem o' ho').2
  · rw [← hsplit]
    exact ((sortedBy_perm observationOrder _).map _).nodup_iff.mpr hkeys

section
variable (orgId : String) (harness : AgentHarness) (occurredAt : Int → AwareDatetime)

def storedObservation (sessionId : String) (pair : Pair) : EditObservation where
  orgId := orgId
  agentHarness := harness
  sessionId := sessionId
  callId := pair.edit.toolUseId
  filePath := pair.edit.filePath
  externalLinesAdded := pair.externalLines.map Prod.fst
  externalLinesRemoved := pair.externalLines.map Prod.snd
  occurredAt := occurredAt pair.edit.timeUnixNano

/-- The first pair under each key stays. -/
def storedObservations [LineDigest] (c : CapturedSession) : List EditObservation :=
  firstWins EditObservation.callKey
    (c.pairs.map (storedObservation orgId harness occurredAt c.sessionId))

/-- Whether a stored observation is of this Session. -/
def ofSession (c : CapturedSession) (o : EditObservation) : Bool :=
  o.orgId = orgId ∧ o.agentHarness = harness ∧ o.sessionId = c.sessionId

end

section
variable (c : CapturedSession) (occurredAt : Int → AwareDatetime)

def snapshotTime (callId : String) : Int :=
  ((c.snapshots.find? (fun snap => snap.callId = callId)).map Cli.Snapshot.ts).getD 0

def editTime (callId : String) : Int :=
  ((c.edits.find? (fun edit => edit.toolUseId = callId)).map Edit.timeUnixNano).getD 0

/-- The client orders calls by the time of their snapshots. -/
def clientOrder (callId : String) : Int ×ₗ String := toLex (snapshotTime c callId, callId)

/-- The server orders them by the time of their transcript entries. -/
def serverOrder (callId : String) : Int ×ₗ String :=
  toLex ((occurredAt (editTime c callId)).utc, callId)

/-- The counts that the client shipped for a call. -/
def clientWindow [LineDigest] (callId : String) : LineCounts :=
  ((c.pairs.find? (fun pair => pair.edit.toolUseId = callId)).bind Pair.externalLines).getD 0

theorem clientOrder_snap {snap : Cli.Snapshot} (h : snap ∈ c.snapshots) :
    clientOrder c snap.callId = snapshotOrder snap := by
  have hfound : ∃ s, c.snapshots.find? (fun s => s.callId = snap.callId) = some s := by
    rw [← Option.isSome_iff_exists, List.find?_isSome]
    exact ⟨snap, h, by simp⟩
  obtain ⟨s, hs⟩ := hfound
  have hid : s.callId = snap.callId := by simpa using List.find?_some hs
  rw [clientOrder, snapshotTime, hs, CapturedSession.snap_inj (List.mem_of_find?_eq_some hs) h hid]
  rfl

variable [LineDigest]

theorem clientWindow_eq {c : CapturedSession} {path : String} (h : c.Complete path)
    {callId : String} {counts : LineCounts} (hw : c.Window path callId counts) :
    clientWindow c callId = counts := by
  obtain ⟨snap, hs, rfl⟩ := CapturedSession.window_snap hw
  obtain ⟨edit, he, hid, hp⟩ := CapturedSession.edit_of_timeline hs
  obtain ⟨pair, hpair, rfl⟩ := CapturedSession.edit_ships h he hp
  have hfound : ∃ p, c.pairs.find? (fun p => p.edit.toolUseId = snap.callId) = some p := by
    rw [← Option.isSome_iff_exists, List.find?_isSome]
    exact ⟨pair, hpair, by simpa using hid⟩
  obtain ⟨p, hfirst⟩ := hfound
  have hpid : p.edit.toolUseId = snap.callId := by simpa using List.find?_some hfirst
  have hmem := List.mem_of_find?_eq_some hfirst
  have hpath : p.edit.filePath = path := by
    obtain ⟨hsnap, -, hsp⟩ := CapturedSession.mem_timeline.mp hs
    exact (c.samePath snap hsnap p.edit (CapturedSession.mem_pairs.mp hmem).1 hpid).trans hsp
  obtain ⟨found, hlines, hfw⟩ := CapturedSession.pair_window h hmem hpath
  rw [hpid] at hfw
  rw [clientWindow, hfirst, Option.bind_some, hlines, (CapturedSession.window_inj hfw hw).2]
  rfl

omit [LineDigest] in
/-- The calls of a timeline stand in strict order. -/
theorem timeline_sorted (path : String) :
    ((c.timeline path).map Cli.Snapshot.callId).Pairwise
      (fun a b => clientOrder c a < clientOrder c b) := by
  rw [List.pairwise_map]
  have hle : (c.timeline path).Pairwise (fun a b => snapshotOrder a ≤ snapshotOrder b) :=
    (sortedBy_pairwise snapshotOrder c.snapshots).filter _
  have hne : (c.timeline path).Pairwise (fun a b => a ≠ b) := CapturedSession.nodup_timeline path
  refine (hle.and hne).imp_of_mem ?_
  intro a b ha hb hab
  have hma := (CapturedSession.mem_timeline.mp ha).1
  have hmb := (CapturedSession.mem_timeline.mp hb).1
  rw [clientOrder_snap c hma, clientOrder_snap c hmb]
  apply lt_of_le_of_ne hab.1
  intro he
  exact hab.2 (CapturedSession.snap_inj hma hmb (Prod.mk.inj he).2)

variable {c} {path : String}

omit [LineDigest] in
/-- All pairs of a call of a complete file are pairs of that file. -/
theorem path_of_call (h : c.Complete path) {edit edit' : Edit} (he : edit ∈ c.edits)
    (hp : edit.filePath = path) (he' : edit' ∈ c.edits) (hid : edit'.toolUseId = edit.toolUseId) :
    edit'.filePath = path := by
  obtain ⟨snap, hs, hsid⟩ := CapturedSession.snapshot_of_complete h he hp
  obtain ⟨hm, -, hsp⟩ := CapturedSession.mem_timeline.mp hs
  exact (c.samePath snap hm edit' he' (hid.trans hsid.symm)).trans hsp

/-- The first pair of a call is the one of its first edit. -/
theorem find?_edit (h : c.Complete path) {pair : Pair} (hpath : pair.edit.filePath = path)
    (hfirst : c.pairs.find? (fun p => p.edit.toolUseId = pair.edit.toolUseId) = some pair) :
    c.edits.find? (fun e => e.toolUseId = pair.edit.toolUseId) = some pair.edit := by
  have he := (CapturedSession.mem_pairs.mp (List.mem_of_find?_eq_some hfirst)).1
  rw [CapturedSession.pairs, buildPairs, List.find?_filterMap] at hfirst
  obtain ⟨edit, hedit, hship⟩ := Option.bind_eq_some_iff.mp hfirst
  obtain ⟨text, -, rfl⟩ := Option.map_eq_some_iff.mp hship
  dsimp only at he hpath hedit ⊢
  rw [← hedit]
  apply List.find?_congr
  intro a ha
  by_cases hid : a.toolUseId = edit.toolUseId
  · obtain ⟨pair, hpair, rfl⟩ :=
      CapturedSession.edit_ships h ha (path_of_call h he hpath ha hid)
    rw [(CapturedSession.mem_pairs.mp hpair).2.1]
    simp [hid]
  · cases shippable (observedFileStates c.disk c.edits) a with
    | none => simp [hid]
    | some text => simp [hid]

variable {orgId : String} {harness : AgentHarness} {occurredAt}

omit [LineDigest] in
theorem storedObservation_window (sessionId : String) (pair : Pair) :
    (storedObservation orgId harness occurredAt sessionId pair).window = pair.externalLines := by
  obtain ⟨edit, text, lines⟩ := pair
  cases lines with
  | none => rfl
  | some counts => rfl

/-- What is stored of a call comes from the first pair of the call. -/
theorem stored_pair {o : EditObservation} (h : o ∈ storedObservations orgId harness occurredAt c) :
    ∃ pair, o = storedObservation orgId harness occurredAt c.sessionId pair ∧
      c.pairs.find? (fun p => p.edit.toolUseId = pair.edit.toolUseId) = some pair := by
  have hfirst := find?_of_mem_firstWins h
  rw [List.find?_map, Option.map_eq_some_iff] at hfirst
  obtain ⟨pair, hpair, rfl⟩ := hfirst
  refine ⟨pair, rfl, ?_⟩
  rw [← hpair]
  congr 1
  funext p
  apply decide_eq_decide.mpr
  simp [EditObservation.callKey, storedObservation]

omit [LineDigest] in
theorem nodup_keys (stored : List EditObservation) :
    ((firstWins EditObservation.callKey stored).map EditObservation.callKey).Nodup :=
  nodup_firstWins stored

theorem stored_facts (h : c.Complete path) {o : EditObservation}
    (ho : o ∈ storedObservations orgId harness occurredAt c) (hp : o.filePath = path) :
    o.window = some (clientWindow c o.callId) ∧
      observationOrder o = serverOrder c occurredAt o.callId ∧
      o.callId ∈ (c.timeline path).map Cli.Snapshot.callId := by
  obtain ⟨pair, rfl, hfirst⟩ := stored_pair ho
  have hmem := List.mem_of_find?_eq_some hfirst
  have hpath : pair.edit.filePath = path := hp
  obtain ⟨counts, hlines, hw⟩ := CapturedSession.pair_window h hmem hpath
  obtain ⟨snap, hs, hid⟩ := CapturedSession.window_snap hw
  refine ⟨?_, ?_, List.mem_map.mpr ⟨snap, hs, hid⟩⟩
  · rw [storedObservation_window, hlines]
    exact congrArg some (clientWindow_eq h hw).symm
  · have htime : editTime c pair.edit.toolUseId = pair.edit.timeUnixNano := by
      rw [editTime, find?_edit h hpath hfirst]
      rfl
    change toLex ((occurredAt pair.edit.timeUnixNano).utc, pair.edit.toolUseId) =
      toLex ((occurredAt (editTime c pair.edit.toolUseId)).utc, pair.edit.toolUseId)
    rw [htime]

/-- Every call of a complete file is stored under that file. -/
theorem stored_of_timeline (h : c.Complete path) {callId : String}
    (hid : callId ∈ (c.timeline path).map Cli.Snapshot.callId) :
    ∃ o ∈ storedObservations orgId harness occurredAt c, o.callId = callId ∧ o.filePath = path := by
  obtain ⟨snap, hs, rfl⟩ := List.mem_map.mp hid
  obtain ⟨edit, he, hedit, hp⟩ := CapturedSession.edit_of_timeline hs
  obtain ⟨pair, hpair, rfl⟩ := CapturedSession.edit_ships h he hp
  have hkey : (storedObservation orgId harness occurredAt c.sessionId pair).callKey ∈
      (storedObservations orgId harness occurredAt c).map EditObservation.callKey :=
    (mem_keys_firstWins _).mpr (List.mem_map_of_mem (List.mem_map_of_mem hpair))
  obtain ⟨o, ho, hcall⟩ := List.mem_map.mp hkey
  have hoid : o.callId = snap.callId := by
    have := congrArg (fun k : CallKey => k.2.2.2) hcall
    exact this.trans hedit
  obtain ⟨p, rfl, hfirst⟩ := stored_pair ho
  have hpe := (CapturedSession.mem_pairs.mp (List.mem_of_find?_eq_some hfirst)).1
  exact ⟨_, ho, hoid, path_of_call h he hp hpe (hoid.trans hedit.symm)⟩

omit [LineDigest] in
/-- The calls of a file. -/
def fileCalls (c : CapturedSession) (path : String) : Finset String :=
  ((c.timeline path).map Cli.Snapshot.callId).toFinset

theorem client_total {front rest : List Cli.Snapshot} {snap : Cli.Snapshot}
    (hsplit : c.timeline path = front ++ snap :: rest) :
    ((snap :: rest).map (fun s => clientWindow c s.callId)).sum =
      tailSum (fileCalls c path) (clientOrder c) (clientWindow c) snap.callId := by
  have hsorted := timeline_sorted c path
  rw [hsplit, List.map_append, List.map_cons] at hsorted
  rw [fileCalls, hsplit, List.map_append, List.map_cons (f := Cli.Snapshot.callId),
    tailSum_of_sorted hsorted, ← List.map_cons (f := Cli.Snapshot.callId), List.map_map]
  rfl

variable {observations : List EditObservation}

theorem file_group (hstored : (observations.filter (ofSession orgId harness c)).Perm
    (storedObservations orgId harness occurredAt c)) :
    (observations.filter (fun o => o.fileKey = (orgId, harness, c.sessionId, path))).Perm
      ((storedObservations orgId harness occurredAt c).filter (fun o => o.filePath = path)) := by
  have hsame : observations.filter (fun o => o.fileKey = (orgId, harness, c.sessionId, path)) =
      (observations.filter (ofSession orgId harness c)).filter (fun o => o.filePath = path) := by
    rw [List.filter_filter]
    apply List.filter_congr
    intro o _
    simp only [EditObservation.fileKey, ofSession, Prod.mk.injEq, Bool.decide_and]
    ac_rfl
  rw [hsame]
  exact hstored.filter _

/-- The stored calls of a file, in the order of the server, are those of its timeline. -/
theorem stored_sorted (h : c.Complete path) {group : List EditObservation}
    (hgroup : group.Perm ((storedObservations orgId harness occurredAt c).filter
      (fun o => o.filePath = path))) :
    ((sortedBy observationOrder group).map EditObservation.callId).Pairwise
        (fun a b => serverOrder c occurredAt a < serverOrder c occurredAt b) ∧
      ((sortedBy observationOrder group).map EditObservation.callId).toFinset = fileCalls c path := by
  have hmem : ∀ o ∈ sortedBy observationOrder group,
      o ∈ storedObservations orgId harness occurredAt c ∧ o.filePath = path := by
    intro o ho
    have hf := hgroup.mem_iff.mp (mem_sortedBy.mp ho)
    rwa [List.mem_filter, decide_eq_true_eq] at hf
  have hinj : ∀ o ∈ sortedBy observationOrder group, ∀ o' ∈ sortedBy observationOrder group,
      o.callId = o'.callId → o = o' := by
    intro o ho o' ho' he
    apply List.inj_on_of_nodup_map (nodup_keys _) (hmem o ho).1 (hmem o' ho').1
    obtain ⟨p, rfl, -⟩ := stored_pair (hmem o ho).1
    obtain ⟨p', rfl, -⟩ := stored_pair (hmem o' ho').1
    exact congrArg (fun id : String => (orgId, harness, c.sessionId, id)) he
  have hnodup : (sortedBy observationOrder group).Nodup := by
    rw [(sortedBy_perm observationOrder group).nodup_iff, hgroup.nodup_iff]
    exact (nodup_keys _).of_map.filter _
  constructor
  · rw [List.pairwise_map]
    refine ((sortedBy_pairwise observationOrder group).and hnodup).imp_of_mem ?_
    intro a b ha hb hab
    rw [← (stored_facts h (hmem a ha).1 (hmem a ha).2).2.1,
      ← (stored_facts h (hmem b hb).1 (hmem b hb).2).2.1]
    apply lt_of_le_of_ne hab.1
    intro he
    exact hab.2 (hinj a ha b hb (Prod.mk.inj he).2)
  · ext callId
    rw [fileCalls, List.mem_toFinset, List.mem_toFinset]
    constructor
    · intro hm
      obtain ⟨o, ho, rfl⟩ := List.mem_map.mp hm
      exact (stored_facts h (hmem o ho).1 (hmem o ho).2).2.2
    · intro hm
      obtain ⟨o, ho, hid, hp⟩ : ∃ o ∈ storedObservations orgId harness occurredAt c,
        o.callId = callId ∧ o.filePath = path := stored_of_timeline h hm
      refine List.mem_map.mpr ⟨o, mem_sortedBy.mpr ?_, hid⟩
      exact hgroup.mem_iff.mpr (List.mem_filter.mpr ⟨ho, decide_eq_true hp⟩)

theorem server_total (h : c.Complete path)
    (hstored : (observations.filter (ofSession orgId harness c)).Perm
      (storedObservations orgId harness occurredAt c)) {callId : String}
    (hid : callId ∈ (c.timeline path).map Cli.Snapshot.callId) :
    (externalLinesAfter observations).get? (orgId, harness, c.sessionId, callId) =
      some (tailSum (fileCalls c path) (serverOrder c occurredAt) (clientWindow c) callId) := by
  have hgroup : (observations.filter
      (fun o => o.fileKey = (orgId, harness, c.sessionId, path))).Perm
        ((storedObservations orgId harness occurredAt c).filter (fun o => o.filePath = path)) :=
    file_group hstored
  obtain ⟨o, ho, rfl, hp⟩ : ∃ o ∈ storedObservations orgId harness occurredAt c,
    o.callId = callId ∧ o.filePath = path := stored_of_timeline h hid
  have hkey : o.fileKey = (orgId, harness, c.sessionId, path) ∧
      o.callKey = (orgId, harness, c.sessionId, o.callId) := by
    obtain ⟨p, rfl, -⟩ := stored_pair ho
    exact ⟨congrArg (fun s : String => (orgId, harness, c.sessionId, s)) hp, rfl⟩
  have hin : o ∈ observations.filter (fun o' => o'.fileKey = o.fileKey) := by
    rw [hkey.1]
    exact hgroup.mem_iff.mpr (List.mem_filter.mpr ⟨ho, decide_eq_true hp⟩)
  rw [← hkey.1] at hgroup
  obtain ⟨hsorted, hcalls⟩ := stored_sorted h hgroup
  have hsort : o ∈ sortedBy observationOrder
      (observations.filter (fun o' => o'.fileKey = o.fileKey)) := mem_sortedBy.mpr hin
  obtain ⟨front, rest, hsplit⟩ := List.append_of_mem hsort
  have hmem : ∀ o' ∈ observations, o'.fileKey = o.fileKey →
      o' ∈ storedObservations orgId harness occurredAt c ∧ o'.filePath = path := by
    intro o' ho' hf
    have := hgroup.mem_iff.mp (List.mem_filter.mpr ⟨ho', decide_eq_true hf⟩)
    rwa [List.mem_filter, decide_eq_true_eq] at this
  have hstep := externalLinesAfter_get (List.mem_filter.mp hin).1 ?_ ?_ ?_ hsplit
  · rw [hkey.2] at hstep
    rw [hsplit, List.map_append, List.map_cons] at hsorted
    rw [hstep, ← hcalls, hsplit, List.map_append, List.map_cons (f := EditObservation.callId),
      tailSum_of_sorted hsorted, ← List.map_cons (f := EditObservation.callId), List.map_map]
    congr 2
    apply List.map_congr_left
    intro o' ho'
    have hf : o' ∈ observations.filter (fun p => p.fileKey = o.fileKey) := by
      have hs : o' ∈ sortedBy observationOrder
          (observations.filter (fun p => p.fileKey = o.fileKey)) := by
        rw [hsplit]
        exact List.mem_append_right _ ho'
      exact mem_sortedBy.mp hs
    obtain ⟨hm, hpath⟩ := hmem o' (List.mem_filter.mp hf).1
      (of_decide_eq_true (List.mem_filter.mp hf).2)
    rw [countsOf, (stored_facts h hm hpath).1]
    rfl
  · intro o' ho' hcall
    have hsession : o' ∈ observations.filter (ofSession orgId harness c) := by
      refine List.mem_filter.mpr ⟨ho', ?_⟩
      rw [hkey.2] at hcall
      simp only [EditObservation.callKey, Prod.mk.injEq] at hcall
      simp [ofSession, hcall]
    exact List.inj_on_of_nodup_map (nodup_keys _) (hstored.mem_iff.mp hsession) ho hcall
  · intro o' ho' hf
    obtain ⟨hm, hpath⟩ := hmem o' ho' hf
    rw [(stored_facts h hm hpath).1]
    simp
  · rw [(hgroup.map EditObservation.callKey).nodup_iff]
    exact (nodup_keys _).sublist (List.filter_sublist.map _)

/-- For one file that ships counts: every applied edit carries them, they are the
lines changed between the edit and the next one or the Session end, and the
server's total for an edit is the sum of the windows from it on. -/
structure Agrees (c : CapturedSession) (orgId : String) (harness : AgentHarness)
    (observations : List EditObservation) (path : String) : Prop where
  covered : ∀ edit ∈ c.edits, edit.filePath = path →
    edit.toolUseId ∈ (c.timeline path).map Cli.Snapshot.callId ∧
      ∃ pair ∈ c.pairs, pair.edit = edit ∧ pair.externalLines = some (clientWindow c edit.toolUseId)
  tiles : ∀ front snap rest, c.timeline path = front ++ snap :: rest →
    (∃ edit ∈ c.edits, edit.toolUseId = snap.callId ∧ edit.filePath = path) ∧
      ∃ opened closed, snap.post = some opened ∧ closedLines (c.atEnd path) rest = some closed ∧
        clientWindow c snap.callId = lineDelta opened closed
  totals : ∀ front snap rest, c.timeline path = front ++ snap :: rest →
    (externalLinesAfter observations).get? (orgId, harness, c.sessionId, snap.callId) =
      some ((snap :: rest).map (fun s => clientWindow c s.callId)).sum

/-- Whenever snapshots and transcript order two edits of a file differently, nothing
changed in the window of either. -/
def Undisturbed (c : CapturedSession) (occurredAt : Int → AwareDatetime) (path : String) : Prop :=
  ∀ s closed t closed', (s, closed) ∈ closings (c.atEnd path) (c.timeline path) →
    (t, closed') ∈ closings (c.atEnd path) (c.timeline path) →
    clientOrder c s.callId < clientOrder c t.callId →
    serverOrder c occurredAt t.callId < serverOrder c occurredAt s.callId →
      s.post = closed ∧ t.post = closed'

theorem window_closing (h : c.Complete path) {snap : Cli.Snapshot} {closed : Option (List String)}
    (hc : (snap, closed) ∈ closings (c.atEnd path) (c.timeline path)) :
    clientWindow c snap.callId = 0 ↔ snap.post = closed := by
  have hs := List.mem_map_of_mem (f := Prod.fst) hc
  rw [map_fst_closings] at hs
  obtain ⟨counts, hw⟩ := CapturedSession.window_of_complete h hs
  rw [clientWindow_eq h hw]
  obtain ⟨s, opened, lines, hc', hid, hopened, rfl⟩ := hw
  have hs' := List.mem_map_of_mem (f := Prod.fst) hc'
  rw [map_fst_closings] at hs'
  obtain rfl := CapturedSession.snap_inj (CapturedSession.mem_timeline.mp hs').1
    (CapturedSession.mem_timeline.mp hs).1 hid
  rw [closings_inj (CapturedSession.nodup_timeline path) hc hc', hopened, lineDelta_eq_zero,
    Option.some.injEq]

theorem totals_iff (h : c.Complete path)
    (hstored : (observations.filter (ofSession orgId harness c)).Perm
      (storedObservations orgId harness occurredAt c)) :
    (∀ front snap rest, c.timeline path = front ++ snap :: rest →
      (externalLinesAfter observations).get? (orgId, harness, c.sessionId, snap.callId) =
        some ((snap :: rest).map (fun s => clientWindow c s.callId)).sum) ↔
      Undisturbed c occurredAt path := by
  have hpoint : (∀ front snap rest, c.timeline path = front ++ snap :: rest →
      (externalLinesAfter observations).get? (orgId, harness, c.sessionId, snap.callId) =
        some ((snap :: rest).map (fun s => clientWindow c s.callId)).sum) ↔
      ∀ id ∈ fileCalls c path, tailSum (fileCalls c path) (clientOrder c) (clientWindow c) id =
        tailSum (fileCalls c path) (serverOrder c occurredAt) (clientWindow c) id := by
    constructor
    · intro htotals id hid
      rw [fileCalls, List.mem_toFinset] at hid
      have hserver := server_total h hstored hid
      obtain ⟨snap, hs, rfl⟩ := List.mem_map.mp hid
      obtain ⟨front, rest, hsplit⟩ := List.append_of_mem hs
      have htotal := htotals front snap rest hsplit
      rw [hserver, Option.some.injEq] at htotal
      rw [htotal, client_total hsplit]
    · intro htails front snap rest hsplit
      have hid : snap.callId ∈ (c.timeline path).map Cli.Snapshot.callId := by
        rw [hsplit]
        exact List.mem_map_of_mem (List.mem_append_right _ (List.mem_cons_self ..))
      rw [server_total h hstored hid, client_total hsplit,
        htails _ (List.mem_toFinset.mpr hid)]
  have hinj : ∀ a ∈ fileCalls c path, ∀ b ∈ fileCalls c path,
      clientOrder c a = clientOrder c b → a = b := fun a _ b _ he => (Prod.mk.inj he).2
  have hinj' : ∀ a ∈ fileCalls c path, ∀ b ∈ fileCalls c path,
      serverOrder c occurredAt a = serverOrder c occurredAt b → a = b :=
    fun a _ b _ he => (Prod.mk.inj he).2
  rw [hpoint, tailSum_eq_iff hinj hinj']
  have hcall : ∀ {s : Cli.Snapshot} {closed : Option (List String)},
      (s, closed) ∈ closings (c.atEnd path) (c.timeline path) → s.callId ∈ fileCalls c path := by
    intro s closed hs
    have hm := List.mem_map_of_mem (f := Prod.fst) hs
    rw [map_fst_closings] at hm
    exact List.mem_toFinset.mpr (List.mem_map_of_mem hm)
  have hclosing : ∀ {id : String}, id ∈ fileCalls c path →
      ∃ s closed, (s, closed) ∈ closings (c.atEnd path) (c.timeline path) ∧ s.callId = id := by
    intro id hid
    obtain ⟨snap, hs, rfl⟩ := List.mem_map.mp (List.mem_toFinset.mp hid)
    obtain ⟨front, rest, hsplit⟩ := List.append_of_mem hs
    exact ⟨snap, _, mem_closings.mpr ⟨front, rest, hsplit, rfl⟩, rfl⟩
  constructor
  · intro hzero s closed t closed' hs ht hclient hserver
    obtain ⟨hws, hwt⟩ := hzero _ (hcall hs) _ (hcall ht) hclient hserver
    exact ⟨(window_closing h hs).mp hws, (window_closing h ht).mp hwt⟩
  · intro hsame a ha b hb hclient hserver
    obtain ⟨s, closed, hs, rfl⟩ := hclosing ha
    obtain ⟨t, closed', ht, rfl⟩ := hclosing hb
    obtain ⟨hps, hpt⟩ := hsame s closed t closed' hs ht hclient hserver
    exact ⟨(window_closing h hs).mpr hps, (window_closing h ht).mpr hpt⟩

theorem covered_of_complete (h : c.Complete path) {edit : Edit} (he : edit ∈ c.edits)
    (hp : edit.filePath = path) : edit.toolUseId ∈ (c.timeline path).map Cli.Snapshot.callId ∧
      ∃ pair ∈ c.pairs, pair.edit = edit ∧
        pair.externalLines = some (clientWindow c edit.toolUseId) := by
  obtain ⟨snap, hs, hid⟩ := CapturedSession.snapshot_of_complete h he hp
  refine ⟨List.mem_map.mpr ⟨snap, hs, hid⟩, ?_⟩
  obtain ⟨pair, hpair, rfl⟩ := CapturedSession.edit_ships h he hp
  obtain ⟨counts, hlines, hw⟩ := CapturedSession.pair_window h hpair hp
  exact ⟨pair, hpair, rfl, by rw [hlines, clientWindow_eq h hw]⟩

theorem tiles_of_complete (h : c.Complete path) {front rest : List Cli.Snapshot} {snap : Cli.Snapshot}
    (hsplit : c.timeline path = front ++ snap :: rest) :
    (∃ edit ∈ c.edits, edit.toolUseId = snap.callId ∧ edit.filePath = path) ∧
      ∃ opened closed, snap.post = some opened ∧ closedLines (c.atEnd path) rest = some closed ∧
        clientWindow c snap.callId = lineDelta opened closed := by
  have hs : snap ∈ c.timeline path := by
    rw [hsplit]
    exact List.mem_append_right _ (List.mem_cons_self ..)
  refine ⟨CapturedSession.edit_of_timeline hs, ?_⟩
  obtain ⟨counts, hw⟩ := CapturedSession.window_of_complete h hs
  rw [clientWindow_eq h hw]
  obtain ⟨s, opened, closed, hc, hid, hopened, rfl⟩ := hw
  have hs' := List.mem_map_of_mem (f := Prod.fst) hc
  rw [map_fst_closings] at hs'
  obtain rfl := CapturedSession.snap_inj (CapturedSession.mem_timeline.mp hs').1
    (CapturedSession.mem_timeline.mp hs).1 hid
  have hclosed := closings_inj (CapturedSession.nodup_timeline path)
    (mem_closings.mpr ⟨front, rest, hsplit, rfl⟩) hc
  exact ⟨opened, closed, hopened, hclosed, rfl⟩

/-- An unknown window of one edit keeps back the counts of its whole file. -/
theorem unknown_window_ships_none {edit : Edit} (he : edit ∈ c.edits)
    (hunknown : c.deltas.get? edit.toolUseId = none) {pair : Pair} (hp : pair ∈ c.pairs)
    (hpath : pair.edit.filePath = edit.filePath) : pair.externalLines = none := by
  by_contra hlines
  have h := CapturedSession.ships_iff.mp ⟨pair, hp, hpath, hlines⟩
  have hopen := (CapturedSession.unholed_iff ⟨edit, he, rfl⟩).mpr h
  obtain ⟨-, counts, hcounts⟩ := CapturedSession.holed_eq_false.mp hopen edit he rfl
  rw [hunknown] at hcounts
  cases hcounts

/-- Client windows and server tails agree on every file that ships counts exactly
when no edit of such a file that the two sides order differently was followed by
a change. -/
theorem windows_agree_iff (c : CapturedSession) (orgId : String) (harness : AgentHarness)
    (occurredAt : Int → AwareDatetime) (observations : List EditObservation)
    (hstored : (observations.filter (ofSession orgId harness c)).Perm
      (storedObservations orgId harness occurredAt c)) :
    ((∀ path, (∃ pair ∈ c.pairs, pair.edit.filePath = path ∧ pair.externalLines ≠ none) →
        Agrees c orgId harness observations path) ∧
      ∀ edit ∈ c.edits, c.deltas.get? edit.toolUseId = none →
        ∀ pair ∈ c.pairs, pair.edit.filePath = edit.filePath → pair.externalLines = none) ↔
      ∀ path, c.Complete path → Undisturbed c occurredAt path := by
  constructor
  · intro h path hcomplete
    exact (totals_iff hcomplete hstored).mp (h.1 path (CapturedSession.ships_iff.mpr hcomplete)).totals
  · intro h
    constructor
    · intro path hships
      have hcomplete := CapturedSession.ships_iff.mp hships
      exact ⟨fun edit he hp => covered_of_complete hcomplete he hp,
        fun front snap rest hsplit => tiles_of_complete hcomplete hsplit,
        (totals_iff hcomplete hstored).mpr (h path hcomplete)⟩
    · intro edit he hunknown pair hp hpath
      exact unknown_window_ships_none he hunknown hp hpath

end

@[reducible] def digests : LineDigest := ⟨fun line => String.ofList line⟩

@[reducible] def clock : Timestamps :=
  ⟨fun s => if s = "2026-07-24T01:00:00.000+00:00" then some 1784854800000000000 else none⟩

@[reducible] def exactFloats : FloatValue := ⟨fun _ => 0⟩

def storedAt (nanos : Int) : AwareDatetime :=
  ⟨nanos / 1000, "2026-07-24T01:00:00+00:00", "UTC", 0⟩

def writeBlock (id content : String) : Value :=
  .obj [("type", .str "tool_use"), ("id", .str id), ("name", .str "Write"),
    ("input", .obj [("file_path", .str "/w/app.py"), ("content", .str content)])]

def resultBlock (id : String) : Value :=
  .obj [("type", .str "tool_result"), ("tool_use_id", .str id), ("content", .str "ok")]

/-- One message of the agent writes a file twice, under one timestamp. -/
def parallelEntries : List Fields :=
  [[("type", .str "assistant"), ("sessionId", .str "sess-1"),
      ("timestamp", .str "2026-07-24T01:00:00.000Z"),
      ("message", .obj [("content", .arr [writeBlock "toolu-b" "x\n", writeBlock "toolu-a" "z\n"])])],
    [("type", .str "user"), ("sessionId", .str "sess-1"),
      ("message", .obj [("content", .arr [resultBlock "toolu-b", resultBlock "toolu-a"])])]]

def firstWrite : Cli.Snapshot :=
  ⟨"toolu-b", "/w/app.py", 1, [], some ["4adf4367f96e584f"]⟩

def secondWrite : Cli.Snapshot :=
  ⟨"toolu-a", "/w/app.py", 2, ["4adf4367f96e584f", "0fa38cc58395a65f"], some ["8441b0a728fd4130"]⟩

/-- A line was added by hand after the first write, and the file was deleted after the second. -/
def parallelWrites : CapturedSession where
  sessionId := "sess-1"
  edits := [⟨"toolu-b", "Write", "/w/app.py", "x\n", 1784854800000000000⟩,
    ⟨"toolu-a", "Write", "/w/app.py", "z\n", 1784854800000000000⟩]
  snapshots := [firstWrite, secondWrite]
  disk := fun _ => .missing true
  distinct := by decide
  samePath := by decide

theorem parallelWrites_extracted :
    @extractEdits clock exactFloats parallelEntries (some "sess-1") = some parallelWrites.edits := by
  decide

theorem parallelWrites_timeline :
    parallelWrites.timeline "/w/app.py" = [firstWrite, secondWrite] := by
  decide

def parallelStored : List EditObservation :=
  @storedObservations "acme" .claudeCode storedAt digests parallelWrites

theorem parallelStored_total : (externalLinesAfter parallelStored).get?
    ("acme", .claudeCode, "sess-1", "toolu-b") = some (1, 0) := by
  decide

theorem parallelWrites_windows : @clientWindow parallelWrites digests "toolu-b" = (1, 0) ∧
    @clientWindow parallelWrites digests "toolu-a" = (0, 1) := by
  decide

theorem parallelWrites_ship : ∃ pair ∈ @CapturedSession.pairs parallelWrites digests,
    pair.edit.filePath = "/w/app.py" ∧ pair.externalLines ≠ none := by
  decide

/-- The server takes the line that was added after the first write for one before it. -/
theorem parallel_writes_disagree :
    @extractEdits clock exactFloats parallelEntries (some "sess-1") = some parallelWrites.edits ∧
      (parallelStored.filter (ofSession "acme" .claudeCode parallelWrites)).Perm parallelStored ∧
      ¬ ∀ path, (∃ pair ∈ @CapturedSession.pairs parallelWrites digests,
          pair.edit.filePath = path ∧ pair.externalLines ≠ none) →
        @Agrees digests parallelWrites "acme" .claudeCode parallelStored path := by
  refine ⟨parallelWrites_extracted, List.Perm.of_eq (by decide), ?_⟩
  intro h
  let := digests
  have htotal := (h "/w/app.py" parallelWrites_ship).totals [] firstWrite [secondWrite]
    parallelWrites_timeline
  have hserver : (externalLinesAfter parallelStored).get?
      ("acme", .claudeCode, parallelWrites.sessionId, firstWrite.callId) = some (1, 0) :=
    parallelStored_total
  obtain ⟨hfirst, hsecond⟩ := parallelWrites_windows
  have hwindows : (([firstWrite, secondWrite] : List Cli.Snapshot).map
      (fun s => @clientWindow parallelWrites digests s.callId)).sum = (1, 1) := by
    change @clientWindow parallelWrites digests "toolu-b" +
      (@clientWindow parallelWrites digests "toolu-a" + 0) = (1, 1)
    rw [hfirst, hsecond]
    rfl
  rw [hserver, hwindows] at htotal
  exact absurd htotal (by decide)

/-- The same Session with its first edit alone. -/
def singleWrite : CapturedSession where
  sessionId := "sess-1"
  edits := [⟨"toolu-b", "Write", "/w/app.py", "x\n", 1784854800000000000⟩]
  snapshots := [firstWrite]
  disk := fun _ => .missing true
  distinct := by decide
  samePath := by decide

theorem singleWrite_agrees :
    @Agrees digests singleWrite "acme" .claudeCode
      (@storedObservations "acme" .claudeCode storedAt digests singleWrite) "/w/app.py" := by
  let := digests
  have hships : ∃ pair ∈ singleWrite.pairs,
      pair.edit.filePath = "/w/app.py" ∧ pair.externalLines ≠ none := by
    decide
  have hstored : ((storedObservations "acme" .claudeCode storedAt singleWrite).filter
      (ofSession "acme" .claudeCode singleWrite)).Perm
        (storedObservations "acme" .claudeCode storedAt singleWrite) := List.Perm.of_eq (by decide)
  refine ((windows_agree_iff singleWrite "acme" .claudeCode storedAt _ hstored).mpr ?_).1 _ hships
  intro path _ s closed t closed' hs ht hclient _
  have honly : ∀ {s : Cli.Snapshot} {closed : Option (List String)},
      (s, closed) ∈ closings (singleWrite.atEnd path) (singleWrite.timeline path) →
        s = firstWrite := by
    intro s closed h
    have hm := List.mem_map_of_mem (f := Prod.fst) h
    rw [map_fst_closings] at hm
    exact List.mem_singleton.mp (CapturedSession.mem_timeline.mp hm).1
  rw [honly hs, honly ht] at hclient
  exact absurd hclient (lt_irrefl _)

end Sediment.Proofs.ExternalLines
