import Sediment.Cli.Transcript

namespace Sediment.Proofs.TranscriptWindows
open Sediment.Base Sediment.Core Sediment.Cli

theorem opcodeDelta_eq_zero {op : Difflib.Opcode} (h : op.tag = .equal ∨
    (op.tag ≠ .insert ∧ op.i1 < op.i2) ∨ (op.tag ≠ .delete ∧ op.j1 < op.j2)) :
    opcodeDelta op = 0 ↔ op.tag = .equal := by
  obtain ⟨tag, i1, i2, j1, j2⟩ := op
  dsimp only at h ⊢
  rw [Prod.ext_iff]
  simp only [opcodeDelta, Prod.fst_zero, Prod.snd_zero]
  cases tag with
  | replace =>
    simp at h ⊢
    omega
  | delete =>
    simp at h ⊢
    omega
  | insert =>
    simp at h ⊢
    omega
  | equal => simp

theorem lineDelta_eq_sum (before after : List String) :
    lineDelta before after = ((Difflib.getOpcodes before after).map opcodeDelta).sum := by
  rw [lineDelta, List.sum_eq_foldl, List.foldl_map]

/-- No line counts as changed exactly when the lines are the same. -/
theorem lineDelta_eq_zero (before after : List String) :
    lineDelta before after = 0 ↔ before = after := by
  rw [lineDelta_eq_sum, List.sum_eq_zero_iff, ← Difflib.getOpcodes_equal_iff]
  constructor
  · intro h op hop
    exact (opcodeDelta_eq_zero (Difflib.opcodesFrom_wide _ hop)).mp
      (h _ (List.mem_map_of_mem hop))
  · intro h counts hc
    obtain ⟨op, hop, rfl⟩ := List.mem_map.mp hc
    exact (opcodeDelta_eq_zero (Difflib.opcodesFrom_wide _ hop)).mpr (h op hop)

/-- The inputs of `build_pairs`. A snapshot is stored under the id of its call and
takes the file from the input of that call, as the transcript does. -/
structure CapturedSession where
  sessionId : String
  edits : List Edit
  snapshots : List Snapshot
  disk : String → FileRead
  distinct : (snapshots.map Snapshot.callId).Nodup
  samePath : ∀ snap ∈ snapshots, ∀ edit ∈ edits, edit.toolUseId = snap.callId →
    edit.filePath = snap.filePath

/-- The snapshots with the lines that their windows close against. -/
def closings (atEnd : Option (List String)) :
    List Snapshot → List (Snapshot × Option (List String))
  | [] => []
  | snap :: rest => (snap, closedLines atEnd rest) :: closings atEnd rest

theorem fileWindows_eq (atEnd : Option (List String)) (snaps : List Snapshot) :
    fileWindows atEnd snaps = (closings atEnd snaps).filterMap (fun p => do
      let opened ← p.1.post
      let closed ← p.2
      some (p.1.callId, lineDelta opened closed)) := by
  induction snaps with
  | nil => rfl
  | cons snap rest ih =>
    rw [fileWindows, closings, List.filterMap_cons, ih]
    cases snap.post with
    | none => rfl
    | some opened =>
      cases closedLines atEnd rest with
      | none => rfl
      | some closed => rfl

theorem mem_closings {atEnd : Option (List String)} {snaps : List Snapshot} {snap : Snapshot}
    {closed : Option (List String)} :
    (snap, closed) ∈ closings atEnd snaps ↔
      ∃ front rest, snaps = front ++ snap :: rest ∧ closed = closedLines atEnd rest := by
  induction snaps with
  | nil => simp [closings]
  | cons s snaps ih =>
    rw [closings, List.mem_cons, ih, Prod.mk.injEq]
    constructor
    · intro h
      rcases h with ⟨rfl, rfl⟩ | ⟨front, rest, rfl, rfl⟩
      · exact ⟨[], snaps, rfl, rfl⟩
      · exact ⟨s :: front, rest, rfl, rfl⟩
    · intro h
      obtain ⟨front, rest, hs, rfl⟩ := h
      cases front with
      | nil =>
        obtain ⟨rfl, rfl⟩ := List.cons.inj hs
        exact Or.inl ⟨rfl, rfl⟩
      | cons s' front =>
        obtain ⟨rfl, rfl⟩ := List.cons.inj hs
        exact Or.inr ⟨front, rest, rfl, rfl⟩

theorem map_fst_closings (atEnd : Option (List String)) (snaps : List Snapshot) :
    (closings atEnd snaps).map Prod.fst = snaps := by
  induction snaps with
  | nil => rfl
  | cons snap rest ih => rw [closings, List.map_cons, ih]

theorem closings_inj {atEnd : Option (List String)} {snaps : List Snapshot} (h : snaps.Nodup)
    {snap : Snapshot} {closed closed' : Option (List String)}
    (hc : (snap, closed) ∈ closings atEnd snaps) (hc' : (snap, closed') ∈ closings atEnd snaps) :
    closed = closed' := by
  rw [← map_fst_closings atEnd snaps] at h
  exact congrArg Prod.snd (List.inj_on_of_nodup_map h hc hc' rfl)

namespace CapturedSession
variable (c : CapturedSession)

def applied : List String := c.edits.map Edit.toolUseId

/-- The snapshots of a file's applied edits, in the order of the hook. -/
def timeline (path : String) : List Snapshot :=
  (sortedBy snapshotOrder c.snapshots).filter (fun snap => snap.callId ∈ c.applied ∧
    snap.filePath = path)

def atEnd [LineDigest] (path : String) : Option (List String) :=
  (observedText (c.disk path)).map lineHashes

def pairs [LineDigest] : List Pair := buildPairs (some c.sessionId) c.snapshots c.disk c.edits

def deltas [LineDigest] : Dict String LineCounts :=
  sessionDeltas (some c.sessionId) c.snapshots c.disk c.edits

variable {c}

theorem snap_inj {snap snap' : Snapshot} (h : snap ∈ c.snapshots) (h' : snap' ∈ c.snapshots)
    (he : snap.callId = snap'.callId) : snap = snap' :=
  List.inj_on_of_nodup_map c.distinct h h' he

theorem mem_timeline {path : String} {snap : Snapshot} :
    snap ∈ c.timeline path ↔ snap ∈ c.snapshots ∧ snap.callId ∈ c.applied ∧ snap.filePath = path := by
  rw [timeline, List.mem_filter, mem_sortedBy, decide_eq_true_eq]

theorem nodup_timeline (path : String) : (c.timeline path).Nodup := by
  have hn : c.snapshots.Nodup := c.distinct.of_map
  exact ((sortedBy_perm snapshotOrder c.snapshots).nodup_iff.mpr hn).filter _

/-- The applied edit that a snapshot of a timeline was taken for. -/
theorem edit_of_timeline {path : String} {snap : Snapshot} (h : snap ∈ c.timeline path) :
    ∃ edit ∈ c.edits, edit.toolUseId = snap.callId ∧ edit.filePath = path := by
  obtain ⟨hs, happlied, hpath⟩ := mem_timeline.mp h
  obtain ⟨edit, he, hid⟩ := List.mem_map.mp happlied
  exact ⟨edit, he, hid, (c.samePath snap hs edit he hid).trans hpath⟩

theorem get?_states (path : String) : (observedFileStates c.disk c.edits).get? path =
    if path ∈ c.edits.map Edit.filePath then some (observedText (c.disk path)) else none := by
  have hloop : ∀ (edits : List Edit) (d : Dict String (Option String)),
      (edits.foldl (fun states edit => states.set edit.filePath (observedText (c.disk edit.filePath)))
        d).get? path =
        if path ∈ edits.map Edit.filePath then some (observedText (c.disk path)) else d.get? path := by
    intro edits
    induction edits with
    | nil =>
      intro d
      rfl
    | cons edit edits ih =>
      intro d
      rw [List.foldl_cons, ih, Dict.get?_set, List.map_cons]
      by_cases hp : path = edit.filePath
      · simp [hp]
      · simp [hp]
  exact hloop c.edits Dict.empty

theorem states_join {path : String} (h : ∃ edit ∈ c.edits, edit.filePath = path) :
    ((observedFileStates c.disk c.edits).get? path).join = observedText (c.disk path) := by
  rw [get?_states, if_pos (List.mem_map.mpr h)]
  rfl

section
variable [LineDigest]

/-- A window of the client: what its edit left of the file, what the next edit or
the Session end found, and the lines that changed between. -/
def Window (c : CapturedSession) (path callId : String) (counts : LineCounts) : Prop :=
  ∃ snap opened closed, (snap, some closed) ∈ closings (c.atEnd path) (c.timeline path) ∧
    snap.callId = callId ∧ snap.post = some opened ∧ counts = lineDelta opened closed

theorem mem_windows {path callId : String} {counts : LineCounts} :
    (callId, counts) ∈ fileWindows (c.atEnd path) (c.timeline path) ↔
      Window c path callId counts := by
  rw [fileWindows_eq, List.mem_filterMap]
  constructor
  · intro h
    obtain ⟨⟨snap, closed⟩, hc, hw⟩ := h
    obtain ⟨opened, hopened, hw⟩ := Option.bind_eq_some_iff.mp hw
    obtain ⟨lines, rfl, hw⟩ := Option.bind_eq_some_iff.mp hw
    obtain ⟨rfl, rfl⟩ := Prod.mk.inj (Option.some.inj hw)
    exact ⟨snap, opened, lines, hc, rfl, hopened, rfl⟩
  · intro h
    obtain ⟨snap, opened, closed, hc, rfl, hopened, rfl⟩ := h
    refine ⟨_, hc, ?_⟩
    dsimp only
    rw [hopened]
    rfl

theorem window_snap {path callId : String} {counts : LineCounts} (h : Window c path callId counts) :
    ∃ snap ∈ c.timeline path, snap.callId = callId := by
  obtain ⟨snap, opened, closed, hc, hid, -, -⟩ := h
  have hmem := List.mem_map_of_mem (f := Prod.fst) hc
  rw [map_fst_closings] at hmem
  exact ⟨snap, hmem, hid⟩

/-- A call has one window at most. -/
theorem window_inj {path path' callId : String} {counts counts' : LineCounts}
    (h : Window c path callId counts) (h' : Window c path' callId counts') :
    path = path' ∧ counts = counts' := by
  obtain ⟨s, hs, hid⟩ := window_snap h
  obtain ⟨s', hs', hid'⟩ := window_snap h'
  obtain ⟨hm, -, hp⟩ := mem_timeline.mp hs
  obtain ⟨hm', -, hp'⟩ := mem_timeline.mp hs'
  obtain rfl := snap_inj hm hm' (hid.trans hid'.symm)
  obtain rfl : path = path' := hp.symm.trans hp'
  refine ⟨rfl, ?_⟩
  obtain ⟨a, opened, closed, hc, ha, hopened, rfl⟩ := h
  obtain ⟨b, opened', closed', hc', hb, hopened', rfl⟩ := h'
  have hma := List.mem_map_of_mem (f := Prod.fst) hc
  have hmb := List.mem_map_of_mem (f := Prod.fst) hc'
  rw [map_fst_closings] at hma hmb
  obtain rfl := snap_inj (mem_timeline.mp hma).1 (mem_timeline.mp hmb).1 (ha.trans hb.symm)
  obtain rfl := Option.some.inj (hopened.symm.trans hopened')
  obtain rfl := Option.some.inj (closings_inj (nodup_timeline path) hc hc')
  rfl

omit [LineDigest] in
theorem mem_byFile {path : String} {snaps : List Snapshot} :
    (path, snaps) ∈ (Dict.empty.gather (((sortedBy snapshotOrder c.snapshots).filter
        (fun snap => snap.callId ∈ c.applied)).map (fun snap => (snap.filePath, snap)))).entries ↔
      c.timeline path ≠ [] ∧ snaps = c.timeline path := by
  have hgroup : ((((sortedBy snapshotOrder c.snapshots).filter
      (fun snap => snap.callId ∈ c.applied)).map (fun snap => (snap.filePath, snap))).filter
        (fun p => p.1 = path)).map Prod.snd = c.timeline path := by
    rw [List.filter_map, List.map_map, List.filter_filter, timeline]
    simp only [Function.comp_def, List.map_id']
    apply List.filter_congr
    intro snap _
    simp [and_comm]
  rw [Dict.mem_entries_gather, hgroup]
  apply and_congr_left
  intro _
  constructor
  · intro h
    obtain ⟨snap, hs⟩ := h
    obtain ⟨s, hf, he⟩ := List.mem_map.mp hs
    obtain ⟨rfl, rfl⟩ := Prod.mk.inj he
    obtain ⟨hm, happlied⟩ := List.mem_filter.mp hf
    apply List.ne_nil_of_mem (a := s)
    exact mem_timeline.mpr ⟨mem_sortedBy.mp hm, of_decide_eq_true happlied, rfl⟩
  · intro h
    obtain ⟨s, hs⟩ := List.exists_mem_of_ne_nil _ h
    obtain ⟨hm, happlied, hp⟩ := mem_timeline.mp hs
    exact ⟨s, List.mem_map.mpr ⟨s, List.mem_filter.mpr ⟨mem_sortedBy.mpr hm,
      decide_eq_true happlied⟩, by rw [hp]⟩⟩

/-- The windows that the loop over the files writes down. -/
theorem mem_deltas {callId : String} {counts : LineCounts} :
    c.deltas.get? callId = some counts ↔ c.sessionId ≠ "" ∧ ∃ path, Window c path callId counts := by
  have hall : ∀ {p : String × LineCounts}, p ∈ (Dict.empty.gather
      (((sortedBy snapshotOrder c.snapshots).filter (fun snap => snap.callId ∈ c.applied)).map
        (fun snap => (snap.filePath, snap)))).entries.flatMap (fun group => fileWindows
          (((observedFileStates c.disk c.edits).get? group.1).join.map lineHashes) group.2) ↔
        ∃ path, Window c path p.1 p.2 := by
    intro p
    rw [List.mem_flatMap]
    constructor
    · intro h
      obtain ⟨⟨path, snaps⟩, hg, hw⟩ := h
      obtain ⟨hne, rfl⟩ := mem_byFile.mp hg
      obtain ⟨snap, hs⟩ := List.exists_mem_of_ne_nil _ hne
      obtain ⟨edit, he, -, hp⟩ := edit_of_timeline hs
      dsimp only at hw
      rw [states_join ⟨edit, he, hp⟩] at hw
      exact ⟨path, mem_windows.mp hw⟩
    · intro h
      obtain ⟨path, hw⟩ := h
      obtain ⟨snap, hs, -⟩ := window_snap hw
      obtain ⟨edit, he, -, hp⟩ := edit_of_timeline hs
      refine ⟨(path, c.timeline path), mem_byFile.mpr ⟨List.ne_nil_of_mem hs, rfl⟩, ?_⟩
      dsimp only
      rw [states_join ⟨edit, he, hp⟩]
      exact mem_windows.mpr hw
  rw [deltas, sessionDeltas]
  by_cases hid : c.sessionId = ""
  · simp [hid]
  · rw [if_pos (by simpa using hid), externalDeltas]
    dsimp only
    rw [← List.foldl_flatMap, ← Dict.mem_entries_iff]
    constructor
    · intro h
      rcases Dict.mem_entries_foldl_set h with h | h
      · exact absurd h List.not_mem_nil
      · exact ⟨hid, hall.mp h⟩
    · intro h
      obtain ⟨-, path, hw⟩ := h
      have hkey := (Dict.mem_keys_foldl_set _ Dict.empty).mpr
        (Or.inr (List.mem_map_of_mem (f := Prod.fst) ((hall (p := (callId, counts))).mpr ⟨path, hw⟩)))
      obtain ⟨⟨id, found⟩, hfound, rfl⟩ := List.mem_map.mp hkey
      rcases Dict.mem_entries_foldl_set hfound with h | h
      · exact absurd h List.not_mem_nil
      · obtain ⟨path', hw'⟩ := hall.mp h
        obtain ⟨-, rfl⟩ := window_inj hw hw'
        exact hfound

omit [LineDigest] in
/-- A file whose every applied edit left a snapshot with its outcome and fits into a
pair, and whose content at the Session end can be read. -/
structure Complete (c : CapturedSession) (path : String) : Prop where
  identified : c.sessionId ≠ ""
  edited : ∃ edit ∈ c.edits, edit.filePath = path
  observed : ∃ text, observedText (c.disk path) = some text ∧ text.utf8ByteSize ≤ maxTextBytes
  fits : ∀ edit ∈ c.edits, edit.filePath = path → edit.appliedText.utf8ByteSize ≤ maxTextBytes
  snapped : ∀ edit ∈ c.edits, edit.filePath = path →
    ∃ snap ∈ c.snapshots, snap.callId = edit.toolUseId ∧ snap.post ≠ none

omit [LineDigest] in
theorem shippable_eq_some {edit : Edit} (he : edit ∈ c.edits) {text : String} :
    shippable (observedFileStates c.disk c.edits) edit = some text ↔
      observedText (c.disk edit.filePath) = some text ∧
        edit.appliedText.utf8ByteSize ≤ maxTextBytes ∧ text.utf8ByteSize ≤ maxTextBytes := by
  rw [shippable, states_join ⟨edit, he, rfl⟩]
  cases observedText (c.disk edit.filePath) with
  | none => simp
  | some content =>
    simp only [Option.bind_eq_bind, Option.bind_some]
    split
    · rename_i hover
      constructor
      · intro h
        cases h
      · intro h
        obtain ⟨hcontent, ha, ht⟩ := h
        obtain rfl := Option.some.inj hcontent
        omega
    · rename_i hfit
      constructor
      · intro h
        obtain rfl := Option.some.inj h
        exact ⟨rfl, by omega, by omega⟩
      · exact fun h => h.1

theorem holed_eq_false {path : String} :
    holed (observedFileStates c.disk c.edits) c.deltas c.edits path = false ↔
      ∀ edit ∈ c.edits, edit.filePath = path →
        (∃ text, shippable (observedFileStates c.disk c.edits) edit = some text) ∧
          ∃ counts, c.deltas.get? edit.toolUseId = some counts := by
  rw [holed, List.any_eq_false]
  apply forall₂_congr
  intro edit _
  simp only [Bool.and_eq_true, decide_eq_true_eq, Bool.or_eq_true, Bool.not_eq_true', not_and,
    not_or, Option.isNone_iff_eq_none, Option.ne_none_iff_exists', Dict.contains,
    Bool.not_eq_false, Option.isSome_iff_exists]

theorem window_of_complete {path : String} (h : Complete c path) {snap : Snapshot}
    (hs : snap ∈ c.timeline path) : ∃ counts, Window c path snap.callId counts := by
  obtain ⟨edit, he, hid, hp⟩ := edit_of_timeline hs
  obtain ⟨snap', hm', hid', hpost⟩ := h.snapped edit he hp
  obtain rfl := snap_inj (mem_timeline.mp hs).1 hm' (hid.symm.trans hid'.symm)
  obtain ⟨opened, hopened⟩ := Option.ne_none_iff_exists'.mp hpost
  obtain ⟨text, htext, -⟩ := h.observed
  obtain ⟨front, rest, hsplit⟩ := List.append_of_mem hs
  have hclosed : ∃ closed, closedLines (c.atEnd path) rest = some closed := by
    cases rest with
    | nil => exact ⟨lineHashes text, by rw [closedLines, atEnd, htext]; rfl⟩
    | cons next rest => exact ⟨next.pre, rfl⟩
  obtain ⟨closed, hclosed⟩ := hclosed
  exact ⟨_, snap, opened, closed, mem_closings.mpr ⟨front, rest, hsplit, hclosed.symm⟩, rfl,
    hopened, rfl⟩

omit [LineDigest] in
/-- The snapshot of an applied edit stands in the timeline of its file. -/
theorem snapshot_of_complete {path : String} (h : Complete c path) {edit : Edit}
    (he : edit ∈ c.edits) (hp : edit.filePath = path) :
    ∃ snap ∈ c.timeline path, snap.callId = edit.toolUseId := by
  obtain ⟨snap, hs, hid, -⟩ := h.snapped edit he hp
  refine ⟨snap, mem_timeline.mpr ⟨hs, ?_, ?_⟩, hid⟩
  · exact List.mem_map.mpr ⟨edit, he, hid.symm⟩
  · exact (c.samePath snap hs edit he hid.symm).symm.trans hp

theorem unholed_iff {path : String} (hedit : ∃ edit ∈ c.edits, edit.filePath = path) :
    holed (observedFileStates c.disk c.edits) c.deltas c.edits path = false ↔ Complete c path := by
  rw [holed_eq_false]
  constructor
  · intro h
    obtain ⟨edit, he, hp⟩ := hedit
    obtain ⟨⟨text, htext⟩, counts, hcounts⟩ := h edit he hp
    obtain ⟨hobserved, -, hsize⟩ := (shippable_eq_some he).mp htext
    rw [hp] at hobserved
    refine ⟨(mem_deltas.mp hcounts).1, ⟨edit, he, hp⟩, ⟨text, hobserved, hsize⟩, ?_, ?_⟩
    · intro e hm hpath
      obtain ⟨⟨_, hs⟩, -⟩ := h e hm hpath
      exact ((shippable_eq_some hm).mp hs).2.1
    · intro e hm hpath
      obtain ⟨-, w, hw⟩ := h e hm hpath
      obtain ⟨-, path', hwindow⟩ := mem_deltas.mp hw
      obtain ⟨snap, opened, closed, hc, hid, hopened, -⟩ := hwindow
      have hs := List.mem_map_of_mem (f := Prod.fst) hc
      rw [map_fst_closings] at hs
      exact ⟨snap, (mem_timeline.mp hs).1, hid, by simp [hopened]⟩
  · intro h edit he hp
    obtain ⟨text, htext, hsize⟩ := h.observed
    refine ⟨⟨text, (shippable_eq_some he).mpr ⟨hp ▸ htext, h.fits edit he hp, hsize⟩⟩, ?_⟩
    obtain ⟨snap, hs, hid⟩ := snapshot_of_complete h he hp
    obtain ⟨counts, hw⟩ := window_of_complete h hs
    exact ⟨counts, mem_deltas.mpr ⟨h.identified, path, hid ▸ hw⟩⟩

theorem mem_pairs {pair : Pair} : pair ∈ c.pairs ↔ pair.edit ∈ c.edits ∧
    shippable (observedFileStates c.disk c.edits) pair.edit = some pair.observedFileText ∧
    pair.externalLines =
      if holed (observedFileStates c.disk c.edits) c.deltas c.edits pair.edit.filePath then none
      else c.deltas.get? pair.edit.toolUseId := by
  rw [pairs, buildPairs, List.mem_filterMap]
  constructor
  · intro h
    obtain ⟨edit, he, hp⟩ := h
    obtain ⟨text, htext, rfl⟩ := Option.map_eq_some_iff.mp hp
    exact ⟨he, htext, rfl⟩
  · intro h
    obtain ⟨he, htext, hlines⟩ := h
    refine ⟨pair.edit, he, ?_⟩
    rw [htext, Option.map_some]
    obtain ⟨edit, text, lines⟩ := pair
    exact congrArg some (congrArg (Pair.mk edit text) hlines.symm)

/-- A file ships counts exactly when its record is complete. -/
theorem ships_iff {path : String} :
    (∃ pair ∈ c.pairs, pair.edit.filePath = path ∧ pair.externalLines ≠ none) ↔
      Complete c path := by
  constructor
  · intro h
    obtain ⟨pair, hpair, rfl, hlines⟩ := h
    obtain ⟨he, -, hl⟩ := mem_pairs.mp hpair
    rw [← unholed_iff ⟨pair.edit, he, rfl⟩, ← Bool.not_eq_true]
    intro hholed
    rw [if_pos hholed] at hl
    exact hlines hl
  · intro h
    obtain ⟨edit, he, hp⟩ := h.edited
    have hopen := (unholed_iff h.edited).mpr h
    obtain ⟨⟨text, htext⟩, counts, hcounts⟩ := holed_eq_false.mp hopen edit he hp
    refine ⟨⟨edit, text, some counts⟩, mem_pairs.mpr ⟨he, htext, ?_⟩, hp, by simp⟩
    dsimp only
    rw [hp, hopen, hcounts]
    rfl

/-- The pair of any edit of a complete file carries the window of its call. -/
theorem pair_window {path : String} (h : Complete c path) {pair : Pair} (hp : pair ∈ c.pairs)
    (hpath : pair.edit.filePath = path) :
    ∃ counts, pair.externalLines = some counts ∧ Window c path pair.edit.toolUseId counts := by
  obtain ⟨he, -, hl⟩ := mem_pairs.mp hp
  obtain ⟨snap, hs, hid⟩ := snapshot_of_complete h he hpath
  obtain ⟨counts, hw⟩ := window_of_complete h hs
  rw [hid] at hw
  refine ⟨counts, ?_, hw⟩
  rw [hl, hpath, (unholed_iff h.edited).mpr h, mem_deltas.mpr ⟨h.identified, path, hw⟩]
  rfl

theorem edit_ships {path : String} (h : Complete c path) {edit : Edit} (he : edit ∈ c.edits)
    (hp : edit.filePath = path) : ∃ pair ∈ c.pairs, pair.edit = edit := by
  obtain ⟨text, htext, hsize⟩ := h.observed
  have hship := (shippable_eq_some he).mpr ⟨hp ▸ htext, h.fits edit he hp, hsize⟩
  let lines := if holed (observedFileStates c.disk c.edits) c.deltas c.edits edit.filePath then none
    else c.deltas.get? edit.toolUseId
  exact ⟨⟨edit, text, lines⟩, mem_pairs.mpr ⟨he, hship, rfl⟩, rfl⟩

end

end CapturedSession

end Sediment.Proofs.TranscriptWindows
