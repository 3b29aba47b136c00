import Sediment.Derive.Rollout

namespace Sediment.Proofs.Rollout
open Sediment.Base Sediment.Core Sediment.Derive

variable [FloatValue]

/-- The input replays the other call's input and output, up to the canonical form. -/
def Replays (previous current : InferenceCall) : Prop :=
  canonicalHistory (previous.inputMessages ++ previous.outputMessages) <+:
    canonicalHistory current.inputMessages

/-- What keeps a call in the Segment of the one before it. -/
def Continues (previous current : InferenceCall) : Prop :=
  outputPresent previous = true ∧ Replays previous current

abbrev Entry := InferenceCall × List InferenceMessage

variable {p c : InferenceCall} {g : List Entry} {gs : List (List Entry)} {seen : List InferenceCall}
  {st : Projection}

theorem canonicalHistory_append (xs ys : List InferenceMessage) :
    canonicalHistory (xs ++ ys) = canonicalHistory xs ++ canonicalHistory ys := List.map_append

theorem length_canonicalHistory (xs : List InferenceMessage) :
    (canonicalHistory xs).length = xs.length := List.length_map _

theorem fragmentReason_eq_none : fragmentReason p c = none ↔ Continues p c := by
  simp only [fragmentReason, Continues, Replays, canonicalHistory_append]
  cases outputPresent p with
  | false => simp
  | true =>
    rw [List.prefix_iff_eq_take]
    simp only [not_true_eq_false, if_false, true_and]
    split
    · rename_i hne
      simp only [reduceCtorEq, false_iff]
      intro he
      apply hne
      have := congrArg (List.take (canonicalHistory p.inputMessages).length) he
      rw [List.take_left, List.take_take, List.length_append, Nat.min_eq_left (by omega)] at this
      exact this.symm
    · split
      · rename_i hne
        simp only [reduceCtorEq, false_iff]
        exact fun he => hne he.symm
      · rename_i he
        simp only [ne_eq, not_not] at he
        simp only [true_iff]
        exact he.symm

/-- The entries of one Segment: a full input, then the suffixes that replaying calls add. -/
inductive Segment : List Entry → Prop
  | start (c : InferenceCall) : Segment [(c, c.inputMessages)]
  | step {g : List Entry} {p c : InferenceCall} (hg : Segment g)
      (hp : g.getLast?.map Prod.fst = some p) (h : Continues p c) :
      Segment (g ++ [(c, c.inputMessages.drop p.inputMessages.length)])

theorem Segment.ne_nil (h : Segment g) : g ≠ [] := by
  cases h <;> simp

theorem Segment.isChain (h : Segment g) : (g.map Prod.fst).IsChain Continues := by
  induction h with
  | start c => exact List.isChain_singleton _
  | @step g p c hg hp h ih =>
    rw [List.map_append, List.isChain_append]
    refine ⟨ih, List.isChain_singleton _, ?_⟩
    intro x hx y hy
    rw [List.getLast?_map, hp] at hx
    cases hx
    cases hy
    exact h

/-- What the entries added so far make up is the input of the last of them. -/
theorem Segment.history (h : Segment g) :
    ∀ p, g.getLast?.map Prod.fst = some p →
      canonicalHistory (g.flatMap Prod.snd) = canonicalHistory p.inputMessages := by
  induction h with
  | start c => simp
  | @step g p c hg hp h ih =>
    intro q hq
    obtain rfl : c = q := by simpa using hq
    have hpre : canonicalHistory p.inputMessages <+: canonicalHistory c.inputMessages := by
      refine List.IsPrefix.trans ?_ h.2
      rw [canonicalHistory_append]
      exact List.prefix_append _ _
    have htake := List.prefix_iff_eq_take.mp hpre
    have hdrop : canonicalHistory (c.inputMessages.drop p.inputMessages.length) =
        (canonicalHistory c.inputMessages).drop p.inputMessages.length := List.map_drop
    rw [length_canonicalHistory] at htake
    rw [List.flatMap_append, List.flatMap_singleton, canonicalHistory_append, ih p hp, htake,
      hdrop, List.take_append_drop]

theorem Segment.take (h : Segment g) {n : Nat} (hn : 0 < n) : Segment (g.take n) := by
  induction h with
  | start c =>
    rw [List.take_of_length_le hn]
    exact .start c
  | @step g p c hg hp h ih =>
    by_cases hle : n ≤ g.length
    · rw [List.take_append_of_le_length hle]
      exact ih
    · rw [List.take_of_length_le (by simp; omega)]
      exact .step hg hp h

/-- The messages of a Segment up to one call are that call's input. -/
theorem Segment.history_at (h : Segment g) {i : Nat} {call : InferenceCall}
    (hi : (g.map Prod.fst)[i]? = some call) :
    canonicalHistory ((g.take (i + 1)).flatMap Prod.snd) = canonicalHistory call.inputMessages := by
  refine (h.take (Nat.succ_pos i)).history call ?_
  rw [List.getElem?_map] at hi
  have hlt : i < g.length := by
    by_contra hge
    rw [List.getElem?_eq_none (by omega)] at hi
    cases hi
  rw [List.getElem?_eq_getElem hlt] at hi
  rw [List.getLast?_take, if_neg (by omega), Nat.succ_eq_add_one, Nat.add_sub_cancel,
    List.getElem?_eq_getElem hlt]
  exact hi

def fragmentedTotal (fragmented : RolloutFragmentReason → Nat) : Nat :=
  (rolloutFragmentReasons.map fragmented).sum

omit [FloatValue] in
theorem fragmentedTotal_bump (fragmented : RolloutFragmentReason → Nat)
    (reason : RolloutFragmentReason) :
    fragmentedTotal (bump fragmented reason 1) = fragmentedTotal fragmented + 1 := by
  cases reason <;>
    simp [fragmentedTotal, rolloutFragmentReasons, bump, Function.update] <;> omega

/-- The two groups meet at a call that does not continue the one before it. -/
def Breaks (g h : List Entry) : Prop :=
  ∀ p ∈ g.getLast?, ∀ c ∈ h.head?, ¬ Continues p.1 c.1

/-- What the loop holds once it has seen some calls, in terms of their Segments. -/
structure Projected (seen : List InferenceCall) (gs : List (List Entry)) (st : Projection) :
    Prop where
  calls : gs.flatten.map Prod.fst = seen
  segments : ∀ g ∈ gs, Segment g
  breaks : gs.IsChain Breaks
  entries : st.entries = gs.zipIdx.flatMap (fun (g, n) => g.map (fun e => (e.1, e.2, n)))
  prev : st.prev = seen.getLast?
  segment : st.segment = gs.length - 1
  fragmented : fragmentedTotal st.fragmented = gs.length - 1

theorem projected_nil : Projected [] [] {} where
  calls := rfl
  segments := by simp
  breaks := List.IsChain.nil
  entries := rfl
  prev := rfl
  segment := rfl
  fragmented := rfl

theorem Projected.gs_of_seen (h : Projected seen gs st) (hs : seen.getLast? = some p) :
    ∃ gs' g, gs = gs' ++ [g] ∧ Segment g ∧ g.getLast?.map Prod.fst = some p := by
  rcases List.eq_nil_or_concat gs with rfl | ⟨gs', g, rfl⟩
  · rw [← h.calls] at hs
    cases hs
  · rw [List.concat_eq_append] at h ⊢
    have hg := h.segments g (by simp)
    refine ⟨gs', g, rfl, hg, ?_⟩
    rw [← h.calls, List.flatten_append, List.flatten_singleton, List.map_append,
      List.getLast?_append, List.getLast?_map] at hs
    obtain ⟨e, he⟩ := Option.ne_none_iff_exists'.mp (mt List.getLast?_eq_none_iff.mp hg.ne_nil)
    rw [he] at hs ⊢
    simpa using hs

omit [FloatValue] in
theorem entries_snoc (gs : List (List Entry)) (g : List Entry) :
    (gs ++ [g]).zipIdx.flatMap (fun (g, n) => g.map (fun e => (e.1, e.2, n))) =
      gs.zipIdx.flatMap (fun (g, n) => g.map (fun e => (e.1, e.2, n))) ++
        g.map (fun e => (e.1, e.2, gs.length)) := by
  simp [List.zipIdx_append]

theorem projectCall_first (h : Projected [] gs st) (c : InferenceCall) :
    Projected [c] [[(c, c.inputMessages)]] (projectCall st c) := by
  have hgs : gs = [] := by
    have hflat := List.map_eq_nil_iff.mp h.calls
    rcases List.eq_nil_or_concat gs with rfl | ⟨gs', g, rfl⟩
    · rfl
    · rw [List.concat_eq_append] at h hflat
      rw [List.flatten_append, List.append_eq_nil_iff, List.flatten_singleton] at hflat
      exact absurd hflat.2 (h.segments g (by simp)).ne_nil
  subst hgs
  have hentries := h.entries
  have hseg := h.segment
  have hfrag := h.fragmented
  have hprev : st.prev = none := h.prev
  rw [projectCall, hprev]
  exact
    { calls := rfl
      segments := by simpa using Segment.start c
      breaks := List.isChain_singleton _
      entries := by simp [hentries, hseg]
      prev := rfl
      segment := hseg
      fragmented := hfrag }

theorem projectCall_continue (h : Projected seen (gs ++ [g]) st) (hs : seen.getLast? = some p)
    (hp : g.getLast?.map Prod.fst = some p) (hr : fragmentReason p c = none) :
    Projected (seen ++ [c]) (gs ++ [g ++ [(c, c.inputMessages.drop p.inputMessages.length)]])
      (projectCall st c) := by
  have hg := h.segments g (by simp)
  have hlen := h.segment
  rw [List.length_append, List.length_singleton, Nat.add_sub_cancel] at hlen
  have hchain := List.isChain_append.mp h.breaks
  rw [projectCall, h.prev, hs]
  simp only [hr]
  exact
    { calls := by
        rw [← h.calls]
        simp
      segments := by
        intro s hm
        rcases List.mem_append.mp hm with hm | hm
        · exact h.segments s (by simp [hm])
        · rw [List.mem_singleton.mp hm]
          exact .step hg hp (fragmentReason_eq_none.mp hr)
      breaks := by
        refine List.isChain_append.mpr ⟨hchain.1, List.isChain_singleton _, ?_⟩
        intro x hx y hy
        rw [List.head?_cons, Option.mem_some_iff] at hy
        subst hy
        have hb := hchain.2.2 x hx g (by simp)
        intro q hq e he
        rw [List.head?_append] at he
        obtain ⟨e', he'⟩ := Option.ne_none_iff_exists'.mp (mt List.head?_eq_none_iff.mp hg.ne_nil)
        rw [he'] at he
        exact hb q hq e (by simpa [he'] using he)
      entries := by
        rw [h.entries, entries_snoc, entries_snoc, hlen]
        simp
      prev := by simp
      segment := by simpa using hlen
      fragmented := by simpa using h.fragmented }

theorem projectCall_break {reason : RolloutFragmentReason} (h : Projected seen (gs ++ [g]) st)
    (hs : seen.getLast? = some p) (hp : g.getLast?.map Prod.fst = some p)
    (hr : fragmentReason p c = some reason) :
    Projected (seen ++ [c]) (gs ++ [g] ++ [[(c, c.inputMessages)]]) (projectCall st c) := by
  have hlen := h.segment
  have hfrag := h.fragmented
  rw [List.length_append, List.length_singleton, Nat.add_sub_cancel] at hlen hfrag
  rw [projectCall, h.prev, hs]
  simp only [hr]
  exact
    { calls := by
        rw [← h.calls]
        simp
      segments := by
        intro s hm
        rcases List.mem_append.mp hm with hm | hm
        · exact h.segments s hm
        · rw [List.mem_singleton.mp hm]
          exact .start c
      breaks := by
        refine List.isChain_append.mpr ⟨h.breaks, List.isChain_singleton _, ?_⟩
        intro x hx y hy
        rw [List.getLast?_concat, Option.mem_some_iff] at hx
        rw [List.head?_cons, Option.mem_some_iff] at hy
        subst hx hy
        intro q hq e he
        rw [List.head?_cons, Option.mem_some_iff] at he
        subst he
        rw [hq] at hp
        cases hp
        intro hcont
        rw [fragmentReason_eq_none.mpr hcont] at hr
        cases hr
      entries := by
        rw [h.entries, entries_snoc _ [(c, c.inputMessages)], hlen]
        simp
      prev := by simp
      segment := by simp [hlen]
      fragmented := by simp [fragmentedTotal_bump, hfrag] }

theorem Projected.step (h : Projected seen gs st) (c : InferenceCall) :
    ∃ gs', Projected (seen ++ [c]) gs' (projectCall st c) := by
  cases hs : seen.getLast? with
  | none =>
    rw [List.getLast?_eq_none_iff] at hs
    subst hs
    exact ⟨_, projectCall_first h c⟩
  | some p =>
    obtain ⟨gs, g, rfl, -, hp⟩ := h.gs_of_seen hs
    cases hr : fragmentReason p c with
    | none => exact ⟨_, projectCall_continue h hs hp hr⟩
    | some reason => exact ⟨_, projectCall_break h hs hp hr⟩

theorem projected_run (calls : List InferenceCall) :
    ∃ gs, Projected calls gs (calls.foldl projectCall {}) := by
  induction calls using List.reverseRecOn with
  | nil => exact ⟨[], projected_nil⟩
  | append_singleton calls c ih =>
    obtain ⟨gs, h⟩ := ih
    rw [List.foldl_append]
    exact h.step c

section
variable {α : Type} {groups : List (List α)}

def numbered (groups : List (List α)) : List (Nat × α) :=
  groups.zipIdx.flatMap (fun (g, n) => g.map (fun v => (n, v)))

omit [FloatValue] in
theorem numbered_snoc (groups : List (List α)) (g : List α) :
    numbered (groups ++ [g]) = numbered groups ++ g.map (fun v => (groups.length, v)) := by
  simp [numbered, List.zipIdx_append]

omit [FloatValue] in
theorem filter_numbered (groups : List (List α)) (n : Nat) :
    ((numbered groups).filter (fun p => p.1 = n)).map Prod.snd = (groups[n]?).getD [] := by
  induction groups using List.reverseRecOn with
  | nil => rfl
  | append_singleton groups g ih =>
    rw [numbered_snoc, List.filter_append, List.map_append, ih, List.filter_map, List.map_map]
    by_cases hn : groups.length = n
    · subst hn
      simp [Function.comp_def]
    · rcases Nat.lt_or_gt_of_ne hn with hlt | hgt
      · rw [List.getElem?_eq_none (by omega), List.getElem?_eq_none (by simp; omega)]
        simp [Function.comp_def, hn]
      · rw [List.getElem?_append_left hgt]
        simp [Function.comp_def, hn]

omit [FloatValue] in
theorem mem_numbered (hne : ∀ g ∈ groups, g ≠ []) {n : Nat} :
    (∃ v, (n, v) ∈ numbered groups) ↔ n < groups.length := by
  have hlisted := filter_numbered groups n
  constructor
  · rintro ⟨v, hv⟩
    by_contra hge
    rw [List.getElem?_eq_none (by omega)] at hlisted
    have hm : v ∈ ((numbered groups).filter (fun p => p.1 = n)).map Prod.snd :=
      List.mem_map.mpr ⟨(n, v), List.mem_filter.mpr ⟨hv, by simp⟩, rfl⟩
    rw [hlisted] at hm
    cases hm
  · intro hlt
    rw [List.getElem?_eq_getElem hlt, Option.getD_some] at hlisted
    obtain ⟨v, hv⟩ := List.exists_mem_of_ne_nil _ (hne _ (List.getElem_mem hlt))
    rw [← hlisted] at hv
    obtain ⟨⟨m, w⟩, hm, rfl⟩ := List.mem_map.mp hv
    obtain ⟨hmem, he⟩ := List.mem_filter.mp hm
    obtain rfl : m = n := by simpa using he
    exact ⟨w, hmem⟩

omit [FloatValue] in
/-- Gathering by number and reading in number order gives the groups back. -/
theorem listed_numbered (hne : ∀ g ∈ groups, g ≠ []) :
    (sortedBy id (Dict.empty.gather (numbered groups)).keys).map
      (Dict.empty.gather (numbered groups)).listed = groups := by
  have hkeys : sortedBy id (Dict.empty.gather (numbered groups)).keys =
      List.range groups.length := by
    apply eq_of_perm_of_pairwise id
    · refine (sortedBy_perm _ _).trans ?_
      rw [List.perm_ext_iff_of_nodup (Dict.nodup_keys _) List.nodup_range]
      intro n
      rw [Dict.mem_keys_gather, List.mem_range, mem_numbered hne]
      simp [Dict.keys, Dict.empty]
    · exact fun a _ b _ h => h
    · exact sortedBy_pairwise _ _
    · exact List.pairwise_le_range
  rw [hkeys]
  apply List.ext_getElem
  · simp
  · intro n hn hlt
    rw [List.getElem_map, List.getElem_range, Dict.listed_gather, filter_numbered,
      List.getElem?_eq_getElem hlt]
    rfl

end

/-- The Turns of one Segment, with the decisions its calls attach. -/
def segmentTurns (decisionsFor : Dict String (List DeveloperDecision)) (g : List Entry) :
    List Turn :=
  g.map (fun e => turnOf decisionsFor e.1 e.2)

theorem segments_eq {calls : List InferenceCall} (h : Projected calls gs st)
    (decisionsFor : Dict String (List DeveloperDecision)) :
    st.entries.map (fun entry => (entry.2.2, turnOf decisionsFor entry.1 entry.2.1)) =
      numbered (gs.map (segmentTurns decisionsFor)) := by
  rw [h.entries, numbered, List.zipIdx_map, List.flatMap_map, List.map_flatMap]
  congr 1
  funext x
  simp [segmentTurns, Function.comp_def]

/-- A Turn that was made of this call. -/
def TurnOf (call : InferenceCall) (turn : Turn) : Prop :=
  turn.inferenceCallId = call.inferenceCallId ∧ turn.completion = renderScoringText call ∧
    turn.toolCalls = call.toolCalls

omit [FloatValue] in
theorem turns_of_segment (decisionsFor : Dict String (List DeveloperDecision)) (g : List Entry) :
    List.Forall₂ TurnOf (g.map Prod.fst) (segmentTurns decisionsFor g) := by
  induction g with
  | nil => exact .nil
  | cons e g ih => exact .cons ⟨rfl, rfl, rfl⟩ ih

theorem project_eq (calls : List InferenceCall) (decisions : List DeveloperDecision) :
    ∃ gs st decisionsFor, Projected (sortedBy callOrder calls) gs st ∧
      (projectSessionTurns calls decisions).segments = gs.map (segmentTurns decisionsFor) ∧
      (projectSessionTurns calls decisions).fragmented = st.fragmented := by
  obtain ⟨gs, h⟩ := projected_run (sortedBy callOrder calls)
  refine ⟨gs, _, (joinDecisionsByCallIdResult (((sortedBy callOrder calls).foldl projectCall
    {}).entries.map (fun entry => entry.1.identity)) decisions).decisionsByCompletion, h, ?_, rfl⟩
  simp only [projectSessionTurns]
  rw [segments_eq h, listed_numbered]
  intro g hg
  obtain ⟨entries, hm, rfl⟩ := List.mem_map.mp hg
  exact mt List.map_eq_nil_iff.mp (h.segments entries hm).ne_nil

theorem project_perm {calls calls' : List InferenceCall}
    (hid : ∀ a ∈ calls, ∀ b ∈ calls, a.inferenceCallId = b.inferenceCallId → a = b)
    (hp : calls.Perm calls') (decisions : List DeveloperDecision) :
    projectSessionTurns calls decisions = projectSessionTurns calls' decisions := by
  have hsorted : sortedBy callOrder calls = sortedBy callOrder calls' := by
    apply sortedBy_congr hp
    intro a ha b hb h
    simp only [callOrder, toLex_inj, Prod.mk.injEq] at h
    exact hid a ha b hb h.2
  simp only [projectSessionTurns, hsorted]

theorem history_of_segments {calls : List InferenceCall} (h : Projected calls gs st)
    (decisionsFor : Dict String (List DeveloperDecision)) {n i : Nat} {group : List InferenceCall}
    {segment : List Turn} {call : InferenceCall}
    (hg : (gs.map (List.map Prod.fst))[n]? = some group)
    (hs : (gs.map (segmentTurns decisionsFor))[n]? = some segment)
    (hi : group[i]? = some call) :
    canonicalHistory ((segment.take (i + 1)).flatMap Turn.newMessages) =
      canonicalHistory call.inputMessages := by
  rw [List.getElem?_map] at hg hs
  cases he : gs[n]? with
  | none => rw [he] at hg; cases hg
  | some entries =>
    rw [he] at hg hs
    cases hg
    cases hs
    have hm := List.mem_of_getElem? he
    rw [segmentTurns, ← List.map_take, List.flatMap_map]
    exact (h.segments entries hm).history_at hi

/-- Every call becomes one Turn, in time order; a Segment is a maximal run of
calls each replaying the one before it, whose output was there to replay. -/
theorem session_turns_lossless (calls : List InferenceCall) (decisions : List DeveloperDecision)
    (hid : ∀ a ∈ calls, ∀ b ∈ calls, a.inferenceCallId = b.inferenceCallId → a = b) :
    let result := projectSessionTurns calls decisions
    (∀ calls', calls.Perm calls' → result = projectSessionTurns calls' decisions) ∧
    (calls ≠ [] → result.segments.length = 1 + fragmentedTotal result.fragmented) ∧
    ∃ groups : List (List InferenceCall),
      groups.flatten = sortedBy callOrder calls ∧
      List.Forall₂ (List.Forall₂ TurnOf) groups result.segments ∧
      (∀ group ∈ groups, group ≠ [] ∧ group.IsChain Continues) ∧
      groups.IsChain (fun g h => ∀ p ∈ g.getLast?, ∀ c ∈ h.head?, ¬ Continues p c) ∧
      ∀ (n i : Nat) (group : List InferenceCall) (segment : List Turn) (call : InferenceCall),
        groups[n]? = some group → result.segments[n]? = some segment → group[i]? = some call →
        canonicalHistory ((segment.take (i + 1)).flatMap Turn.newMessages) =
          canonicalHistory call.inputMessages := by
  intro result
  obtain ⟨gs, st, decisionsFor, h, hsegments, hfragmented⟩ := project_eq calls decisions
  refine ⟨fun calls' hp => project_perm hid hp decisions, ?_, gs.map (List.map Prod.fst), ?_, ?_,
    ?_, ?_, ?_⟩
  · intro hne
    have hgs : gs ≠ [] := by
      rintro rfl
      exact hne (sortedBy_eq_nil.mp h.calls.symm)
    have hpos := List.length_pos_of_ne_nil hgs
    rw [hsegments, hfragmented, h.fragmented, List.length_map]
    omega
  · rw [← List.map_flatten]
    exact h.calls
  · rw [hsegments, List.forall₂_map_left_iff, List.forall₂_map_right_iff, List.forall₂_same]
    exact fun g _ => turns_of_segment decisionsFor g
  · intro group hg
    obtain ⟨entries, hm, rfl⟩ := List.mem_map.mp hg
    have hseg := h.segments entries hm
    exact ⟨mt List.map_eq_nil_iff.mp hseg.ne_nil, hseg.isChain⟩
  · rw [List.isChain_map]
    refine h.breaks.imp ?_
    intro g g' hb p hp c hc
    rw [List.getLast?_map, Option.mem_def, Option.map_eq_some_iff] at hp
    rw [List.head?_map, Option.mem_def, Option.map_eq_some_iff] at hc
    obtain ⟨e, he, rfl⟩ := hp
    obtain ⟨e', he', rfl⟩ := hc
    exact hb e he e' he'
  · intro n i group segment call hg hs hi
    rw [hsegments] at hs
    exact history_of_segments h decisionsFor hg hs hi

def asked (text : String) : InferenceMessage := ⟨"user", [.text text], none⟩

def answered (text : String) : InferenceMessage := ⟨"assistant", [.text text], some "stop"⟩

def turnCall (inferenceCallId : String) (utc : Int) (inputMessages : List InferenceMessage)
    (outputMessages : List InferenceMessage) : InferenceCall where
  inferenceCallId
  orgId := "acme"
  sessionId := "s1"
  gatewayProvider := .litellm
  inputMessages
  outputMessages
  modelCallId := none
  observedAt := ⟨utc, "", "datetime.timezone.utc", 0⟩

omit [FloatValue] in
theorem answered_call_continued :
    letI : FloatValue := ⟨fun _ => 0⟩
    let first := turnCall "c1" 1 [asked "hi"] [answered "yes"]
    let second := turnCall "c2" 2 [asked "hi", answered "yes", asked "again"] []
    (projectSessionTurns [second, first] []).segments.length = 1 ∧
      projectSessionTurns [second, first] [] = projectSessionTurns [first, second] [] := by
  let : FloatValue := ⟨fun _ => 0⟩
  refine ⟨by decide, (session_turns_lossless _ [] ?_).1 _ (List.Perm.swap _ _ _)⟩
  simp [turnCall]

omit [FloatValue] in
/-- The second call replays the first one's input and its empty output, and
still starts a Segment. -/
theorem empty_output_not_continued :
    letI : FloatValue := ⟨fun _ => 0⟩
    let first := turnCall "c1" 1 [asked "hi"] []
    let second := turnCall "c2" 2 [asked "hi", asked "again"] []
    Replays first second ∧ (projectSessionTurns [first, second] []).segments.length = 2 := by
  exact ⟨⟨_, rfl⟩, by decide⟩

end Sediment.Proofs.Rollout
