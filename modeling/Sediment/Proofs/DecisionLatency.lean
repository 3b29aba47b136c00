import Sediment.Base.Quantiles
import Sediment.Base.Results
import Sediment.Export.DecisionLatency
import Sediment.Proofs.LabelConfidence

namespace Sediment.Proofs.DecisionLatency
open Sediment.Base Sediment.Base.Quantiles Sediment.Core Sediment.Derive Sediment.Export
open Sediment.Export.DecisionLatency

/-- A decision on one completion, with the call and the confidence of the completion. -/
structure Appearance where
  call : Option InferenceCall
  confidence : Option ℚ
  decision : DeveloperDecision

namespace Appearance

def id (a : Appearance) : String := a.decision.decisionId

def latency (a : Appearance) : Option ℚ := (latencyOf a.call a.decision).toOption

def usable (a : Appearance) : Bool := a.latency.isSome

def reason (a : Appearance) : Option SkipReason :=
  match latencyOf a.call a.decision with
  | .error reason => some reason
  | .ok _ => none

theorem usable_ok {a : Appearance} {latencyMs : ℚ}
    (h : latencyOf a.call a.decision = .ok latencyMs) : a.usable = true := by
  simp [usable, latency, h, Except.toOption]

theorem usable_error {a : Appearance} {reason : SkipReason}
    (h : latencyOf a.call a.decision = .error reason) : a.usable = false := by
  simp [usable, latency, h, Except.toOption]

theorem reason_isSome {a : Appearance} (h : a.usable = false) : a.reason.isSome := by
  unfold reason
  cases hl : latencyOf a.call a.decision with
  | error reason => rfl
  | ok latencyMs =>
    rw [usable_ok hl] at h
    cases h

end Appearance

def ofId (id : String) (seen : List Appearance) : List Appearance :=
  seen.filter fun a => a.id = id

/-- The appearances from the first usable one on. -/
def usableFrom (own : List Appearance) : List Appearance := own.dropWhile fun a => !a.usable

def lowest (confidences : List (Option ℚ)) : Option ℚ := (confidences.filterMap fun c => c).min?

/-- What the pass keeps of an included decision. -/
def observationOf (own : List Appearance) : Option Observation :=
  (usableFrom own).head?.map fun a =>
    { decisionId := a.id, latencyMs := a.latency.getD 0, accepted := a.decision.accepted
      confidence := lowest ((usableFrom own).map Appearance.confidence) }

/-- The first reason of a decision that is nowhere usable. -/
def reasonOf (own : List Appearance) : Option SkipReason :=
  if usableFrom own = [] then own.head?.bind Appearance.reason else none

variable {own seen : List Appearance} {a : Appearance} {state : Seen} {id : String}

theorem lowest_concat (confidences : List (Option ℚ)) (c : Option ℚ) :
    lowest (confidences ++ [c]) = lower (lowest confidences) c := by
  unfold lowest
  rw [List.filterMap_append]
  generalize confidences.filterMap (fun c => c) = cs
  cases c with
  | none => simp [lower]
  | some c =>
    cases hm : cs.min? with
    | none =>
      rw [List.min?_eq_none_iff] at hm
      simp [hm, lower]
    | some held =>
      have hmin : (cs ++ [c]).min? = some (min held c) := by
        rw [List.min?_eq_some_iff] at hm ⊢
        constructor
        · rcases min_choice held c with h | h
          · rw [h]
            exact List.mem_append_left _ hm.1
          · rw [h]
            exact List.mem_append_right _ (by simp)
        · intro b hb
          rcases List.mem_append.mp hb with hb | hb
          · exact (min_le_left _ _).trans (hm.2 b hb)
          · rw [List.mem_singleton.mp hb]
            exact min_le_right _ _
      change (cs ++ [c]).min? = _
      rw [hmin]
      unfold lower
      by_cases hlt : c < held
      · simp [hlt, min_eq_right hlt.le]
      · simp [hlt, min_eq_left (not_lt.mp hlt)]

theorem usableFrom_concat (own : List Appearance) (a : Appearance) :
    usableFrom (own ++ [a]) =
      if usableFrom own = [] then (if a.usable then [a] else []) else usableFrom own ++ [a] := by
  unfold usableFrom
  rw [List.dropWhile_append]
  simp only [List.isEmpty_iff]
  split_ifs with hown hu
  · rw [List.dropWhile_cons_of_neg (by simp [hu])]
  · rw [List.dropWhile_cons_of_pos (by simp [hu])]
    rfl
  · rfl

theorem usableFrom_eq_nil : usableFrom own = [] ↔ ∀ a ∈ own, a.usable = false := by
  unfold usableFrom
  rw [List.dropWhile_eq_nil_iff]
  simp

theorem usableFrom_ne_nil : usableFrom own ≠ [] ↔ ∃ a ∈ own, a.usable = true := by
  rw [ne_eq, usableFrom_eq_nil]
  push Not
  simp

theorem observationOf_eq_none : observationOf own = none ↔ usableFrom own = [] := by
  simp [observationOf]

theorem observationOf_concat {existing : Observation} (h : observationOf own = some existing)
    (a : Appearance) : observationOf (own ++ [a]) =
      some { existing with confidence := lower existing.confidence a.confidence } := by
  have hne : usableFrom own ≠ [] := by
    intro hnil
    rw [observationOf_eq_none.mpr hnil] at h
    cases h
  obtain ⟨first, rest, hfrom⟩ := List.exists_cons_of_ne_nil hne
  unfold observationOf at h ⊢
  rw [usableFrom_concat, if_neg hne]
  rw [hfrom] at h ⊢
  cases h
  rw [List.map_append]
  exact congrArg (fun c => some (Observation.mk first.id (first.latency.getD 0)
    first.decision.accepted c))
    (lowest_concat ((first :: rest).map Appearance.confidence) a.confidence)

theorem observationOf_first (h : usableFrom own = []) {latencyMs : ℚ}
    (ha : latencyOf a.call a.decision = .ok latencyMs) : observationOf (own ++ [a]) =
      some { decisionId := a.id, latencyMs, accepted := a.decision.accepted
             confidence := a.confidence } := by
  unfold observationOf
  rw [usableFrom_concat, if_pos h, if_pos (Appearance.usable_ok ha)]
  cases hc : a.confidence <;>
    simp [hc, lowest, Appearance.latency, ha, Except.toOption]

theorem observationOf_unusable (h : usableFrom own = []) (ha : a.usable = false) :
    observationOf (own ++ [a]) = none := by
  rw [observationOf_eq_none, usableFrom_concat, if_pos h, ha]
  rfl

theorem reasonOf_usable (h : usableFrom own ≠ []) : reasonOf own = none := if_neg h

theorem reasonOf_concat {reason : SkipReason} (h : usableFrom own = [])
    (ha : latencyOf a.call a.decision = .error reason) :
    reasonOf (own ++ [a]) = some ((reasonOf own).getD reason) := by
  have hu := Appearance.usable_error ha
  unfold reasonOf
  rw [usableFrom_concat, if_pos h, hu]
  simp only [Bool.false_eq_true, if_false, if_true, if_pos h]
  cases own with
  | nil => simp [Appearance.reason, ha]
  | cons first rest =>
    have hfirst := Appearance.reason_isSome (usableFrom_eq_nil.mp h first (by simp))
    obtain ⟨held, hheld⟩ := Option.isSome_iff_exists.mp hfirst
    simp [hheld]

theorem ofId_concat (id : String) (seen : List Appearance) (a : Appearance) :
    ofId id (seen ++ [a]) = if a.id = id then ofId id seen ++ [a] else ofId id seen := by
  unfold ofId
  rw [List.filter_append]
  split_ifs with h
  · rw [List.filter_cons_of_pos (by simpa using h)]
    rfl
  · rw [List.filter_cons_of_neg (by simpa using h)]
    exact List.append_nil _

/-- The pass holds, for each decision, the verdict on its appearances so far. -/
structure Holds (seen : List Appearance) (state : Seen) : Prop where
  observed : ∀ id, state.observations.get? id = observationOf (ofId id seen)
  skipped : ∀ id, state.skipReasons.get? id = reasonOf (ofId id seen)

theorem holds_start : Holds [] {} := ⟨fun _ => rfl, fun _ => rfl⟩

/-- One appearance of one decision. -/
theorem holds_visit (h : Holds seen state) (a : Appearance) :
    Holds (seen ++ [a]) (visit a.call a.confidence state a.decision) := by
  have hname : a.decision.decisionId = a.id := rfl
  unfold visit
  rw [hname]
  cases hget : state.observations.get? a.id with
  | some existing =>
    have hown : observationOf (ofId a.id seen) = some existing := (h.observed a.id).symm.trans hget
    have hfrom : usableFrom (ofId a.id seen) ≠ [] := by
      intro hnil
      rw [observationOf_eq_none.mpr hnil] at hown
      cases hown
    refine ⟨?_, ?_⟩
    · intro id
      rw [ofId_concat, Dict.get?_set]
      by_cases hid : a.id = id
      · rw [if_pos hid, if_pos hid.symm, ← hid, observationOf_concat hown]
      · rw [if_neg hid, if_neg (Ne.symm hid), h.observed]
    · intro id
      rw [ofId_concat, h.skipped]
      split_ifs with hid
      · rw [← hid, reasonOf_usable hfrom, reasonOf_usable]
        rw [usableFrom_concat, if_neg hfrom]
        simp
      · rfl
  | none =>
    have hown : usableFrom (ofId a.id seen) = [] :=
      observationOf_eq_none.mp ((h.observed a.id).symm.trans hget)
    cases hl : latencyOf a.call a.decision with
    | error reason =>
      refine ⟨?_, ?_⟩
      · intro id
        rw [ofId_concat]
        split_ifs with hid
        · rw [← hid, observationOf_unusable hown (Appearance.usable_error hl), hget]
        · exact h.observed id
      · intro id
        rw [ofId_concat, Dict.get?_setdefault]
        by_cases hid : a.id = id
        · rw [if_pos hid, if_pos hid.symm, ← hid, reasonOf_concat hown hl, ← h.skipped]
        · rw [if_neg hid, if_neg (Ne.symm hid), h.skipped]
    | ok latencyMs =>
      refine ⟨?_, ?_⟩
      · intro id
        rw [ofId_concat, Dict.get?_set]
        by_cases hid : a.id = id
        · rw [if_pos hid, if_pos hid.symm, ← hid, observationOf_first hown hl]
        · rw [if_neg hid, if_neg (Ne.symm hid), h.observed]
      · intro id
        rw [ofId_concat, Dict.get?_filter, h.skipped]
        by_cases hid : a.id = id
        · have hfrom : usableFrom (ofId id seen ++ [a]) ≠ [] := by
            rw [← hid, usableFrom_concat, if_pos hown, if_pos (Appearance.usable_ok hl)]
            simp
          rw [if_pos hid, reasonOf_usable hfrom, Option.filter_eq_none_iff]
          intro reason _
          simp [← hid]
        · rw [if_neg hid]
          cases hr : reasonOf (ofId id seen) with
          | none => rfl
          | some reason =>
            rw [Option.filter_some, if_pos]
            simpa using Ne.symm hid

theorem holds_foldl (call : Option InferenceCall) (confidence : Option ℚ)
    (decisions : List DeveloperDecision) (h : Holds seen state) :
    Holds (seen ++ decisions.map fun d => ⟨call, confidence, d⟩)
      (decisions.foldl (visit call confidence) state) := by
  induction decisions generalizing seen state with
  | nil => simpa using h
  | cons d decisions ih =>
    have hnext := ih (holds_visit h ⟨call, confidence, d⟩)
    rw [List.append_assoc] at hnext
    exact hnext

section
variable [Interpreter] (digest : CIResolutionPolicy → String)
  (repositoryContext : Option RepositoryContext) (policy : LabelConfidencePolicy)
  (calls : Dict String InferenceCall)

def confidenceOf (row : AttributedCompletion) : Option ℚ :=
  (resolveConfidence digest repositoryContext policy row.toCompletionFields).toOption.join

def rowAppearances (row : AttributedCompletion) : List Appearance :=
  (orderedDecisions row.toCompletionFields).map fun d =>
    ⟨calls.get? row.inferenceCallId, confidenceOf digest repositoryContext policy row, d⟩

/-- Every decision of every completion, in the order of the pass. -/
def appearances (inferenceCalls : List InferenceCall) (rows : List AttributedCompletion) :
    List Appearance :=
  (orderedCompletions rows).flatMap
    (rowAppearances digest repositoryContext policy (callsById inferenceCalls))

variable {digest repositoryContext policy calls}

theorem holds_completion {row : AttributedCompletion} {next : Seen} (h : Holds seen state)
    (hrow : visitCompletion digest repositoryContext policy calls state row = .ok next) :
    Holds (seen ++ rowAppearances digest repositoryContext policy calls row) next := by
  unfold visitCompletion at hrow
  split at hrow
  · rename_i hnone
    cases hrow
    have hempty : rowAppearances digest repositoryContext policy calls row = [] := by
      simp [rowAppearances, orderedDecisions, hnone]
    rw [hempty, List.append_nil]
    exact ⟨h.observed, h.skipped⟩
  · obtain ⟨confidence, hresolve, hfold⟩ := bind_ok.mp hrow
    cases hfold
    have hc : confidenceOf digest repositoryContext policy row = confidence := by
      unfold confidenceOf
      rw [mapError_ok.mp hresolve]
      rfl
    unfold rowAppearances
    rw [hc]
    exact holds_foldl _ _ _ h

/-- The run of the pass. -/
theorem holds_collect {inferenceCalls : List InferenceCall} {rows : List AttributedCompletion}
    (h : collect digest repositoryContext policy inferenceCalls rows = .ok state) :
    Holds (appearances digest repositoryContext policy inferenceCalls rows) state := by
  refine foldlM_induct (fun (done : List AttributedCompletion) held =>
    Holds (done.flatMap (rowAppearances digest repositoryContext policy
      (callsById inferenceCalls))) held) holds_start ?_ h
  intro done row held next hheld hrow
  rw [List.flatMap_append, List.flatMap_singleton]
  exact holds_completion hheld hrow

/-- The pass fails only where the confidence of some completion does not resolve. -/
theorem collect_ok (inferenceCalls : List InferenceCall) {rows : List AttributedCompletion}
    (h : ∀ row ∈ rows, row.decisions ≠ [] →
      ∃ c, resolveConfidence digest repositoryContext policy row.toCompletionFields = .ok c) :
    ∃ out, collect digest repositoryContext policy inferenceCalls rows = .ok out := by
  have hcases := @foldlM_cases _ _ _ (visitCompletion digest repositoryContext policy
    (callsById inferenceCalls)) (fun _ _ => True) (fun _ => False) {} (orderedCompletions rows)
    trivial (by
      intro done row rest held hsplit _
      right
      unfold visitCompletion
      split_ifs with hnone
      · exact ⟨_, rfl, trivial⟩
      · have hin : row ∈ orderedCompletions rows := by
          rw [← hsplit]
          simp
        obtain ⟨c, hc⟩ := h row (mem_sortedBy.mp hin) hnone
        rw [hc]
        exact ⟨_, rfl, trivial⟩)
  rcases hcases with ⟨e, he, -⟩ | ⟨out, hout, -⟩
  · exact he.elim
  · exact ⟨out, hout⟩

end

theorem mem_ofId : a ∈ ofId id seen ↔ a ∈ seen ∧ a.id = id := by
  simp [ofId]

theorem included_iff (h : Holds seen state) :
    id ∈ state.observations.keys ↔ ∃ a ∈ seen, a.id = id ∧ a.usable = true := by
  rw [Dict.mem_keys_iff, h.observed]
  constructor
  · rintro ⟨o, ho⟩
    have hne : usableFrom (ofId id seen) ≠ [] := by
      intro hnil
      rw [observationOf_eq_none.mpr hnil] at ho
      cases ho
    obtain ⟨a, ha, hu⟩ := usableFrom_ne_nil.mp hne
    exact ⟨a, (mem_ofId.mp ha).1, (mem_ofId.mp ha).2, hu⟩
  · rintro ⟨a, ha, hid, hu⟩
    apply Option.ne_none_iff_exists'.mp
    intro hnone
    exact usableFrom_ne_nil.mpr ⟨a, mem_ofId.mpr ⟨ha, hid⟩, hu⟩ (observationOf_eq_none.mp hnone)

theorem reasonOf_isSome : (∃ reason, reasonOf own = some reason) ↔
    own ≠ [] ∧ ∀ a ∈ own, a.usable = false := by
  unfold reasonOf
  constructor
  · rintro ⟨reason, hr⟩
    split_ifs at hr with hnil
    refine ⟨?_, usableFrom_eq_nil.mp hnil⟩
    rintro rfl
    cases hr
  · rintro ⟨hne, hall⟩
    obtain ⟨first, rest, rfl⟩ := List.exists_cons_of_ne_nil hne
    rw [if_pos (usableFrom_eq_nil.mpr hall)]
    exact Option.isSome_iff_exists.mp (Appearance.reason_isSome (hall first (by simp)))

theorem skipped_iff (h : Holds seen state) :
    id ∈ state.skipReasons.keys ↔
      (∃ a ∈ seen, a.id = id) ∧ ∀ a ∈ seen, a.id = id → a.usable = false := by
  rw [Dict.mem_keys_iff, h.skipped, reasonOf_isSome]
  constructor
  · rintro ⟨hne, hall⟩
    obtain ⟨a, ha⟩ := List.exists_mem_of_ne_nil _ hne
    exact ⟨⟨a, mem_ofId.mp ha⟩, fun b hb hid => hall b (mem_ofId.mpr ⟨hb, hid⟩)⟩
  · rintro ⟨⟨a, ha, hid⟩, hall⟩
    exact ⟨List.ne_nil_of_mem (mem_ofId.mpr ⟨ha, hid⟩),
      fun b hb => hall b (mem_ofId.mp hb).1 (mem_ofId.mp hb).2⟩

/-- Included and skipped decisions are all decisions, each of them once. -/
theorem keys_perm (h : Holds seen state) :
    (state.observations.keys ++ state.skipReasons.keys).Perm (seen.map Appearance.id).dedup := by
  have hdisjoint : ∀ id ∈ state.observations.keys, id ∉ state.skipReasons.keys := by
    intro id hin hskip
    obtain ⟨a, ha, hid, hu⟩ := (included_iff h).mp hin
    rw [((skipped_iff h).mp hskip).2 a ha hid] at hu
    cases hu
  have hnodup : (state.observations.keys ++ state.skipReasons.keys).Nodup := by
    rw [List.nodup_append]
    refine ⟨state.observations.nodup_keys, state.skipReasons.nodup_keys, ?_⟩
    intro a ha b hb hab
    exact hdisjoint a ha (hab ▸ hb)
  rw [List.perm_ext_iff_of_nodup hnodup (List.nodup_dedup _)]
  intro id
  rw [List.mem_append, included_iff h, skipped_iff h, List.mem_dedup, List.mem_map]
  constructor
  · rintro (⟨a, ha, hid, -⟩ | ⟨⟨a, ha, hid⟩, -⟩)
    · exact ⟨a, ha, hid⟩
    · exact ⟨a, ha, hid⟩
  · rintro ⟨a, ha, hid⟩
    by_cases hu : ∃ b ∈ seen, b.id = id ∧ b.usable = true
    · exact Or.inl hu
    · right
      refine ⟨⟨a, ha, hid⟩, ?_⟩
      intro b hb hbid
      rw [← Bool.not_eq_true]
      exact fun hbu => hu ⟨b, hb, hbid, hbu⟩

theorem reason_ne_noDecision {reason : SkipReason} (h : a.reason = some reason) :
    reason ≠ .noDecision := by
  unfold Appearance.reason latencyOf at h
  split_ifs at h
  · cases h
    exact nofun
  · cases hc : a.call with
    | none =>
      rw [hc] at h
      cases h
      exact nofun
    | some call =>
      rw [hc] at h
      dsimp only at h
      split_ifs at h
      cases h
      exact nofun

theorem reasons_ne_noDecision (h : Holds seen state) :
    ∀ e ∈ state.skipReasons.entries, e.2 ≠ .noDecision := by
  intro e he
  have hget := (Dict.mem_entries_iff state.skipReasons (k := e.1) (v := e.2)).mp he
  rw [h.skipped] at hget
  unfold reasonOf at hget
  split_ifs at hget
  obtain ⟨a, -, ha⟩ := Option.bind_eq_some_iff.mp hget
  exact reason_ne_noDecision ha

/-- The counts of the reasons add up to the entries. -/
theorem sum_reasons {es : List (String × SkipReason)} (h : ∀ e ∈ es, e.2 ≠ .noDecision) :
    ((skipReasons.filter fun r => r ≠ .noDecision).map fun r =>
      es.countP fun e => e.2 = r).sum = es.length := by
  induction es with
  | nil => simp
  | cons e es ih =>
    have hrest := ih fun d hd => h d (List.mem_cons_of_mem _ hd)
    have he := h e (by simp)
    have hlist : skipReasons.filter (fun r => r ≠ .noDecision) =
        [.missingInferenceCall, .missingTimestamp, .invalidTimestamp, .negativeLatency,
          .observationDelay] := by decide
    rw [hlist] at hrest ⊢
    simp only [List.map_cons, List.map_nil, List.sum_cons, List.sum_nil, List.countP_cons,
      List.length_cons] at hrest ⊢
    cases hr : e.2 with
    | noDecision => exact absurd hr he
    | _ => simp only [reduceCtorEq, decide_true, decide_false, if_true, if_false,
        Bool.false_eq_true]; omega

theorem sum_skips (h : Holds seen state) :
    (((skips state).filter fun e => e.1 ≠ .noDecision).map Prod.snd).sum =
      state.skipReasons.keys.length := by
  have hplain : ∀ r, r ≠ .noDecision →
      (if r = .noDecision then state.noDecisionCompletions else 0) +
        state.skipReasons.entries.countP
          (fun e => e.2 = r ∧ ¬state.observations.contains e.1) =
      state.skipReasons.entries.countP fun e => e.2 = r := by
    intro r hr
    rw [if_neg hr, Nat.zero_add]
    apply List.countP_congr
    intro e he
    have hkey : e.1 ∈ state.skipReasons.keys := List.mem_map_of_mem he
    have hout : state.observations.contains e.1 = false := by
      rw [← Bool.not_eq_true, Dict.contains_iff, included_iff h]
      rintro ⟨a, ha, hid, hu⟩
      rw [((skipped_iff h).mp hkey).2 a ha hid] at hu
      cases hu
    simp [hout]
  unfold skips
  rw [List.filter_map, List.map_map]
  have hsum := sum_reasons (reasons_ne_noDecision h)
  rw [Dict.keys, List.length_map, ← hsum]
  congr 1
  apply List.map_congr_left
  intro r hr
  have hne : r ≠ .noDecision := by simpa using (List.mem_filter.mp hr).2
  exact hplain r hne

/-- The buckets cut the observations, in the order of their latency, into parts of nearly
equal size. -/
def Partitions (observations : List Observation) (buckets : List DecisionLatencyBucket) : Prop :=
  ∃ groups : List (List Observation),
    groups.flatten.Perm observations ∧
    groups.flatten.Pairwise (fun a b => a.latencyMs ≤ b.latencyMs) ∧
    List.Forall₂ (fun own group => own = bucket own.bucket group) buckets groups ∧
    (∀ group ∈ groups, group ≠ []) ∧
    ∀ a ∈ groups, ∀ b ∈ groups, a.length ≤ b.length + 1

theorem byLatency_perm (observations : List Observation) :
    (byLatency observations).Perm observations := sortedBy_perm _ observations

theorem byLatency_sorted (observations : List Observation) :
    (byLatency observations).Pairwise fun a b => a.latencyMs ≤ b.latencyMs := by
  refine (sortedBy_pairwise _ observations).imp ?_
  intro a b h
  rcases Prod.Lex.toLex_le_toLex.mp h with hlt | ⟨heq, -⟩
  · exact hlt.le
  · exact heq.le

theorem quantileBuckets_partition (observations : List Observation) (requested : Int) :
    Partitions observations (quantileBuckets observations requested) := by
  unfold quantileBuckets
  by_cases hnil : observations = []
  · rw [if_pos hnil]
    exact ⟨[], by simp [hnil], by simp, .nil, by simp, by simp⟩
  rw [if_neg hnil]
  dsimp only
  split_ifs with hone
  · refine ⟨[byLatency observations], ?_, ?_, .cons rfl .nil, ?_, ?_⟩
    · simpa using byLatency_perm observations
    · simpa using byLatency_sorted observations
    · intro group hg
      rw [List.mem_singleton.mp hg]
      simpa [byLatency] using hnil
    · intro a ha b hb
      rw [List.mem_singleton.mp ha, List.mem_singleton.mp hb]
      exact Nat.le_succ _
  · rw [not_or] at hone
    have hlen : 0 < (byLatency observations).length := by
      rw [byLatency, length_sortedBy]
      exact List.length_pos_iff.mpr hnil
    have hk : 0 < min requested.toNat (byLatency observations).length := by
      apply lt_min _ hlen
      omega
    have hflat := flatten_slices hk (byLatency observations)
    refine ⟨slices (min requested.toNat (byLatency observations).length)
      (byLatency observations), ?_, ?_, ?_, ?_, ?_⟩
    · rw [hflat]
      exact byLatency_perm observations
    · rw [hflat]
      exact byLatency_sorted observations
    · unfold slices
      rw [List.forall₂_map_left_iff, List.forall₂_map_right_iff]
      exact List.forall₂_same.mpr fun i _ => rfl
    · intro group hg
      exact slices_ne_nil (min_le_right _ _) hg
    · intro a ha b hb
      exact slices_balanced ha hb

/-- No appearance before the first usable one has a confidence below those from there on. -/
def LowestKept (own : List Appearance) : Prop :=
  usableFrom own ≠ [] → ∀ a ∈ own.takeWhile (fun a => !a.usable), ∀ c, a.confidence = some c →
    ∃ b ∈ usableFrom own, ∃ held, b.confidence = some held ∧ held ≤ c

theorem min_append_iff (xs ys : List ℚ) :
    (xs ++ ys).min? = ys.min? ↔ ∀ x ∈ xs, ∃ y ∈ ys, y ≤ x := by
  cases hy : ys.min? with
  | none =>
    rw [List.min?_eq_none_iff] at hy
    subst hy
    rw [List.append_nil, List.min?_eq_none_iff]
    constructor
    · rintro rfl
      simp
    · intro h
      rw [List.eq_nil_iff_forall_not_mem]
      intro x hx
      obtain ⟨y, hy, -⟩ := h x hx
      cases hy
  | some m =>
    rw [List.min?_eq_some_iff] at hy ⊢
    constructor
    · rintro ⟨-, hle⟩ x hx
      exact ⟨m, hy.1, hle x (List.mem_append_left _ hx)⟩
    · intro h
      refine ⟨List.mem_append_right _ hy.1, ?_⟩
      intro b hb
      rcases List.mem_append.mp hb with hb | hb
      · obtain ⟨y, hmem, hle⟩ := h b hb
        exact (hy.2 y hmem).trans hle
      · exact hy.2 b hb

theorem lowest_own_iff (own : List Appearance) :
    lowest (own.map Appearance.confidence) = lowest ((usableFrom own).map Appearance.confidence) ↔
      ∀ a ∈ own.takeWhile (fun a => !a.usable), ∀ c, a.confidence = some c →
        ∃ b ∈ usableFrom own, ∃ held, b.confidence = some held ∧ held ≤ c := by
  have hsplit : own.map Appearance.confidence =
      (own.takeWhile fun a => !a.usable).map Appearance.confidence ++
        (usableFrom own).map Appearance.confidence := by
    rw [← List.map_append, usableFrom, List.takeWhile_append_dropWhile]
  rw [hsplit, lowest, lowest, List.filterMap_append, min_append_iff]
  simp only [List.mem_filterMap, List.mem_map]
  constructor
  · intro h a ha c hc
    obtain ⟨held, ⟨-, ⟨b, hb, rfl⟩, hheld⟩, hle⟩ := h c ⟨_, ⟨a, ha, rfl⟩, hc⟩
    exact ⟨b, hb, held, hheld, hle⟩
  · rintro h c ⟨-, ⟨a, ha, rfl⟩, hc⟩
    obtain ⟨b, hb, held, hheld, hle⟩ := h a ha c hc
    exact ⟨held, ⟨_, ⟨b, hb, rfl⟩, hheld⟩, hle⟩

theorem lowest_observed_iff (h : Holds seen state) :
    (∀ id o, state.observations.get? id = some o →
      o.confidence = lowest ((ofId id seen).map Appearance.confidence)) ↔
      ∀ id, LowestKept (ofId id seen) := by
  constructor
  · intro hlow id hne
    obtain ⟨first, rest, hfrom⟩ := List.exists_cons_of_ne_nil hne
    have hget : state.observations.get? id = observationOf (ofId id seen) := h.observed id
    unfold observationOf at hget
    rw [hfrom] at hget
    have hconf := hlow id _ hget
    rw [← lowest_own_iff, hfrom]
    exact hconf.symm
  · intro hkept id o ho
    rw [h.observed] at ho
    have hne : usableFrom (ofId id seen) ≠ [] := by
      intro hnil
      rw [observationOf_eq_none.mpr hnil] at ho
      cases ho
    rw [(lowest_own_iff _).mpr (hkept id hne)]
    obtain ⟨a, -, rfl⟩ := Option.map_eq_some_iff.mp ho
    rfl

/-- Each decision has one verdict, an included one its lowest confidence, and the buckets
share the included ones out. -/
structure OneVerdict (seen : List Appearance) (state : Seen) (report : DecisionLatencyReport) :
    Prop where
  included : ∀ id, id ∈ state.observations.keys ↔ ∃ a ∈ seen, a.id = id ∧ a.usable = true
  skipped : ∀ id, id ∈ state.skipReasons.keys ↔
    (∃ a ∈ seen, a.id = id) ∧ ∀ a ∈ seen, a.id = id → a.usable = false
  includedCount : report.includedDecisions = state.observations.keys.length
  skippedCount : ((report.skippedDecisions.filter fun e => e.1 ≠ .noDecision).map Prod.snd).sum =
    state.skipReasons.keys.length
  total : report.totalDecisions = (seen.map Appearance.id).dedup.length
  confidence : ∀ id o, state.observations.get? id = some o →
    o.confidence = lowest ((ofId id seen).map Appearance.confidence)
  buckets : Partitions state.observations.values report.buckets

theorem oneVerdict_iff (h : Holds seen state) (latencyBuckets : Int) :
    OneVerdict seen state (summarize latencyBuckets state) ↔ ∀ id, LowestKept (ofId id seen) := by
  constructor
  · intro hv
    exact (lowest_observed_iff h).mp hv.confidence
  · intro hkept
    refine ⟨fun id => included_iff h, fun id => skipped_iff h, rfl, sum_skips h, ?_,
      (lowest_observed_iff h).mpr hkept, quantileBuckets_partition _ _⟩
    have hlen := (keys_perm h).length_eq
    rw [List.length_append, ← sum_skips h] at hlen
    exact hlen

section
variable [Interpreter] (digest : CIResolutionPolicy → String)
  (repositoryContext : Option RepositoryContext) (policy : LabelConfidencePolicy)

/-- The report of a pass in which each decision has one verdict. -/
def Meets (inferenceCalls : List InferenceCall) (rows : List AttributedCompletion)
    (latencyBuckets : Int) (report : DecisionLatencyReport) : Prop :=
  ∃ state, collect digest repositoryContext policy inferenceCalls rows = .ok state ∧
    report = summarize latencyBuckets state ∧
    OneVerdict (appearances digest repositoryContext policy inferenceCalls rows) state report

/-- A report is there once every confidence resolves; each decision has one verdict in it
exactly when none loses its lowest confidence to a skip. -/
theorem one_verdict_iff (inferenceCalls : List InferenceCall) (rows : List AttributedCompletion)
    (latencyBuckets : Int) :
    (0 < latencyBuckets → (∀ row ∈ rows, row.decisions ≠ [] →
        ∃ c, resolveConfidence digest repositoryContext policy row.toCompletionFields = .ok c) →
      ∃ report, buildDecisionLatencyReport digest repositoryContext policy inferenceCalls rows
        latencyBuckets = .ok report) ∧
    ∀ report, buildDecisionLatencyReport digest repositoryContext policy inferenceCalls rows
        latencyBuckets = .ok report →
      (Meets digest repositoryContext policy inferenceCalls rows latencyBuckets report ↔
        ∀ id, LowestKept
          (ofId id (appearances digest repositoryContext policy inferenceCalls rows))) := by
  constructor
  · intro hpos hresolve
    obtain ⟨state, hstate⟩ := collect_ok inferenceCalls hresolve
    refine ⟨summarize latencyBuckets state, ?_⟩
    unfold buildDecisionLatencyReport
    rw [if_neg hpos.not_ge, hstate]
    rfl
  · intro report hreport
    unfold buildDecisionLatencyReport at hreport
    split_ifs at hreport
    obtain ⟨state, hstate, hsummary⟩ := bind_ok.mp hreport
    have hverdict := oneVerdict_iff (holds_collect hstate) latencyBuckets
    rw [Except.ok.inj hsummary] at hverdict
    rw [← hverdict]
    constructor
    · rintro ⟨own, hown, -, hv⟩
      rw [hstate] at hown
      cases hown
      exact hv
    · intro hv
      exact ⟨state, hstate, (Except.ok.inj hsummary).symm, hv⟩

end

open Sediment.Proofs.LabelConfidence

def someCall : InferenceCall :=
  { inferenceCallId := "c1", orgId := "o", sessionId := "s", gatewayProvider := .litellm
    inputMessages := [], outputMessages := [], modelCallId := none, observedAt := someTime }

/-- A guess about a file of a call. -/
def guessedOf (inferenceCallId filePath : String) : AttributedCompletion :=
  { stampedFields [gesture true true] with
    inferenceCallId
    filePath := some filePath
    similarityScore := some (1 / 2)
    attributionSource := some .jaccard
    variant := ⟨rfl, rfl, rfl, rfl, rfl⟩
    scores := fun d hd score hs => by
      rw [List.mem_singleton.mp hd] at hs
      cases hs }

/-- The call is not among the calls. -/
def guessed : AttributedCompletion := guessedOf "c0" "a"

def guessedKnown : AttributedCompletion := guessedOf "c1" "g"

def known : AttributedCompletion := stamped [gesture true true] (by decide)

theorem known_first : orderedCompletions [guessedKnown, known] = [known, guessedKnown] := by
  have hkey : ¬evidenceSortKey guessedKnown.toCompletionFields ≤
      evidenceSortKey known.toCompletionFields := by
    decide +kernel
  unfold orderedCompletions sortedBy
  simp only [List.insertionSort_cons, List.insertionSort_nil, List.orderedInsert, if_neg hkey]

/-- One decision appears on two completions of its call. -/
theorem known_appearances :
    letI : Interpreter := ⟨fun s => s⟩
    appearances (fun _ => "") none {} [someCall] [guessedKnown, known] =
      [⟨some someCall, some 1, gesture true true⟩,
        ⟨some someCall, some (1 / 2), gesture true true⟩] := by
  let _ : Interpreter := ⟨fun s => s⟩
  have hknown : confidenceOf (fun _ => "") none {} known = some 1 := by decide +kernel
  have hguessed : confidenceOf (fun _ => "") none {} guessedKnown = some (1 / 2) := by
    decide +kernel
  unfold appearances
  rw [known_first]
  simp only [List.flatMap_cons, List.flatMap_nil, rowAppearances, hknown, hguessed]
  rfl

/-- Nothing is before a usable appearance that comes first. -/
theorem lowestKept_first {rest : List Appearance} (h : a.usable = true) :
    LowestKept (a :: rest) := by
  intro _ b hb
  rw [List.takeWhile_cons_of_neg (by simp [h])] at hb
  cases hb

theorem known_verdict :
    letI : Interpreter := ⟨fun s => s⟩
    ∃ report, buildDecisionLatencyReport (fun _ => "") none {} [someCall] [guessedKnown, known] 4 =
        .ok report ∧
      Meets (fun _ => "") none {} [someCall] [guessedKnown, known] 4 report := by
  let _ : Interpreter := ⟨fun s => s⟩
  obtain ⟨hbuilds, hmeets⟩ :=
    one_verdict_iff (fun _ => "") none {} [someCall] [guessedKnown, known] 4
  obtain ⟨report, hreport⟩ := hbuilds (by decide) (by
    intro row hr _
    simp only [List.mem_cons, List.not_mem_nil, or_false] at hr
    rcases hr with rfl | rfl <;> exact ok_of_isOk (by decide +kernel))
  refine ⟨report, hreport, (hmeets report hreport).mpr ?_⟩
  intro id
  rw [known_appearances]
  have huse : Appearance.usable ⟨some someCall, some 1, gesture true true⟩ = true := by
    decide +kernel
  unfold ofId
  by_cases hid : (gesture true true).decisionId = id
  · rw [List.filter_eq_self.mpr ?_]
    · exact lowestKept_first huse
    · intro a ha
      simp only [List.mem_cons, List.not_mem_nil, or_false] at ha
      rcases ha with rfl | rfl <;> exact decide_eq_true hid
  · rw [List.filter_eq_nil_iff.mpr ?_]
    · exact fun hne => absurd rfl hne
    · intro a ha
      simp only [List.mem_cons, List.not_mem_nil, or_false] at ha
      rcases ha with rfl | rfl <;> exact fun htrue => hid (of_decide_eq_true htrue)

theorem guessed_first : orderedCompletions [known, guessed] = [guessed, known] := by
  have hkey : ¬evidenceSortKey known.toCompletionFields ≤
      evidenceSortKey guessed.toCompletionFields := by
    decide +kernel
  unfold orderedCompletions sortedBy
  simp only [List.insertionSort_cons, List.insertionSort_nil, List.orderedInsert, if_neg hkey]

/-- The pass over the two completions. -/
theorem guessed_appearances :
    letI : Interpreter := ⟨fun s => s⟩
    appearances (fun _ => "") none {} [someCall] [known, guessed] =
      [⟨none, some (1 / 2), gesture true true⟩, ⟨some someCall, some 1, gesture true true⟩] := by
  let _ : Interpreter := ⟨fun s => s⟩
  have hguessed : confidenceOf (fun _ => "") none {} guessed = some (1 / 2) := by decide +kernel
  have hknown : confidenceOf (fun _ => "") none {} known = some 1 := by decide +kernel
  unfold appearances
  rw [guessed_first]
  simp only [List.flatMap_cons, List.flatMap_nil, rowAppearances, hguessed, hknown]
  rfl

theorem guess_lost : ¬LowestKept
    [⟨none, some (1 / 2), gesture true true⟩, ⟨some someCall, some 1, gesture true true⟩] := by
  intro hkept
  have hskip : Appearance.usable ⟨none, some (1 / 2), gesture true true⟩ = false := rfl
  have huse : Appearance.usable ⟨some someCall, some 1, gesture true true⟩ = true := by
    decide +kernel
  unfold LowestKept usableFrom at hkept
  rw [List.dropWhile_cons_of_pos (by rw [hskip]; rfl),
    List.dropWhile_cons_of_neg (by rw [huse]; exact Bool.false_ne_true),
    List.takeWhile_cons_of_pos (by rw [hskip]; rfl)] at hkept
  obtain ⟨b, hb, held, hheld, hle⟩ := hkept (by simp) _ List.mem_cons_self (1 / 2) rfl
  rw [List.mem_singleton.mp hb] at hheld
  cases hheld
  exact absurd hle (by norm_num)

/-- The guess is skipped first, and its lower confidence is not used. -/
theorem skipped_confidence_unused :
    letI : Interpreter := ⟨fun s => s⟩
    ∃ report, buildDecisionLatencyReport (fun _ => "") none {} [someCall] [known, guessed] 4 =
        .ok report ∧
      ¬Meets (fun _ => "") none {} [someCall] [known, guessed] 4 report := by
  let _ : Interpreter := ⟨fun s => s⟩
  obtain ⟨state, hstate⟩ : ∃ state, collect (fun _ => "") none {} [someCall] [known, guessed] =
      .ok state := by
    apply collect_ok
    intro row hr _
    obtain rfl | hr := List.mem_cons.mp hr
    · exact ok_of_isOk (by decide +kernel)
    · rw [List.mem_singleton.mp hr]
      exact ok_of_isOk (by decide +kernel)
  refine ⟨summarize 4 state, ?_, ?_⟩
  · unfold buildDecisionLatencyReport
    rw [hstate]
    rfl
  · rintro ⟨own, hown, -, hv⟩
    have hkept := (lowest_observed_iff (holds_collect hown)).mp hv.confidence "d1"
    rw [guessed_appearances] at hkept
    exact guess_lost hkept

end Sediment.Proofs.DecisionLatency
