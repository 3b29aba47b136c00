import Sediment.Proofs.CallAttachment

namespace Sediment.Proofs.DecisionAttachment
open Sediment.Base Sediment.Core Sediment.Derive
open Sediment.Proofs.CallAttachment (listed_completions)

/-- A Codex row of one file of a call. -/
def Keyed (d : DeveloperDecision) : Prop :=
  d.agentHarness = .codex ∧ d.callId ≠ none ∧ d.filePath ≠ ""

/-- A Codex row of a call that names no file. -/
def Unkeyed (d : DeveloperDecision) : Prop :=
  d.agentHarness = .codex ∧ d.filePath = "" ∧ d.callId ≠ none

/-- Another spelling of the same event names a file. -/
def Subsumed (decisions : List DeveloperDecision) (d : DeveloperDecision) : Prop :=
  Unkeyed d ∧ ∃ k ∈ decisions, Keyed k ∧ subsumptionKey k = subsumptionKey d

theorem mem_drop {decisions : List DeveloperDecision} {d : DeveloperDecision} :
    d ∈ dropSubsumedCodexDecisions decisions ↔ d ∈ decisions ∧ ¬Subsumed decisions d := by
  unfold dropSubsumedCodexDecisions
  rw [List.mem_filter, decide_eq_true_eq]
  refine and_congr_right (fun _ => not_congr ?_)
  simp only [List.mem_map, List.mem_filter, decide_eq_true_eq]
  constructor
  · intro h
    obtain ⟨hcodex, hpath, hcall, k, ⟨hk, hkeyed⟩, hkey⟩ := h
    exact ⟨⟨hcodex, hpath, hcall⟩, k, hk, hkeyed, hkey⟩
  · intro h
    obtain ⟨⟨hcodex, hpath, hcall⟩, k, hk, hkeyed, hkey⟩ := h
    exact ⟨hcodex, hpath, hcall, k, ⟨hk, hkeyed⟩, hkey⟩

theorem keyed_kept {decisions : List DeveloperDecision} {k : DeveloperDecision}
    (hk : k ∈ decisions) (hkeyed : Keyed k) : k ∈ dropSubsumedCodexDecisions decisions :=
  mem_drop.mpr ⟨hk, fun hsubsumed => hkeyed.2.2 hsubsumed.1.2.1⟩

theorem drop_sublist (decisions : List DeveloperDecision) :
    (dropSubsumedCodexDecisions decisions).Sublist decisions := List.filter_sublist

/-- The kept rows subsume what the whole list does. -/
theorem subsumed_drop {decisions : List DeveloperDecision} {d : DeveloperDecision} :
    Subsumed (dropSubsumedCodexDecisions decisions) d ↔ Subsumed decisions d := by
  constructor
  · intro h
    obtain ⟨hd, k, hk, hkeyed, hkey⟩ := h
    exact ⟨hd, k, (drop_sublist decisions).subset hk, hkeyed, hkey⟩
  · intro h
    obtain ⟨hd, k, hk, hkeyed, hkey⟩ := h
    exact ⟨hd, k, keyed_kept hk hkeyed, hkeyed, hkey⟩

theorem drop_idem (decisions : List DeveloperDecision) :
    dropSubsumedCodexDecisions (dropSubsumedCodexDecisions decisions) =
      dropSubsumedCodexDecisions decisions := by
  apply List.Sublist.eq_of_length (drop_sublist _)
  have hall : ∀ d ∈ dropSubsumedCodexDecisions decisions,
      d ∈ dropSubsumedCodexDecisions (dropSubsumedCodexDecisions decisions) := by
    intro d hd
    exact mem_drop.mpr ⟨hd, fun h => (mem_drop.mp hd).2 (subsumed_drop.mp h)⟩
  unfold dropSubsumedCodexDecisions at hall ⊢
  simp only at hall ⊢
  rw [List.filter_eq_self.mpr]
  intro d hd
  exact (List.mem_filter.mp (hall d hd)).2

theorem drop_perm {decisions decisions' : List DeveloperDecision}
    (h : decisions.Perm decisions') :
    (dropSubsumedCodexDecisions decisions).Perm (dropSubsumedCodexDecisions decisions') := by
  unfold dropSubsumedCodexDecisions
  simp only
  refine (h.filter _).trans (List.Perm.of_eq (List.filter_congr ?_))
  intro d hd
  rw [decide_eq_decide]
  simp only [List.mem_map, List.mem_filter, h.mem_iff]

/-- The collapse removes what a keyed sibling subsumes and nothing else, once and for all. -/
theorem codex_collapse_keeps_events (decisions : List DeveloperDecision) :
    dropSubsumedCodexDecisions (dropSubsumedCodexDecisions decisions) =
      dropSubsumedCodexDecisions decisions ∧
    (dropSubsumedCodexDecisions decisions).Sublist decisions ∧
    (∀ d ∈ decisions, d ∈ dropSubsumedCodexDecisions decisions ↔ ¬Subsumed decisions d) ∧
    (∀ d ∈ decisions, ∃ k ∈ dropSubsumedCodexDecisions decisions,
      subsumptionKey k = subsumptionKey d ∧ k.agentHarness = d.agentHarness) ∧
    ∀ decisions', decisions.Perm decisions' →
      (dropSubsumedCodexDecisions decisions).Perm (dropSubsumedCodexDecisions decisions') := by
  refine ⟨drop_idem decisions, drop_sublist decisions, ?_, ?_, fun _ h => drop_perm h⟩
  · intro d hd
    rw [mem_drop]
    exact and_iff_right hd
  · intro d hd
    by_cases h : Subsumed decisions d
    · obtain ⟨hunkeyed, k, hk, hkeyed, hkey⟩ := h
      exact ⟨k, keyed_kept hk hkeyed, hkey, hkeyed.1.trans hunkeyed.1.symm⟩
    · exact ⟨d, mem_drop.mpr ⟨hd, h⟩, rfl, rfl⟩

/-- What becomes of a decision beside a population of calls. -/
def attachment (calls : List InferenceCallIdentity) (d : DeveloperDecision) :
    Except DecisionAttachmentSkipReason String :=
  match d.callId with
  | none => .error .missingDecisionCallId
  | some callId => attachedCompletion d ((completionsByCallId calls).listed callId)

theorem attachDecision_ok {calls : List InferenceCallIdentity} {d : DeveloperDecision}
    {completion : String} (result : DecisionAttachmentResult)
    (h : attachment calls d = .ok completion) :
    attachDecision (completionsByCallId calls) result d =
      { result with decisionsByCompletion := result.decisionsByCompletion.push completion d } := by
  unfold attachment at h
  unfold attachDecision
  cases hcall : d.callId with
  | none =>
    simp only [hcall] at h ⊢
    cases h
  | some callId =>
    simp only [hcall] at h ⊢
    rw [h]

theorem attachDecision_error {calls : List InferenceCallIdentity} {d : DeveloperDecision}
    {reason : DecisionAttachmentSkipReason} (result : DecisionAttachmentResult)
    (h : attachment calls d = .error reason) :
    attachDecision (completionsByCallId calls) result d =
      { result with skipped := bump result.skipped reason 1 } := by
  unfold attachment at h
  unfold attachDecision
  cases hcall : d.callId with
  | none =>
    simp only [hcall] at h ⊢
    cases h
    rfl
  | some callId =>
    simp only [hcall] at h ⊢
    rw [h]

theorem listed_push {α : Type} (d : Dict String (List α)) (key k : String) (v : α) :
    (d.push key v).listed k = d.listed k ++ if key = k then [v] else [] := by
  have h := Dict.listed_gather d [(key, v)] k
  change (d.push key v).listed k = _ at h
  rw [h]
  split
  · rename_i hk
    rw [List.filter_cons_of_pos (by simpa using hk)]
    rfl
  · rename_i hk
    rw [List.filter_cons_of_neg (by simpa using hk)]
    rfl

/-- One decision grows the list of one completion or one count. -/
theorem attach_step (calls : List InferenceCallIdentity) (result : DecisionAttachmentResult)
    (d : DeveloperDecision) (completion : String) (reason : DecisionAttachmentSkipReason) :
    (attachDecision (completionsByCallId calls) result d).decisionsByCompletion.listed completion =
      result.decisionsByCompletion.listed completion ++
        [d].filter (fun d => attachment calls d = .ok completion) ∧
    (attachDecision (completionsByCallId calls) result d).skipped reason =
      result.skipped reason + [d].countP (fun d => attachment calls d = .error reason) := by
  cases h : attachment calls d with
  | ok other =>
    rw [attachDecision_ok result h]
    refine ⟨?_, ?_⟩
    · rw [listed_push]
      by_cases hk : other = completion <;> simp [h, hk]
    · simp [h]
  | error other =>
    rw [attachDecision_error result h]
    refine ⟨by simp [h], ?_⟩
    by_cases hk : other = reason
    · subst hk
      simp [h, bump]
    · simp [h, bump, hk, Ne.symm hk]

theorem attach_foldl (calls : List InferenceCallIdentity) (ds : List DeveloperDecision)
    (result : DecisionAttachmentResult) (completion : String)
    (reason : DecisionAttachmentSkipReason) :
    (ds.foldl (attachDecision (completionsByCallId calls)) result).decisionsByCompletion.listed
        completion =
      result.decisionsByCompletion.listed completion ++
        ds.filter (fun d => attachment calls d = .ok completion) ∧
    (ds.foldl (attachDecision (completionsByCallId calls)) result).skipped reason =
      result.skipped reason + ds.countP (fun d => attachment calls d = .error reason) := by
  induction ds generalizing result with
  | nil => simp
  | cons d ds ih =>
    obtain ⟨hlisted, hskipped⟩ := attach_step calls result d completion reason
    obtain ⟨ihlisted, ihskipped⟩ := ih (attachDecision (completionsByCallId calls) result d)
    rw [List.foldl_cons, ihlisted, ihskipped, hlisted, hskipped]
    constructor
    · rw [List.append_assoc, ← List.filter_append]
      rfl
    · rw [add_assoc, ← List.countP_append]
      rfl

theorem listed_join (calls : List InferenceCallIdentity) (decisions : List DeveloperDecision)
    (completion : String) :
    (joinDecisionsByCallIdResult calls decisions).decisionsByCompletion.listed completion =
      sortedBy decisionOrder ((dropSubsumedCodexDecisions decisions).filter
        (fun d => attachment calls d = .ok completion)) := by
  have h := (attach_foldl calls (dropSubsumedCodexDecisions decisions) {} completion
    .missingDecisionCallId).1
  have hempty : ({} : DecisionAttachmentResult).decisionsByCompletion.listed completion = [] := rfl
  rw [hempty, List.nil_append] at h
  rw [← h]
  unfold joinDecisionsByCallIdResult Dict.listed
  rw [Dict.get?_mapValues]
  cases Dict.get? _ completion <;> rfl

theorem skipped_join (calls : List InferenceCallIdentity) (decisions : List DeveloperDecision)
    (reason : DecisionAttachmentSkipReason) :
    (joinDecisionsByCallIdResult calls decisions).skipped reason =
      (dropSubsumedCodexDecisions decisions).countP
        (fun d => attachment calls d = .error reason) := by
  have h := (attach_foldl calls (dropSubsumedCodexDecisions decisions) {} "" reason).2
  have hempty : ({} : DecisionAttachmentResult).skipped reason = 0 := rfl
  rw [hempty, zero_add] at h
  exact h

/-- The call that alone carries a decision's call id shares its organization and Session. -/
def Owns (calls : List InferenceCallIdentity) (d : DeveloperDecision) (c : InferenceCallIdentity) :
    Prop :=
  (∃ callId, d.callId = some callId ∧ calls.filter (fun c => callId ∈ c.callIds) = [c]) ∧
    c.orgId = d.orgId ∧ c.sessionId = d.sessionId

theorem attachedCompletion_ok {d : DeveloperDecision} {found : List InferenceCallIdentity}
    {completion : String} :
    attachedCompletion d found = .ok completion ↔ ∃ c, found = [c] ∧ c.orgId = d.orgId ∧
      c.sessionId = d.sessionId ∧ c.inferenceCallId = completion := by
  match found with
  | [] => simp [attachedCompletion]
  | [c] =>
    unfold attachedCompletion
    by_cases horg : c.orgId = d.orgId
    · by_cases hsession : c.sessionId = d.sessionId
      · simp [horg, hsession]
      · simp [horg, hsession]
    · simp [horg]
  | _ :: _ :: _ => simp [attachedCompletion]

theorem attachment_ok {calls : List InferenceCallIdentity} {d : DeveloperDecision}
    {completion : String} :
    attachment calls d = .ok completion ↔
      ∃ c, Owns calls d c ∧ c.inferenceCallId = completion := by
  unfold attachment Owns
  cases hcall : d.callId with
  | none => simp
  | some callId =>
    simp only [listed_completions, attachedCompletion_ok, Option.some.injEq, exists_eq_left']
    constructor
    · intro h
      obtain ⟨c, hc, horg, hsession, hid⟩ := h
      exact ⟨c, ⟨hc, horg, hsession⟩, hid⟩
    · intro h
      obtain ⟨c, ⟨hc, horg, hsession⟩, hid⟩ := h
      exact ⟨c, hc, horg, hsession, hid⟩

theorem attachedCompletion_perm (d : DeveloperDecision) {found found' : List InferenceCallIdentity}
    (h : found.Perm found') : attachedCompletion d found = attachedCompletion d found' := by
  match found, found', h.length_eq with
  | [], [], _ => rfl
  | [c], [c'], _ => rw [List.singleton_perm_singleton.mp h]
  | _ :: _ :: _, _ :: _ :: _, _ => rfl

theorem attachment_perm {calls calls' : List InferenceCallIdentity} (h : calls.Perm calls')
    (d : DeveloperDecision) : attachment calls d = attachment calls' d := by
  unfold attachment
  split
  · rfl
  · rw [listed_completions, listed_completions]
    exact attachedCompletion_perm d (h.filter _)

/-- A further call leaves a decision where it was, takes it away, or finds it. -/
theorem attachment_cons {calls : List InferenceCallIdentity} {c : InferenceCallIdentity}
    {d : DeveloperDecision} {completion : String}
    (h : attachment (c :: calls) d = .ok completion) :
    attachment calls d = .ok completion ∨
      attachment calls d = .error .unmatchedDecisionCallId := by
  unfold attachment at h ⊢
  split at h
  · cases h
  · rename_i callId _
    simp only [listed_completions] at h ⊢
    by_cases hc : callId ∈ c.callIds
    · rw [List.filter_cons_of_pos (by simpa using hc), attachedCompletion_ok] at h
      obtain ⟨c', heq, _⟩ := h
      rw [(List.cons_eq_cons.mp heq).2]
      exact Or.inr rfl
    · rw [List.filter_cons_of_neg (by simpa using hc)] at h
      exact Or.inl h

/-- Each kept decision is attached to the one call that carries its call id, or counted under one
reason, whatever order the input has; a further call never moves one. -/
theorem decisions_attach_uniquely (calls : List InferenceCallIdentity)
    (decisions : List DeveloperDecision) :
    (∀ d completion, attachment calls d = .ok completion ↔
      ∃ c, Owns calls d c ∧ c.inferenceCallId = completion) ∧
    (∀ completion,
      ((joinDecisionsByCallIdResult calls decisions).decisionsByCompletion.listed completion).Perm
          ((dropSubsumedCodexDecisions decisions).filter
            (fun d => attachment calls d = .ok completion)) ∧
        ((joinDecisionsByCallIdResult calls decisions).decisionsByCompletion.listed
          completion).Pairwise (fun a b => decisionOrder a ≤ decisionOrder b)) ∧
    (∀ reason, (joinDecisionsByCallIdResult calls decisions).skipped reason =
      (dropSubsumedCodexDecisions decisions).countP
        (fun d => attachment calls d = .error reason)) ∧
    (∀ calls' decisions', calls.Perm calls' → decisions.Perm decisions' →
      (∀ d, attachment calls d = attachment calls' d) ∧
      (∀ completion,
        ((joinDecisionsByCallIdResult calls decisions).decisionsByCompletion.listed
            completion).Perm
          ((joinDecisionsByCallIdResult calls' decisions').decisionsByCompletion.listed
            completion)) ∧
      ((∀ a ∈ decisions, ∀ b ∈ decisions, decisionOrder a = decisionOrder b → a = b) →
        ∀ completion,
          (joinDecisionsByCallIdResult calls decisions).decisionsByCompletion.listed completion =
            (joinDecisionsByCallIdResult calls' decisions').decisionsByCompletion.listed
              completion) ∧
      (joinDecisionsByCallIdResult calls decisions).skipped =
        (joinDecisionsByCallIdResult calls' decisions').skipped) ∧
    ∀ calls' c, calls'.Perm (c :: calls) → ∀ d completion,
      attachment calls' d = .ok completion →
        attachment calls d = .ok completion ∨
          attachment calls d = .error .unmatchedDecisionCallId := by
  refine ⟨fun d completion => attachment_ok, ?_, skipped_join calls decisions, ?_, ?_⟩
  · intro completion
    rw [listed_join]
    exact ⟨sortedBy_perm _ _, sortedBy_pairwise _ _⟩
  · intro calls' decisions' hcalls hdecisions
    have hsame := attachment_perm hcalls
    have hkept := drop_perm hdecisions
    refine ⟨hsame, ?_, ?_, ?_⟩
    · intro completion
      rw [listed_join, listed_join]
      simp only [← hsame]
      exact (sortedBy_perm _ _).trans ((hkept.filter _).trans (sortedBy_perm _ _).symm)
    · intro hdistinct completion
      have hmem : ∀ a ∈ (dropSubsumedCodexDecisions decisions).filter
          (fun d => attachment calls d = .ok completion), a ∈ decisions := by
        intro a ha
        exact (drop_sublist decisions).subset (List.mem_of_mem_filter ha)
      rw [listed_join, listed_join]
      simp only [← hsame]
      refine sortedBy_congr (hkept.filter _) ?_
      intro a ha b hb
      exact hdistinct a (hmem a ha) b (hmem b hb)
    · funext reason
      rw [skipped_join, skipped_join]
      simp only [← hsame]
      exact hkept.countP_eq _
  · intro calls' c hcalls d completion h
    rw [attachment_perm hcalls] at h
    exact attachment_cons h

end Sediment.Proofs.DecisionAttachment
