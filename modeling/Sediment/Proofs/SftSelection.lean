import Sediment.Proofs.GatewayTotal
import Sediment.Proofs.LabelConfidence
import Sediment.Proofs.TimeSpelling

namespace Sediment.Proofs.SftSelection
open Sediment.Base Sediment.Core Sediment.Derive Sediment.Export
open Sediment.Proofs.TimeSpelling

/-- Two rows of the call have one evidence identity and different payloads. -/
def Conflicting (rows : List CompletionFields) (id : String) : Prop :=
  ∃ a ∈ rows, ∃ b ∈ rows, a.inferenceCallId = id ∧ evidenceIdentity a = evidenceIdentity b ∧
    sameEvidencePayload a b = false

theorem length_identitySortKey (row : CompletionFields) : (identitySortKey row).length = 3 := by
  unfold identitySortKey
  split <;> rfl

/-- An evidence identity names one call. -/
theorem call_of_identity {a b : CompletionFields} (h : evidenceIdentity a = evidenceIdentity b) :
    a.inferenceCallId = b.inferenceCallId := by
  have hkey : Export.evidenceSortKey a = Export.evidenceSortKey b := congrArg Prod.snd h
  have ha := length_identitySortKey a
  have hb := length_identitySortKey b
  unfold Export.evidenceSortKey at hkey
  split at hkey
  · split at hkey
    · have hlist := congrArg (fun key : EvidenceKey => (ofLex key).2[6]?) hkey
      simp only [ofLex_toLex, List.getElem?_append_right (by omega : (identitySortKey a).length ≤ 6),
        List.getElem?_append_right (by omega : (identitySortKey b).length ≤ 6), ha, hb] at hlist
      exact Option.some.inj hlist
    · have hrank := congrArg (fun key : EvidenceKey => (ofLex key).1) hkey
      cases hrank
  · split at hkey
    · have hrank := congrArg (fun key : EvidenceKey => (ofLex key).1) hkey
      cases hrank
    · have hlist := congrArg (fun key : EvidenceKey => (ofLex key).2[1]?) hkey
      exact Option.some.inj hlist

/-- What the scan holds after some rows. -/
structure Scanned (seen : List CompletionFields) (s : ConflictScan) : Prop where
  held : ∀ row ∈ seen, ∃ first ∈ seen, s.identities.get? (evidenceIdentity row) = some first
  sound : ∀ key first, s.identities.get? key = some first →
    first ∈ seen ∧ evidenceIdentity first = key
  calls : ∀ id, id ∈ s.conflictingCalls ↔ ∃ row ∈ seen, ∃ first, row.inferenceCallId = id ∧
    s.identities.get? (evidenceIdentity row) = some first ∧ sameEvidencePayload first row = false

theorem scanned_add {seen : List CompletionFields} {s : ConflictScan} (h : Scanned seen s)
    (row : CompletionFields) : Scanned (seen ++ [row]) (s.add row) := by
  unfold ConflictScan.add
  cases hg : s.identities.get? (evidenceIdentity row) with
  | none =>
    have hother : ∀ other ∈ seen, evidenceIdentity other ≠ evidenceIdentity row := by
      intro other ho heq
      obtain ⟨first, -, hfirst⟩ := h.held other ho
      rw [heq, hg] at hfirst
      cases hfirst
    refine ⟨?_, ?_, ?_⟩
    · intro other ho
      rw [Dict.get?_set]
      rcases List.mem_append.mp ho with ho | ho
      · obtain ⟨first, hmem, hfirst⟩ := h.held other ho
        rw [if_neg (hother other ho)]
        exact ⟨first, List.mem_append_left _ hmem, hfirst⟩
      · rw [List.mem_singleton] at ho
        subst ho
        exact ⟨other, by simp, if_pos rfl⟩
    · intro key first hfirst
      rw [Dict.get?_set] at hfirst
      split at hfirst
      · rename_i hkey
        cases hfirst
        exact ⟨by simp, hkey.symm⟩
      · obtain ⟨hmem, hid⟩ := h.sound key first hfirst
        exact ⟨List.mem_append_left _ hmem, hid⟩
    · intro id
      rw [h.calls id]
      constructor
      · intro h'
        obtain ⟨other, ho, first, hid, hfirst, hdiff⟩ := h'
        refine ⟨other, List.mem_append_left _ ho, first, hid, ?_, hdiff⟩
        rw [Dict.get?_set, if_neg (hother other ho)]
        exact hfirst
      · intro h'
        obtain ⟨other, ho, first, hid, hfirst, hdiff⟩ := h'
        rcases List.mem_append.mp ho with ho | ho
        · rw [Dict.get?_set, if_neg (hother other ho)] at hfirst
          exact ⟨other, ho, first, hid, hfirst, hdiff⟩
        · rw [List.mem_singleton] at ho
          subst ho
          rw [Dict.get?_set, if_pos rfl] at hfirst
          cases hfirst
          simp [sameEvidencePayload] at hdiff
  | some kept =>
    have hcalls : ∀ id, (∃ other ∈ seen ++ [row], ∃ first, other.inferenceCallId = id ∧
        s.identities.get? (evidenceIdentity other) = some first ∧
        sameEvidencePayload first other = false) ↔
        id ∈ s.conflictingCalls ∨ (row.inferenceCallId = id ∧
          sameEvidencePayload kept row = false) := by
      intro id
      rw [h.calls id]
      constructor
      · intro h'
        obtain ⟨other, ho, first, hid, hfirst, hdiff⟩ := h'
        rcases List.mem_append.mp ho with ho | ho
        · exact .inl ⟨other, ho, first, hid, hfirst, hdiff⟩
        · rw [List.mem_singleton] at ho
          subst ho
          rw [hg] at hfirst
          cases hfirst
          exact .inr ⟨hid, hdiff⟩
      · intro hor
        rcases hor with ⟨other, ho, rest⟩ | ⟨hid, hdiff⟩
        · exact ⟨other, List.mem_append_left _ ho, rest⟩
        · exact ⟨row, by simp, kept, hid, hg, hdiff⟩
    have hheld : ∀ other ∈ seen ++ [row], ∃ first ∈ seen ++ [row],
        s.identities.get? (evidenceIdentity other) = some first := by
      intro other ho
      rcases List.mem_append.mp ho with ho | ho
      · obtain ⟨first, hmem, hfirst⟩ := h.held other ho
        exact ⟨first, List.mem_append_left _ hmem, hfirst⟩
      · rw [List.mem_singleton] at ho
        subst ho
        exact ⟨kept, List.mem_append_left _ (h.sound _ _ hg).1, hg⟩
    have hsound : ∀ key first, s.identities.get? key = some first →
        first ∈ seen ++ [row] ∧ evidenceIdentity first = key := by
      intro key first hfirst
      obtain ⟨hmem, hid⟩ := h.sound key first hfirst
      exact ⟨List.mem_append_left _ hmem, hid⟩
    by_cases hsame : sameEvidencePayload kept row = true
    · simp only [hsame, if_true]
      refine ⟨hheld, hsound, ?_⟩
      intro id
      rw [hcalls id, hsame]
      simp
    · rw [Bool.not_eq_true] at hsame
      simp only [hsame, Bool.false_eq_true, if_false]
      refine ⟨hheld, hsound, ?_⟩
      intro id
      rw [hcalls id, Finset.mem_insert, hsame, or_comm, eq_comm (a := id)]
      simp

theorem scanned_run (rows : List CompletionFields) :
    Scanned rows (rows.foldl ConflictScan.add {}) := by
  induction rows using List.reverseRecOn with
  | nil =>
    refine ⟨by simp, ?_, by simp⟩
    intro key first hfirst
    cases hfirst
  | append_singleton rows row ih =>
    rw [List.foldl_append]
    exact scanned_add ih row

/-- Comparing with the first row held finds every call with two different payloads. -/
theorem mem_conflictingCalls (rows : List CompletionFields) (id : String) :
    id ∈ conflictingCalls rows ↔ Conflicting rows id := by
  have hscan := scanned_run rows
  rw [conflictingCalls, hscan.calls]
  constructor
  · intro h'
    obtain ⟨row, hrow, first, hid, hfirst, hdiff⟩ := h'
    obtain ⟨hmem, hidentity⟩ := hscan.sound _ _ hfirst
    exact ⟨first, hmem, row, hrow, (call_of_identity hidentity).trans hid, hidentity, hdiff⟩
  · intro h'
    obtain ⟨a, ha, b, hb, hid, hidentity, hdiff⟩ := h'
    obtain ⟨first, -, hfirst⟩ := hscan.held a ha
    by_cases hsame : sameEvidencePayload first a = true
    · refine ⟨b, hb, first, (call_of_identity hidentity).symm.trans hid, hidentity ▸ hfirst, ?_⟩
      simp only [sameEvidencePayload, decide_eq_true_eq, decide_eq_false_iff_not] at hsame hdiff ⊢
      rw [hsame]
      exact hdiff
    · exact ⟨a, ha, first, hid, hfirst, by simpa using hsame⟩

def trainerSkipReasons : List TrainerSkipReason :=
  [.nonFiniteNumber, .unrepresentableUnicode, .completionless, .duplicateToolCallId,
    .emptyMessage, .nonStringToolResult, .unrepresentablePartOrder, .unresolvedToolCall,
    .unsupportedCompletionRole, .unsupportedMessageRole, .unsupportedRolePart]

theorem mem_trainerSkipReasons (reason : TrainerSkipReason) : reason ∈ trainerSkipReasons := by
  cases reason <;> simp [trainerSkipReasons]

instance : Fintype SFTSkipReason :=
  Fintype.ofList ([.abandoned, .explicitReject, .resolvedCiFailure, .noEligibilitySource,
    .unreliableCiResolution, .noRewardSignal, .belowConfidenceFloor, .inferenceCallNotFound,
    .modelAbsent] ++ trainerSkipReasons.map .trainer)
    (fun reason => by cases reason <;> simp [mem_trainerSkipReasons])

def keep (conflicting : Finset String) (rows : List CompletionFields) : List CompletionFields :=
  rows.filter (fun row => row.inferenceCallId ∉ conflicting)

/-- The rows that a projection selects from. -/
def kept (rows : List CompletionFields) : List CompletionFields :=
  keep (conflictingCalls rows) rows

section
variable [Interpreter] (digest : CIResolutionPolicy → String)
  (context : Option RepositoryContext) {φ : Type} [Captured.PyFloat φ] (policy : SFTPolicy)
  (calls : Calls φ)

/-- The reason that a row is declined for. -/
def declinedFor (row : CompletionFields) : Option SFTSkipReason :=
  match assess digest context policy calls row with
  | .ok ⟨_, .error reason⟩ => some reason
  | _ => none

/-- The ranked sample of an eligible row. -/
def eligible (row : CompletionFields) : Option (SFTRank × SFTSample φ) :=
  match assess digest context policy calls row with
  | .ok ⟨_, .ok ranked⟩ => some ranked
  | _ => none

def ciSkipped (row : CompletionFields) (reason : CIResolutionSkipReason) : Nat :=
  match assess digest context policy calls row with
  | .ok a => a.ciSkipped reason
  | .error _ => 0

def candidates (rows : List CompletionFields) : List (String × SFTRank × SFTSample φ) :=
  rows.filterMap (fun row =>
    (eligible digest context policy calls row).map (fun c => (row.inferenceCallId, c)))

/-- What the loop has counted and holds after some rows. -/
structure Ran (conflicting : Finset String) (seen : List CompletionFields) (s : SFTState φ) :
    Prop where
  assessed : ∀ row ∈ keep conflicting seen, ∃ a, assess digest context policy calls row = .ok a
  best : s.best = Best.best (candidates digest context policy calls (keep conflicting seen))
  declined : ∀ reason, s.skipped (.declined reason) = (keep conflicting seen).countP
    (fun row => declinedFor digest context policy calls row = some reason)
  duplicates : s.skipped .duplicateCompletion + s.best.keys.length =
    (candidates digest context policy calls (keep conflicting seen)).length
  conflictingEvidence : s.skipped .conflictingEvidence = conflicting.card
  ci : ∀ reason, s.skipped (.ci reason) =
    ((keep conflicting seen).map (fun row =>
      ciSkipped digest context policy calls row reason)).sum

variable {digest context policy calls} {conflicting : Finset String}
  {seen : List CompletionFields} {s s' : SFTState φ}

omit [Interpreter] in
theorem keep_concat_in (row : CompletionFields) (h : row.inferenceCallId ∈ conflicting) :
    keep conflicting (seen ++ [row]) = keep conflicting seen := by
  simp [keep, h]

omit [Interpreter] in
theorem keep_concat_out (row : CompletionFields) (h : row.inferenceCallId ∉ conflicting) :
    keep conflicting (seen ++ [row]) = keep conflicting seen ++ [row] := by
  simp [keep, h]

theorem ran_settle {row : CompletionFields} {a : Assessment φ}
    (h : Ran digest context policy calls conflicting seen s)
    (hrow : row.inferenceCallId ∉ conflicting)
    (ha : assess digest context policy calls row = .ok a) :
    Ran digest context policy calls conflicting (seen ++ [row]) (s.settle row a) := by
  have hkeep : keep conflicting (seen ++ [row]) = keep conflicting seen ++ [row] :=
    keep_concat_out row hrow
  have hskip : ∀ reason, ciSkipped digest context policy calls row reason = a.ciSkipped reason := by
    intro reason
    simp only [ciSkipped, ha]
  have hassessed : ∀ other ∈ keep conflicting (seen ++ [row]),
      ∃ a, assess digest context policy calls other = .ok a := by
    intro other ho
    rw [hkeep, List.mem_append, List.mem_singleton] at ho
    rcases ho with ho | ho
    · exact h.assessed other ho
    · subst ho
      exact ⟨a, ha⟩
  obtain ⟨ciSkips, outcome⟩ := a
  cases outcome with
  | error reason =>
    have hnone : eligible digest context policy calls row = none := by
      simp only [eligible, ha]
    have hdeclined : declinedFor digest context policy calls row = some reason := by
      simp only [declinedFor, ha]
    have hcands : candidates digest context policy calls (keep conflicting (seen ++ [row])) =
        candidates digest context policy calls (keep conflicting seen) := by
      rw [hkeep]
      simp [candidates, hnone]
    refine ⟨hassessed, ?_, ?_, ?_, h.conflictingEvidence, ?_⟩
    · rw [hcands]
      exact h.best
    · intro reason'
      rw [hkeep, List.countP_append, List.countP_singleton, ← h.declined, hdeclined]
      by_cases hr : reason' = reason
      · subst hr
        simp [SFTState.settle, bump]
      · have hr' : ¬ reason = reason' := fun heq => hr heq.symm
        simp [SFTState.settle, bump, hr, hr']
    · rw [hcands]
      exact h.duplicates
    · intro reason'
      rw [hkeep, List.map_append, List.sum_append, ← h.ci, List.map_singleton, List.sum_singleton,
        hskip]
      rfl
  | ok ranked =>
    have hsome : eligible digest context policy calls row = some ranked := by
      simp only [eligible, ha]
    have hdeclined : declinedFor digest context policy calls row = none := by
      simp only [declinedFor, ha]
    have hcands : candidates digest context policy calls (keep conflicting (seen ++ [row])) =
        candidates digest context policy calls (keep conflicting seen) ++
          [(row.inferenceCallId, ranked)] := by
      rw [hkeep]
      simp [candidates, hsome]
    refine ⟨hassessed, ?_, ?_, ?_, ?_, ?_⟩
    · rw [hcands, Best.best_concat, ← h.best]
      rfl
    · intro reason
      rw [hkeep, List.countP_append, List.countP_singleton, ← h.declined, hdeclined]
      simp only [SFTState.settle]
      split <;> simp [bump]
    · rw [hcands, List.length_append, ← h.duplicates]
      simp only [SFTState.settle, Best.length_keys_offer, List.length_singleton]
      split
      · simp [bump]
        omega
      · simp
        omega
    · rw [← h.conflictingEvidence]
      simp only [SFTState.settle]
      split <;> simp [bump]
    · intro reason
      rw [hkeep, List.map_append, List.sum_append, ← h.ci, List.map_singleton, List.sum_singleton,
        hskip]
      simp only [SFTState.settle]
      split <;> simp [bump]

theorem ran_step {row : CompletionFields} (h : Ran digest context policy calls conflicting seen s)
    (hstep : s.step digest context policy calls conflicting row = .ok s') :
    Ran digest context policy calls conflicting (seen ++ [row]) s' := by
  unfold SFTState.step at hstep
  by_cases hrow : row.inferenceCallId ∈ conflicting
  · rw [if_pos hrow] at hstep
    cases hstep
    have hkeep : keep conflicting (seen ++ [row]) = keep conflicting seen := keep_concat_in row hrow
    refine ⟨?_, ?_, ?_, ?_, h.conflictingEvidence, ?_⟩
    · rw [hkeep]
      exact h.assessed
    · rw [hkeep]
      exact h.best
    · rw [hkeep]
      exact h.declined
    · rw [hkeep]
      exact h.duplicates
    · rw [hkeep]
      exact h.ci
  · rw [if_neg hrow] at hstep
    obtain ⟨a, ha, hs⟩ := bind_ok.mp hstep
    cases hs
    exact ran_settle h hrow ha

theorem ran_run {rows : List CompletionFields} {start : SFTState φ}
    (hstart : Ran digest context policy calls conflicting [] start)
    (h : rows.foldlM (SFTState.step digest context policy calls conflicting) start = .ok s) :
    Ran digest context policy calls conflicting rows s :=
  foldlM_induct (fun seen s => Ran digest context policy calls conflicting seen s) hstart
    (fun _ _ _ _ hran hstep => ran_step hran hstep) h

/-- The loop returns exactly where every row of a call without a conflict is assessed. -/
theorem run_ok_iff {rows : List CompletionFields} (start : SFTState φ) :
    (∃ s, rows.foldlM (SFTState.step digest context policy calls conflicting) start = .ok s) ↔
      ∀ row ∈ keep conflicting rows, ∃ a, assess digest context policy calls row = .ok a := by
  induction rows generalizing start with
  | nil => exact ⟨fun _ => by simp [keep], fun _ => ⟨start, rfl⟩⟩
  | cons row rows ih =>
    rw [List.foldlM_cons]
    by_cases hrow : row.inferenceCallId ∈ conflicting
    · have hkeep : keep conflicting (row :: rows) = keep conflicting rows := by
        simp [keep, hrow]
      rw [SFTState.step, if_pos hrow, hkeep]
      exact ih start
    · have hkeep : keep conflicting (row :: rows) = row :: keep conflicting rows := by
        simp [keep, hrow]
      rw [SFTState.step, if_neg hrow, hkeep]
      cases ha : assess digest context policy calls row with
      | error e =>
        constructor
        · intro h'
          obtain ⟨s, hs⟩ := h'
          cases hs
        · intro hall
          obtain ⟨a, haok⟩ := hall row (by simp)
          rw [ha] at haok
          cases haok
      | ok a =>
        have hrest := ih (start.settle row a)
        constructor
        · intro hs other ho
          rcases List.mem_cons.mp ho with heq | ho
          · subst heq
            exact ⟨a, ha⟩
          · exact hrest.mp hs other ho
        · intro hall
          exact hrest.mpr (fun other ho => hall other (List.mem_cons_of_mem _ ho))

variable (digest context policy calls) in
theorem ran_start (conflicting : Finset String) :
    Ran digest context policy calls conflicting []
      { skipped := fun count => if count = .conflictingEvidence then conflicting.card else 0 } := by
  refine ⟨by simp [keep], rfl, by simp [keep], ?_, by simp, by simp [keep]⟩
  rfl

theorem rankedSample_ok {row : CompletionFields} {source : SFTEligibilitySource} {rank : SFTRank}
    {sample : SFTSample φ}
    (h : rankedSample digest context policy calls row source = .ok (.ok (rank, sample))) :
    rank = toLex (sample.metadata.labelConfidence, Export.evidenceSortKey row) ∧
      sample.metadata.completionId = row.inferenceCallId ∧ sample.metadata.orgId = row.orgId := by
  unfold rankedSample at h
  obtain ⟨confidence, -, h⟩ := bind_ok.mp h
  cases confidence with
  | none => cases h
  | some confidence =>
    simp only at h
    split at h
    · cases h
    · cases hm : mappedCall calls row with
      | error reason =>
        rw [hm] at h
        cases h
      | ok mapped =>
        rw [hm] at h
        obtain ⟨resolution, -, h⟩ := bind_ok.mp h
        have hsample := Except.ok.inj h
        cases hs : sampleOf context policy row source confidence resolution mapped.1 mapped.2 with
        | error reason =>
          rw [hs] at hsample
          cases hsample
        | ok made =>
          rw [hs] at hsample
          cases hsample
          unfold sampleOf at hs
          obtain ⟨-, -, hs⟩ := bind_ok.mp hs
          obtain ⟨-, -, hs⟩ := bind_ok.mp hs
          obtain ⟨-, -, hs⟩ := bind_ok.mp hs
          cases hs
          exact ⟨rfl, rfl, rfl⟩

/-- An eligible row's sample is its own, and its rank is its confidence and evidence key. -/
theorem eligible_sample {row : CompletionFields} {rank : SFTRank} {sample : SFTSample φ}
    (h : eligible digest context policy calls row = some (rank, sample)) :
    rank = toLex (sample.metadata.labelConfidence, Export.evidenceSortKey row) ∧
      sample.metadata.completionId = row.inferenceCallId ∧ sample.metadata.orgId = row.orgId := by
  unfold eligible at h
  split at h
  · rename_i ciSkips ranked ha
    cases h
    unfold assess at ha
    split at ha
    · cases ha
    · split at ha
      · cases ha
      · obtain ⟨result, -, ha⟩ := bind_ok.mp ha
        obtain ⟨source, -, ha⟩ := bind_ok.mp ha
        cases source with
        | error reason => cases ha
        | ok source =>
          obtain ⟨outcome, hc, ha⟩ := bind_ok.mp ha
          cases ha
          exact rankedSample_ok hc
  · cases h

section
variable (digest context policy calls)

/-- How the rows and the counts of a projection account for its input. -/
structure Accounts (rows : List CompletionFields) (out : SFTProjection φ) : Prop where
  found : ∀ id, id ∈ conflictingCalls rows ↔ Conflicting rows id
  ordered : out.rows.Pairwise (fun a b => a.metadata.completionId < b.metadata.completionId)
  silent : ∀ sample ∈ out.rows, ¬ Conflicting rows sample.metadata.completionId
  selected : ∀ sample ∈ out.rows, ∃ row ∈ kept rows,
    row.inferenceCallId = sample.metadata.completionId ∧
    let rank := toLex (sample.metadata.labelConfidence, Export.evidenceSortKey row)
    eligible digest context policy calls row = some (rank, sample) ∧
    ∀ other ∈ kept rows, other.inferenceCallId = row.inferenceCallId →
      ∀ rival, eligible digest context policy calls other = some rival → rival.1 ≤ rank
  complete : ∀ row ∈ kept rows, (eligible digest context policy calls row).isSome →
    ∃ sample ∈ out.rows, sample.metadata.completionId = row.inferenceCallId
  settled : ∀ row ∈ kept rows,
    ((declinedFor digest context policy calls row).isSome ∧
      eligible digest context policy calls row = none) ∨
    (declinedFor digest context policy calls row = none ∧
      (eligible digest context policy calls row).isSome)
  conflictingEvidence : out.skipped .conflictingEvidence = (conflictingCalls rows).card
  declined : ∀ reason, out.skipped (.declined reason) =
    (kept rows).countP (fun row => declinedFor digest context policy calls row = some reason)
  duplicates : out.skipped .duplicateCompletion + out.rows.length =
    (kept rows).countP (fun row => (eligible digest context policy calls row).isSome)
  ci : ∀ reason, out.skipped (.ci reason) =
    ((kept rows).map (fun row => ciSkipped digest context policy calls row reason)).sum
  total : out.rows.length + out.skipped .duplicateCompletion +
    ∑ reason, out.skipped (.declined reason) = (kept rows).length

end

theorem settled_of_assessed {row : CompletionFields}
    (h : ∃ a, assess digest context policy calls row = .ok a) :
    ((declinedFor digest context policy calls row).isSome ∧
      eligible digest context policy calls row = none) ∨
    (declinedFor digest context policy calls row = none ∧
      (eligible digest context policy calls row).isSome) := by
  obtain ⟨⟨ciSkips, outcome⟩, ha⟩ := h
  unfold declinedFor eligible
  rw [ha]
  cases outcome with
  | error reason => exact .inl ⟨rfl, rfl⟩
  | ok ranked => exact .inr ⟨rfl, rfl⟩

/-- Each row is declined for one reason, or for none. -/
theorem sum_declined (rows : List CompletionFields) :
    ∑ reason, rows.countP (fun row => declinedFor digest context policy calls row = some reason) =
      rows.countP (fun row => (declinedFor digest context policy calls row).isSome) := by
  induction rows with
  | nil => simp
  | cons row rows ih =>
    simp only [List.countP_cons, Finset.sum_add_distrib, ih]
    cases declinedFor digest context policy calls row with
    | none => simp
    | some reason => simp

theorem length_candidates (rows : List CompletionFields) :
    (candidates digest context policy calls rows).length =
      rows.countP (fun row => (eligible digest context policy calls row).isSome) := by
  rw [candidates, List.length_filterMap_eq_countP]
  simp only [Option.isSome_map]

theorem countP_settled {rows : List CompletionFields}
    (h : ∀ row ∈ rows, ∃ a, assess digest context policy calls row = .ok a) :
    rows.countP (fun row => (eligible digest context policy calls row).isSome) +
      rows.countP (fun row => (declinedFor digest context policy calls row).isSome) =
      rows.length := by
  have hnot : rows.countP (fun row => (declinedFor digest context policy calls row).isSome) =
      rows.countP (fun row => !(eligible digest context policy calls row).isSome) := by
    apply List.countP_congr
    intro row hrow
    rcases settled_of_assessed (h row hrow) with ⟨hd, he⟩ | ⟨hd, he⟩
    · simp [hd, he]
    · simp [hd, he]
  rw [hnot, List.length_eq_countP_add_countP
    (fun row => (eligible digest context policy calls row).isSome)]
  simp only [Bool.not_eq_true, Bool.decide_eq_false]

theorem mem_candidates {rows : List CompletionFields} {id : String}
    {c : SFTRank × SFTSample φ} :
    (id, c) ∈ candidates digest context policy calls rows ↔ ∃ row ∈ rows,
      row.inferenceCallId = id ∧ eligible digest context policy calls row = some c := by
  simp only [candidates, List.mem_filterMap, Option.map_eq_some_iff, Prod.mk.injEq]
  constructor
  · intro h'
    obtain ⟨row, hrow, c', hc, hid, heq⟩ := h'
    subst heq
    exact ⟨row, hrow, hid, hc⟩
  · intro h'
    obtain ⟨row, hrow, hid, hc⟩ := h'
    exact ⟨row, hrow, c, hc, hid, rfl⟩

/-- What is held for a call is the sample of that call. -/
theorem held_sample {rows : List CompletionFields} {id : String} {c : SFTRank × SFTSample φ}
    (h : (Best.best (candidates digest context policy calls rows)).get? id = some c) :
    c.2.metadata.completionId = id := by
  obtain ⟨hmem, -⟩ := (Best.best_spec _ id).1 c h
  obtain ⟨row, -, hid, hc⟩ := mem_candidates.mp hmem
  exact (eligible_sample hc).2.1.trans hid

omit [Interpreter] [Captured.PyFloat φ] in
theorem mem_rows {sample : SFTSample φ} :
    sample ∈ s.rows ↔ ∃ id rank, s.best.get? id = some (rank, sample) := by
  simp only [SFTState.rows, List.mem_filterMap, mem_sortedBy, Option.map_eq_some_iff]
  constructor
  · intro h'
    obtain ⟨id, _, ⟨rank, sample'⟩, hg, heq⟩ := h'
    subst heq
    exact ⟨id, rank, hg⟩
  · intro h'
    obtain ⟨id, rank, hg⟩ := h'
    exact ⟨id, (Dict.mem_keys_iff _).mpr ⟨_, hg⟩, (rank, sample), hg, rfl⟩

omit [Interpreter] [Captured.PyFloat φ] in
theorem length_rows : s.rows.length = s.best.keys.length := by
  rw [SFTState.rows, List.length_filterMap_eq_countP, ← (sortedBy_perm id s.best.keys).length_eq]
  apply List.countP_eq_length.mpr
  intro id hid
  obtain ⟨c, hc⟩ := (Dict.mem_keys_iff _).mp (mem_sortedBy.mp hid)
  simp [hc]

omit [Interpreter] [Captured.PyFloat φ] in
/-- The calls in order, where each held sample is of its call. -/
theorem rows_ordered (h : ∀ id c, s.best.get? id = some c → c.2.metadata.completionId = id) :
    s.rows.Pairwise (fun a b => a.metadata.completionId < b.metadata.completionId) := by
  have hstrict : (sortedBy id s.best.keys).Pairwise (· < ·) := by
    have hnodup : (sortedBy id s.best.keys).Nodup :=
      (sortedBy_perm id _).nodup_iff.mpr (Dict.nodup_keys _)
    exact (sortedBy_pairwise id s.best.keys).imp₂ (fun _ _ hle hne => lt_of_le_of_ne hle hne)
      hnodup
  rw [SFTState.rows, List.pairwise_filterMap]
  refine hstrict.imp ?_
  intro k k' hlt a ha b hb
  obtain ⟨c, hc, hca⟩ := Option.map_eq_some_iff.mp ha
  obtain ⟨c', hc', hcb⟩ := Option.map_eq_some_iff.mp hb
  rw [← hca, ← hcb, h k c hc, h k' c' hc']
  exact hlt

theorem accounts_of_ran {rows : List CompletionFields}
    (h : Ran digest context policy calls (conflictingCalls rows) rows s) :
    Accounts digest context policy calls rows { rows := s.rows, skipped := s.skipped } := by
  have hkept : keep (conflictingCalls rows) rows = kept rows := rfl
  have hbest := h.best
  rw [hkept] at hbest
  have hheld : ∀ id c, s.best.get? id = some c → c.2.metadata.completionId = id := by
    intro id c hc
    rw [hbest] at hc
    exact held_sample hc
  have hduplicates : s.skipped .duplicateCompletion + s.rows.length =
      (kept rows).countP (fun row => (eligible digest context policy calls row).isSome) := by
    rw [length_rows, h.duplicates, length_candidates, hkept]
  have hselected : ∀ sample ∈ s.rows, ∃ row ∈ kept rows,
      row.inferenceCallId = sample.metadata.completionId ∧
      eligible digest context policy calls row =
        some (toLex (sample.metadata.labelConfidence, Export.evidenceSortKey row), sample) ∧
      ∀ other ∈ kept rows, other.inferenceCallId = row.inferenceCallId →
        ∀ rival, eligible digest context policy calls other = some rival →
          rival.1 ≤ toLex (sample.metadata.labelConfidence, Export.evidenceSortKey row) := by
    intro sample hsample
    obtain ⟨id, rank, hg⟩ := mem_rows.mp hsample
    rw [hbest] at hg
    obtain ⟨hmem, hmax⟩ := (Best.best_spec _ id).1 _ hg
    obtain ⟨row, hrow, hid, he⟩ := mem_candidates.mp hmem
    obtain ⟨hrank, hcall, -⟩ := eligible_sample he
    subst hrank
    refine ⟨row, hrow, hcall.symm, he, ?_⟩
    intro other hother heq rival hrival
    exact hmax rival (mem_candidates.mpr ⟨other, hother, heq.trans hid, hrival⟩)
  refine ⟨mem_conflictingCalls rows, rows_ordered hheld, ?_, hselected, ?_, ?_,
    h.conflictingEvidence, h.declined, hduplicates, h.ci, ?_⟩
  · intro sample hsample hconflict
    obtain ⟨row, hrow, hid, -⟩ := hselected sample hsample
    have hout : row.inferenceCallId ∉ conflictingCalls rows := by
      simpa using (List.mem_filter.mp hrow).2
    rw [hid, mem_conflictingCalls] at hout
    exact hout hconflict
  · intro row hrow he
    obtain ⟨c, hc⟩ := Option.isSome_iff_exists.mp he
    have hkey : row.inferenceCallId ∈ s.best.keys := by
      rw [hbest]
      exact Best.mem_keys_best.mpr ⟨c, mem_candidates.mpr ⟨row, hrow, rfl, hc⟩⟩
    obtain ⟨⟨rank, sample⟩, hg⟩ := (Dict.mem_keys_iff _).mp hkey
    exact ⟨sample, mem_rows.mpr ⟨_, rank, hg⟩, hheld _ _ hg⟩
  · intro row hrow
    exact settled_of_assessed (h.assessed row hrow)
  · have hsum : ∑ reason, s.skipped (.declined reason) =
        (kept rows).countP (fun row => (declinedFor digest context policy calls row).isSome) := by
      simp only [h.declined, hkept]
      exact sum_declined _
    have hsettled := countP_settled h.assessed
    rw [hkept] at hsettled
    simp only [hsum]
    omega

variable (digest context policy calls) in
/-- A projection is a run over its rows, or raises where it can't assess one. -/
theorem project_cases (rows : List AttributedCompletion) :
    (∃ s, Ran digest context policy calls
        (conflictingCalls (rows.map AttributedCompletion.toCompletionFields))
        (rows.map AttributedCompletion.toCompletionFields) s ∧
      projectSft digest context policy calls rows = .ok { rows := s.rows, skipped := s.skipped }) ∨
    ((∃ e, projectSft digest context policy calls rows = .error e) ∧
      ¬ ∀ row ∈ kept (rows.map AttributedCompletion.toCompletionFields),
        ∃ a, assess digest context policy calls row = .ok a) := by
  generalize hfields : rows.map AttributedCompletion.toCompletionFields = fields
  let start : SFTState φ := { skipped := fun count =>
    if count = .conflictingEvidence then (conflictingCalls fields).card else 0 }
  have hproject : projectSft digest context policy calls rows = (fields.foldlM
      (SFTState.step digest context policy calls (conflictingCalls fields)) start >>= fun s =>
        .ok { rows := s.rows, skipped := s.skipped }) := by
    subst hfields
    rfl
  rw [hproject]
  cases hs : fields.foldlM (SFTState.step digest context policy calls (conflictingCalls fields))
      start with
  | error e =>
    right
    refine ⟨⟨e, rfl⟩, ?_⟩
    intro hall
    obtain ⟨s, hs'⟩ := (run_ok_iff start).mpr hall
    rw [hs] at hs'
    cases hs'
  | ok s => exact .inl ⟨s, ran_run (ran_start digest context policy calls _) hs, rfl⟩

/-- Rows of one call belong to one organization. -/
def OneOrg (rows : List CompletionFields) : Prop :=
  ∀ a ∈ rows, ∀ b ∈ rows, a.inferenceCallId = b.inferenceCallId → a.orgId = b.orgId

omit [Interpreter] in
theorem conflictingCalls_perm {rows rows' : List CompletionFields} (h : rows.Perm rows') :
    conflictingCalls rows = conflictingCalls rows' := by
  ext id
  simp only [mem_conflictingCalls, Conflicting, h.mem_iff]

/-- Rows that have one payload are eligible with one sample. -/
theorem eligible_payload (row : CompletionFields) :
    eligible digest context policy calls row.payload =
      eligible digest context policy calls row := by
  have ha := assess_payload digest context policy calls row
  unfold eligible
  cases hp : assess digest context policy calls row.payload with
  | error e =>
    cases hr : assess digest context policy calls row with
    | error e' => rfl
    | ok a =>
      rw [hp, hr] at ha
      exact ha.elim
  | ok b =>
    cases hr : assess digest context policy calls row with
    | error e' =>
      rw [hp, hr] at ha
      exact ha.elim
    | ok a =>
      rw [hp, hr] at ha
      have heq : b = a := ha
      rw [heq]

/-- A rank tells the eligible rows of a call apart. -/
theorem rank_unique {rows : List CompletionFields} (hone : OneOrg rows) {id : String}
    {c c' : SFTRank × SFTSample φ}
    (hc : (id, c) ∈ candidates digest context policy calls (kept rows))
    (hc' : (id, c') ∈ candidates digest context policy calls (kept rows)) (hrank : c.1 = c'.1) :
    c = c' := by
  obtain ⟨row, hrow, hid, he⟩ := mem_candidates.mp hc
  obtain ⟨row', hrow', hid', he'⟩ := mem_candidates.mp hc'
  have hkey : Export.evidenceSortKey row = Export.evidenceSortKey row' := by
    have h1 := (eligible_sample he).1
    have h2 := (eligible_sample he').1
    rw [h1, h2] at hrank
    exact congrArg (fun r : SFTRank => (ofLex r).2) hrank
  obtain ⟨hmem, hout⟩ := List.mem_filter.mp hrow
  have hmem' := (List.mem_filter.mp hrow').1
  have hidentity : evidenceIdentity row = evidenceIdentity row' :=
    Prod.ext (hone row hmem row' hmem' (hid.trans hid'.symm)) hkey
  have hsame : sameEvidencePayload row row' = true := by
    by_contra hdiff
    have hconflict : Conflicting rows row.inferenceCallId :=
      ⟨row, hmem, row', hmem', rfl, hidentity, by simpa using hdiff⟩
    rw [← mem_conflictingCalls] at hconflict
    simp [hconflict] at hout
  have hpayload : row.payload = row'.payload := by simpa [sameEvidencePayload] using hsame
  have heq : some c = some c' := by
    rw [← he, ← he', ← eligible_payload row, hpayload, eligible_payload row']
  exact Option.some.inj heq

omit [Interpreter] [Captured.PyFloat φ] in
theorem rows_same (h : s.best.Same s'.best) : s.rows = s'.rows := by
  have hkeys : sortedBy id s.best.keys = sortedBy id s'.best.keys :=
    sortedBy_congr h.keys_perm (fun _ _ _ _ he => he)
  have hget : (fun k => (s.best.get? k).map Prod.snd) =
      fun k => (s'.best.get? k).map Prod.snd := by
    funext k
    rw [h k]
  rw [SFTState.rows, SFTState.rows, hkeys, hget]

theorem ran_perm {rows rows' : List CompletionFields} (hp : rows.Perm rows') (hone : OneOrg rows)
    (h : Ran digest context policy calls (conflictingCalls rows) rows s)
    (h' : Ran digest context policy calls (conflictingCalls rows') rows' s') :
    s.rows = s'.rows ∧ s.skipped = s'.skipped := by
  have hconf := conflictingCalls_perm hp
  have hkept : (kept rows).Perm (keep (conflictingCalls rows') rows') := by
    rw [kept, hconf]
    exact hp.filter _
  have hcands := hkept.filterMap (fun row =>
    (eligible digest context policy calls row).map (fun c => (row.inferenceCallId, c)))
  have hsame : s.best.Same s'.best := by
    rw [h.best, h'.best]
    exact Best.best_perm hcands (fun id c c' hc hc' hrank => rank_unique hone hc hc' hrank)
  refine ⟨rows_same hsame, ?_⟩
  funext count
  cases count with
  | declined reason =>
    rw [h.declined, h'.declined]
    exact hkept.countP_eq _
  | duplicateCompletion =>
    have hd := h.duplicates
    have hd' := h'.duplicates
    have hlen : (candidates digest context policy calls (keep (conflictingCalls rows) rows)).length =
        (candidates digest context policy calls (keep (conflictingCalls rows') rows')).length :=
      hcands.length_eq
    have hkeys := hsame.keys_perm.length_eq
    omega
  | conflictingEvidence => rw [h.conflictingEvidence, h'.conflictingEvidence, hconf]
  | ci reason =>
    rw [h.ci, h'.ci]
    exact (hkept.map _).sum_eq

theorem project_perm {rows rows' : List AttributedCompletion} (hp : rows.Perm rows')
    (hone : OneOrg (rows.map AttributedCompletion.toCompletionFields)) :
    Agree Eq (projectSft digest context policy calls rows)
      (projectSft digest context policy calls rows') := by
  have hfields := hp.map AttributedCompletion.toCompletionFields
  have hkept : (kept (rows.map AttributedCompletion.toCompletionFields)).Perm
      (kept (rows'.map AttributedCompletion.toCompletionFields)) := by
    rw [kept, kept, conflictingCalls_perm hfields]
    exact hfields.filter _
  rcases project_cases digest context policy calls rows with ⟨s, hran, hout⟩ | ⟨⟨e, herr⟩, hnot⟩
  · rcases project_cases digest context policy calls rows' with
      ⟨s', hran', hout'⟩ | ⟨-, hnot'⟩
    · obtain ⟨hrows, hcounts⟩ := ran_perm hfields hone hran hran'
      rw [hout, hout', hrows, hcounts]
      exact rfl
    · exact absurd (fun row hrow => hran.assessed row (hkept.mem_iff.mpr hrow)) hnot'
  · rcases project_cases digest context policy calls rows' with
      ⟨s', hran', -⟩ | ⟨⟨e', herr'⟩, -⟩
    · exact absurd (fun row hrow => hran'.assessed row (hkept.mem_iff.mp hrow)) hnot
    · rw [herr, herr']
      exact True.intro

variable (digest context policy calls) in
/-- A projection accounts for each of its rows, and where a call belongs to one organization the
order of the rows decides nothing. -/
theorem sft_selection_accounts (rows : List AttributedCompletion) :
    (∀ out, projectSft digest context policy calls rows = .ok out →
      Accounts digest context policy calls (rows.map AttributedCompletion.toCompletionFields)
        out) ∧
    (OneOrg (rows.map AttributedCompletion.toCompletionFields) →
      ∀ rows' : List AttributedCompletion, rows.Perm rows' →
        Agree Eq (projectSft digest context policy calls rows)
          (projectSft digest context policy calls rows')) := by
  refine ⟨?_, fun hone rows' hp => project_perm hp hone⟩
  intro out h
  rcases project_cases digest context policy calls rows with ⟨s, hran, hout⟩ | ⟨⟨e, herr⟩, -⟩
  · rw [h] at hout
    cases hout
    exact accounts_of_ran hran
  · rw [h] at herr
    cases herr

end

open Sediment.Base.JsonScan Sediment.Proofs.LabelConfidence Sediment.Proofs.GatewayTotal

/-- One accepted file of one call, as an organization's row. -/
def acceptedIn (orgId : String) : AttributedCompletion :=
  { stampedFields [{ gesture true true with orgId }] with
    orgId
    commitSha := some "6d1f3f5b0c3a4d2e8f7a9b1c0d2e4f6a8b0c1d3e"
    variant := ⟨rfl, rfl, rfl, rfl, rfl⟩
    scores := by
      intro d hd score hs
      have hd' := List.mem_singleton.mp hd
      subst hd'
      cases hs }

/-- A call that a model answers with one text. -/
def answered : Captured.InferenceCall ℚ :=
  { inferenceCallId := codePoints "c1", orgId := codePoints "o", sessionId := codePoints "s"
    userId := none, gatewayProvider := .litellm, modelProvider := none
    model := some (codePoints "m")
    inputMessages := []
    outputMessages := [⟨codePoints "assistant", [.text (codePoints "x")], none⟩]
    inputTokens := none, outputTokens := none, durationMs := none, modelCallId := none
    observedAt := someInstant, raw := [] }

/-- The organizations of the samples of some rows, under the default policy. -/
def selectedOrgs (rows : List AttributedCompletion) : Option (List String) :=
  letI : Interpreter := ⟨id⟩
  letI := exactFloat
  (projectSft (fun _ => "") none {} (fun _ => some answered) rows).toOption.map
    (fun out => out.rows.map (fun sample => sample.metadata.orgId))

/-- The same call on another commit. -/
def sibling : AttributedCompletion :=
  { acceptedIn "o" with commitSha := some "7e2f4f6b1c4b5d3f9f8a0c2d1e3f5a7b9c1d2e4f" }

theorem siblings_oneOrg :
    OneOrg ([acceptedIn "o", sibling].map AttributedCompletion.toCompletionFields) := by
  intro a ha b hb _
  simp only [List.map_cons, List.map_nil, List.mem_cons, List.not_mem_nil, or_false] at ha hb
  rcases ha with rfl | rfl <;> rcases hb with rfl | rfl <;> rfl

/-- One of two siblings is selected, and the same one in the other order. -/
theorem siblings_accounted :
    letI : Interpreter := ⟨id⟩
    letI := exactFloat
    ∃ out, projectSft (fun _ => "") none {} (fun _ => some answered)
        [acceptedIn "o", sibling] = .ok out ∧
      Accounts (fun _ => "") none {} (fun _ => some answered)
        ([acceptedIn "o", sibling].map AttributedCompletion.toCompletionFields) out ∧
      Agree Eq (projectSft (fun _ => "") none {} (fun _ => some answered)
          [acceptedIn "o", sibling])
        (projectSft (fun _ => "") none {} (fun _ => some answered) [sibling, acceptedIn "o"]) := by
  let _ : Interpreter := ⟨id⟩
  let _ := exactFloat
  obtain ⟨haccounts, horder⟩ := sft_selection_accounts (fun _ => "") none {}
    (fun _ => some answered) [acceptedIn "o", sibling]
  have hselected : selectedOrgs [acceptedIn "o", sibling] = some ["o"] := by
    decide +kernel
  unfold selectedOrgs at hselected
  have hswapped := horder siblings_oneOrg _ (List.Perm.swap sibling (acceptedIn "o") [])
  cases hout : projectSft (fun _ => "") none {} (fun _ => some answered)
      [acceptedIn "o", sibling] with
  | error e =>
    rw [hout] at hselected
    cases hselected
  | ok out =>
    rw [hout] at hswapped
    exact ⟨out, rfl, haccounts out hout, hswapped⟩

/-- Two organizations' rows of one call: the row that comes first is the one selected. -/
theorem order_decides_across_organizations :
    [acceptedIn "o", acceptedIn "p"].Perm [acceptedIn "p", acceptedIn "o"] ∧
      selectedOrgs [acceptedIn "o", acceptedIn "p"] = some ["o"] ∧
      selectedOrgs [acceptedIn "p", acceptedIn "o"] = some ["p"] := by
  refine ⟨List.Perm.swap _ _ _, ?_, ?_⟩
  · decide +kernel
  · decide +kernel

end Sediment.Proofs.SftSelection
