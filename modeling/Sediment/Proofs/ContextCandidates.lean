import Sediment.Derive.ContextRetrieval
import Sediment.Base.Groups

namespace Sediment.Proofs.ContextCandidates
open Sediment.Base Sediment.Core Sediment.Derive

variable {tokens : Finset (List Char)} {reason : ContextSkipReason}
  {items items' : List EvidenceReadItem} {item : EvidenceReadItem} {c d : ContextRetrievalItem}

def candidates (tokens : Finset (List Char)) (reason : ContextSkipReason)
    (items : List EvidenceReadItem) : List ContextRetrievalItem :=
  items.filterMap (fun item => (candidate item tokens reason).toOption)

def declined (tokens : Finset (List Char)) (reason : ContextSkipReason)
    (item : EvidenceReadItem) : Option ContextSkipReason :=
  match candidate item tokens reason with
  | .error r => some r
  | .ok _ => none

theorem mem_candidates :
    c ∈ candidates tokens reason items ↔ ∃ item ∈ items, candidate item tokens reason = .ok c := by
  simp only [candidates, List.mem_filterMap]
  refine exists_congr (fun item => and_congr_right' ?_)
  cases candidate item tokens reason <;> simp [Except.toOption]

theorem candidates_append (items items' : List EvidenceReadItem) :
    candidates tokens reason (items ++ items') =
      candidates tokens reason items ++ candidates tokens reason items' :=
  List.filterMap_append

theorem candidates_error {r : ContextSkipReason} (h : candidate item tokens reason = .error r) :
    candidates tokens reason [item] = [] ∧ declined tokens reason item = some r := by
  simp [candidates, declined, h, Except.toOption]

theorem candidates_ok (h : candidate item tokens reason = .ok c) :
    candidates tokens reason [item] = [c] ∧ declined tokens reason item = none := by
  simp [candidates, declined, h, Except.toOption]

/-- A candidate scores its own part, whose search text is finite. -/
theorem candidate_ok (h : candidate item tokens reason = .ok c) :
    c.evidence = item ∧ c.score ≠ 0 ∧ ∃ text, searchText item.part = some (.ok text) := by
  unfold candidate at h
  split at h
  · cases h
  · cases h
  · rename_i text ht
    dsimp only at h
    split at h
    · cases h
    · rename_i hs
      cases h
      exact ⟨rfl, hs, text, ht⟩

/-- Only these reasons decline a part. -/
theorem candidate_error {r : ContextSkipReason} (h : candidate item tokens reason = .error r) :
    r = .reasoningPart ∨ r = .nonFiniteNumber ∨ r = reason := by
  unfold candidate at h
  split at h
  · cases h; exact Or.inl rfl
  · cases h; exact Or.inr (Or.inl rfl)
  · dsimp only at h
    split at h
    · cases h; exact Or.inr (Or.inr rfl)
    · cases h

variable (tokens reason) in
theorem scan_run (s : Scan) (items : List EvidenceReadItem) :
    (items.foldl (scanStep tokens reason) s).candidates =
        s.candidates ++ candidates tokens reason items ∧
      ∀ r, (items.foldl (scanStep tokens reason) s).skipped r =
        s.skipped r + items.countP (fun item => declined tokens reason item = some r) := by
  induction items generalizing s with
  | nil => simp [candidates]
  | cons item items ih =>
    obtain ⟨hc, hs⟩ := ih (scanStep tokens reason s item)
    rw [List.foldl_cons, hc, ← List.singleton_append, candidates_append]
    simp only [hs, List.countP_append]
    cases h : candidate item tokens reason with
    | error r =>
      obtain ⟨h1, h2⟩ := candidates_error h
      simp only [scanStep, h, h1, List.nil_append, true_and]
      intro r'
      simp only [Skipped.add, Skipped.set, Function.update_apply, List.countP_cons, h2,
        Option.some.injEq, decide_eq_true_eq, List.countP_nil]
      by_cases hr : r' = r
      · simp [hr]; omega
      · simp [hr, Ne.symm hr]
    | ok c =>
      obtain ⟨h1, h2⟩ := candidates_ok h
      simp [scanStep, h, h1, h2]

def contentText (item : EvidenceReadItem) : List Char :=
  (Json.obj [("role", .str item.role), ("finish_reason", optionalStr item.finishReason),
    ("part", item.part.payload)] : Value).write sortedWriter

theorem part_finite {text : List Char} (h : searchText item.part = some (.ok text)) :
    item.part.payload.allFloats JsonFloat.finite = true := by
  cases hp : item.part with
  | text content => rfl
  | reasoning content => rfl
  | toolCall id name arguments =>
    rw [hp] at h
    simp only [searchText, strictJson, validateEvidenceNumbers, Option.some.injEq] at h
    split at h
    · rename_i hf
      simpa [MessagePart.payload, Json.allFloats, Json.allFloats.fieldsFloats] using hf
    · cases h
  | toolCallResponse id result =>
    rw [hp] at h
    simp only [searchText, strictJson, validateEvidenceNumbers, Option.some.injEq] at h
    split at h
    · rename_i hf
      simpa [MessagePart.payload, Json.allFloats, Json.allFloats.fieldsFloats] using hf
    · cases h

theorem optionalStr_finite (s : Option String) :
    (optionalStr s).allFloats JsonFloat.finite = true := by
  cases s <;> rfl

theorem contentKey_ok (h : candidate item tokens reason = .ok c) :
    contentKey item = .ok (contentText item) := by
  obtain ⟨-, -, text, ht⟩ := candidate_ok h
  have hf : (Json.obj [("role", .str item.role), ("finish_reason", optionalStr item.finishReason),
      ("part", item.part.payload)] : Value).allFloats JsonFloat.finite = true := by
    simp [Json.allFloats, Json.allFloats.fieldsFloats, optionalStr_finite, part_finite ht]
  simp only [contentKey, strictJson, validateEvidenceNumbers, hf, if_true]
  rfl

section
variable [DatetimeJson]

theorem item_finite (h : candidate item tokens reason = .ok c) :
    item.payload.allFloats JsonFloat.finite = true := by
  obtain ⟨-, -, text, ht⟩ := candidate_ok h
  simp [EvidenceReadItem.payload, EvidenceReference.payload, Json.allFloats,
    Json.allFloats.fieldsFloats, optionalStr_finite, part_finite ht]

theorem candidate_finite (h : candidate item tokens reason = .ok c) :
    c.payload.allFloats JsonFloat.finite = true := by
  have hi := item_finite h
  rw [← (candidate_ok h).1] at hi
  simp [ContextRetrievalItem.payload, Json.allFloats, Json.allFloats.fieldsFloats, hi]

end

/-- Reserving space for a finite value succeeds or reaches the state limit. -/
theorem stateEncodingSize_cases {payload : Value}
    (hf : payload.allFloats JsonFloat.finite = true) :
    stateEncodingSize payload = .error stateLimit ∨ ∃ n, stateEncodingSize payload = .ok n := by
  simp only [stateEncodingSize, encodeEvidenceJson, validateEvidenceNumbers, hf, if_true]
  by_cases hl : (contextStateBytesLimit : Int) < (payload.write compactWriter).length
  · left
    simp only [hl, if_true]
    rfl
  · right
    simp only [hl, if_false]
    exact ⟨_, rfl⟩

theorem rankKey_reference (h : rankKey c = rankKey d) :
    c.evidence.reference = d.evidence.reference := by
  simp only [rankKey, EmbeddingLike.apply_eq_iff_eq, Prod.mk.injEq] at h
  obtain ⟨-, -, hid, hside, hm, hp⟩ := h
  have hs : c.evidence.reference.side = d.evidence.reference.side := by
    cases hc : c.evidence.reference.side <;> cases hd : d.evidence.reference.side <;>
      simp [hc, hd, sideRank] at hside <;> rfl
  rw [EvidenceReference.mk.injEq]
  exact ⟨hid, hs, hm, hp⟩

variable (tokens reason) in
/-- Candidates of parts with distinct references never share a rank. -/
theorem rankKey_inj (hu : (items.map EvidenceReadItem.reference).Nodup) :
    ∀ c ∈ candidates tokens reason items, ∀ d ∈ candidates tokens reason items,
      rankKey c = rankKey d → c = d := by
  intro c hc d hd h
  obtain ⟨a, ha, hca⟩ := mem_candidates.mp hc
  obtain ⟨b, hb, hdb⟩ := mem_candidates.mp hd
  have href := rankKey_reference h
  rw [(candidate_ok hca).1, (candidate_ok hdb).1] at href
  obtain rfl := List.inj_on_of_nodup_map hu ha hb href
  rw [hca] at hdb
  cases hdb
  rfl

end Sediment.Proofs.ContextCandidates
