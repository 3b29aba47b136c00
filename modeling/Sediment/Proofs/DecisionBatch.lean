import Sediment.Base.Results
import Sediment.Core.Decisions
import Sediment.Proofs.SessionFold

namespace Sediment.Proofs.DecisionBatch
open Sediment.Base Sediment.Core Sediment.Proofs.SessionFold

/-- Which rows an insert takes, decided at the table itself. -/
def insertFlags : DecisionTable → List DecisionRow → List Bool
  | _, [] => []
  | table, values :: rest =>
    if blocked table values then false :: insertFlags table rest
    else true :: insertFlags (table ++ [values]) rest

variable {table : DecisionTable} {values w : DecisionRow} {xs ys : List DecisionRow}

theorem blocked_append (h : blocked table values = true) (more : DecisionTable) :
    blocked (table ++ more) values = true := by
  unfold blocked at h ⊢
  rw [List.any_append, h, Bool.true_or]

theorem blocked_congr (h : w.columns = values.columns) : blocked table w = blocked table values := by
  unfold blocked
  rw [h]

/-- Both times of a row have a date. -/
structure Dated (values : DecisionRow) : Prop where
  occurred : hasDate values.columns.occurredAt = true
  captured : hasDate values.columns.capturedAt = true

theorem decisionRowKey_of_dated (h : Dated values) : decisionRowKey values = some values.columns := by
  simp [decisionRowKey, astimezone, h.occurred, h.captured]

theorem decisionRowKey_eq_none (h : ¬ Dated values) : decisionRowKey values = none := by
  by_cases ho : hasDate values.columns.occurredAt = true
  · have hc : ¬ hasDate values.columns.capturedAt = true := fun hc => h ⟨ho, hc⟩
    simp [decisionRowKey, astimezone, hc]
  · simp [decisionRowKey, astimezone, ho]

/-- Once a row is refused, so is every later copy of it. -/
theorem not_mem_returned (h : blocked table values = true) :
    values.columns ∉ (insertRows table xs).2.map DecisionRow.columns := by
  induction xs generalizing table with
  | nil => simp [insertRows]
  | cons x xs ih =>
    unfold insertRows
    split
    · exact ih h
    · rename_i hx
      rw [List.map_cons, List.mem_cons, not_or]
      refine ⟨?_, ih (blocked_append h _)⟩
      intro he
      exact hx (by rw [blocked_congr he.symm, h])

theorem returned_subset (table : DecisionTable) (chunk : List DecisionRow) :
    (insertRows table chunk).2 ⊆ chunk := by
  induction chunk generalizing table with
  | nil => simp [insertRows]
  | cons v chunk ih =>
    rw [insertRows]
    split
    · exact List.subset_cons_of_subset v (ih table)
    · exact List.cons_subset_cons v (ih _)

/-- Counting the returned rows tells exactly which values went in. -/
theorem chunkStored_eq (table : DecisionTable) (chunk : List DecisionRow)
    (h : ∀ v ∈ chunk, Dated v) :
    chunkStored ((insertRows table chunk).2.map DecisionRow.columns) chunk =
      some (insertFlags table chunk) := by
  induction chunk generalizing table with
  | nil => rfl
  | cons v chunk ih =>
    have hkey := decisionRowKey_of_dated (h v (by simp))
    have hrest : ∀ u ∈ chunk, Dated u := fun u hu => h u (by simp [hu])
    by_cases hv : blocked table v = true
    · have hnone : v.columns ∉ (((insertRows table chunk).2.map DecisionRow.columns :
          List DecisionColumns) : Multiset DecisionColumns) :=
        fun h => not_mem_returned hv (Multiset.mem_coe.mp h)
      rw [insertRows, if_pos hv, chunkStored, insertFlags, if_pos hv]
      simp only [hkey, hnone, decide_false, if_false, ih _ hrest, Option.bind_eq_bind,
        Option.bind_some]
    · rw [insertRows, if_neg hv, insertFlags, if_neg hv]
      simp only [List.map_cons, chunkStored]
      have hmem : v.columns ∈ ((v.columns ::
          (insertRows (table ++ [v]) chunk).2.map DecisionRow.columns : List DecisionColumns) :
            Multiset DecisionColumns) := by
        simp
      simp only [hkey, hmem, decide_true, if_true, Option.bind_eq_bind, Option.bind_some]
      rw [← Multiset.cons_coe, Multiset.erase_cons_head, ih _ hrest]
      rfl

theorem chunkStored_eq_none {returned : Multiset DecisionColumns} {chunk : List DecisionRow}
    {v : DecisionRow} (hv : v ∈ chunk) (h : ¬ Dated v) : chunkStored returned chunk = none := by
  induction chunk generalizing returned with
  | nil => cases hv
  | cons u chunk ih =>
    rw [chunkStored]
    rcases List.mem_cons.mp hv with rfl | hv
    · rw [decisionRowKey_eq_none h]
      rfl
    · cases decisionRowKey u with
      | none => rfl
      | some key => simp only [Option.bind_eq_bind, Option.bind_some, ih hv, Option.bind_none]

theorem insertChunk_eq (table : DecisionTable) (chunk : List DecisionRow)
    (h : ∀ v ∈ chunk, Dated v) :
    insertChunk table chunk = some ((insertRows table chunk).1, insertFlags table chunk) := by
  have hkeys : (insertRows table chunk).2.mapM decisionRowKey =
      some ((insertRows table chunk).2.map DecisionRow.columns) := by
    have hdated := fun v hv => decisionRowKey_of_dated (h v (returned_subset table chunk hv))
    rw [mapM_option, if_pos (fun v hv => by rw [hdated v hv]; simp)]
    congr 1
    rw [← List.filterMap_eq_map, List.filterMap_congr hdated]
    rfl
  simp only [insertChunk, hkeys, Option.bind_eq_bind, Option.bind_some, chunkStored_eq table chunk h]

theorem insertChunk_eq_none {table : DecisionTable} {chunk : List DecisionRow} {v : DecisionRow}
    (hv : v ∈ chunk) (h : ¬ Dated v) : insertChunk table chunk = none := by
  simp only [insertChunk]
  cases (insertRows table chunk).2.mapM decisionRowKey with
  | none => rfl
  | some returned => simp only [Option.bind_eq_bind, Option.bind_some, chunkStored_eq_none hv h,
      Option.bind_none]

theorem insertRows_append (table : DecisionTable) (xs ys : List DecisionRow) :
    (insertRows table (xs ++ ys)).1 = (insertRows (insertRows table xs).1 ys).1 := by
  induction xs generalizing table with
  | nil => rfl
  | cons x xs ih =>
    rw [List.cons_append, insertRows, insertRows]
    split
    · exact ih table
    · exact ih _

theorem insertFlags_append (table : DecisionTable) (xs ys : List DecisionRow) :
    insertFlags table (xs ++ ys) =
      insertFlags table xs ++ insertFlags (insertRows table xs).1 ys := by
  induction xs generalizing table with
  | nil => rfl
  | cons x xs ih =>
    rw [List.cons_append, insertFlags, insertFlags, insertRows]
    split
    · rw [ih, List.cons_append]
    · rw [ih, List.cons_append]

/-- Where the list is cut does not matter. -/
theorem insertChunks_eq (table : DecisionTable) (chunks : List (List DecisionRow))
    (h : ∀ v ∈ chunks.flatten, Dated v) :
    insertChunks table chunks =
      some ((insertRows table chunks.flatten).1, insertFlags table chunks.flatten) := by
  induction chunks generalizing table with
  | nil => rfl
  | cons chunk chunks ih =>
    rw [List.flatten_cons, List.forall_mem_append] at h
    simp only [insertChunks, insertChunk_eq _ _ h.1, ih _ h.2, List.flatten_cons,
      insertRows_append, insertFlags_append, Option.bind_eq_bind, Option.bind_some]

theorem insertChunks_eq_none {table : DecisionTable} {chunks : List (List DecisionRow)}
    {v : DecisionRow} (hv : v ∈ chunks.flatten) (h : ¬ Dated v) :
    insertChunks table chunks = none := by
  induction chunks generalizing table with
  | nil => cases hv
  | cons chunk chunks ih =>
    rw [List.flatten_cons, List.mem_append] at hv
    rw [insertChunks]
    rcases hv with hv | hv
    · rw [insertChunk_eq_none hv h]
      rfl
    · cases insertChunk table chunk with
      | none => rfl
      | some p => simp only [Option.bind_eq_bind, Option.bind_some, ih hv, Option.bind_none]

theorem flatten_chunksOf {n : Nat} (hn : 0 < n) (xs : List DecisionRow) :
    (chunksOf n xs).flatten = xs := by
  have hfirst : ∀ k, ((List.range k).map (fun i => (xs.drop (i * n)).take n)).flatten =
      xs.take (k * n) := by
    intro k
    induction k with
    | zero => simp
    | succ k ih =>
      rw [List.range_succ, List.map_append, List.flatten_append, ih, Nat.add_mul, Nat.one_mul,
        List.take_add]
      simp
  rw [chunksOf, hfirst]
  apply List.take_of_length_le
  have hdiv := Nat.div_add_mod (xs.length + n - 1) n
  have hmod := Nat.mod_lt (xs.length + n - 1) hn
  rw [Nat.mul_comm] at hdiv
  omega

/-- A row after Facts that say `x` of its Session. -/
def updated (table : SessionTable) (k : SessionKey) (x : WithBot Summary) : Option SessionRow :=
  if x = ⊥ then table.get? k else writtenRow (seen table k ⊔ x)

@[simp] theorem updated_bot (table : SessionTable) (k : SessionKey) :
    updated table k ⊥ = table.get? k := if_pos rfl

theorem seen_of_updated {t t' : SessionTable} {k : SessionKey} {x : WithBot Summary}
    (h : t'.get? k = updated t k x) : seen t' k = seen t k ⊔ x := by
  by_cases hx : x = ⊥
  · rw [seen, h, hx, updated_bot, sup_bot_eq]
    rfl
  · rw [updated, if_neg hx] at h
    rw [seen, h]
    cases seen t k ⊔ x with
    | bot => rfl
    | coe s =>
      rw [writtenRow_coe, Option.elim_some, rowSummary_summaryRow]

theorem updated_trans {t t' : SessionTable} {k : SessionKey} {x y : WithBot Summary}
    (h : t'.get? k = updated t k x) : updated t' k y = updated t k (x ⊔ y) := by
  have hseen := seen_of_updated h
  by_cases hy : y = ⊥
  · subst hy
    rw [updated_bot, h, sup_bot_eq]
  · have hxy : x ⊔ y ≠ ⊥ := fun he => hy (le_bot_iff.mp (he ▸ le_sup_right))
    rw [updated, if_neg hy, updated, if_neg hxy, hseen, sup_assoc]

theorem get?_upsert (t : SessionTable) (p : SessionKey × SessionRow) (k : SessionKey)
    (hp : p.2 = summaryRow (rowSummary p.2)) :
    (sessionUpsertValues t p).get? k =
      updated t k (if k = p.1 then ↑(rowSummary p.2) else ⊥) := by
  unfold sessionUpsertValues
  rw [Dict.get?_alter]
  split
  · rename_i hk
    subst hk
    rw [updated, if_neg (WithBot.coe_ne_bot)]
    unfold seen
    cases t.get? p.1 with
    | none =>
      rw [Option.elim_none, Option.elim_none, bot_sup_eq]
      exact congrArg some hp
    | some row =>
      rw [Option.elim_some, Option.elim_some, conflictUpdate_eq]
      rfl
  · rw [updated_bot]

theorem get?_upserts (values : List (SessionKey × SessionRow)) (t : SessionTable)
    (k : SessionKey) (hv : ∀ p ∈ values, p.2 = summaryRow (rowSummary p.2)) :
    (values.foldl sessionUpsertValues t).get? k =
      updated t k (joined Prod.fst (fun p => rowSummary p.2) values k) := by
  induction values generalizing t with
  | nil => rw [joined_nil, updated_bot]; rfl
  | cons p values ih =>
    rw [List.foldl_cons, ih _ (fun q hq => hv q (by simp [hq])),
      updated_trans (get?_upsert t p k (hv p (by simp))), joined_cons]

theorem get?_batch (t : SessionTable) (facts : List SessionFact) (k : SessionKey) :
    (storeSessionBatch t facts).get? k =
      updated t k (joined SessionFact.key factSummary facts k) := by
  rw [storeSessionBatch, get?_upserts _ _ _ (spelled_metadata facts), joined_metadata]

section
variable (redact : DeveloperDecision → Option DeveloperDecision)

/-- A decision that raises nothing: its payload is redacted, and its times have dates in UTC. -/
def Storable (d : DeveloperDecision) : Prop := ∃ r, redact d = some r ∧ Dated (decisionValues r)

def rowsOf (decisions : List DeveloperDecision) : List DecisionRow :=
  (decisions.filterMap redact).map decisionValues

theorem rowsOf_dated {decisions : List DeveloperDecision}
    (h : ∀ d ∈ decisions, Storable redact d) : ∀ v ∈ rowsOf redact decisions, Dated v := by
  intro v hv
  obtain ⟨r, hr, rfl⟩ := List.mem_map.mp hv
  obtain ⟨d, hd, hdr⟩ := List.mem_filterMap.mp hr
  obtain ⟨r', hr', hdated⟩ := h d hd
  rw [hdr] at hr'
  cases hr'
  exact hdated

/-- What the Session rows read of the stored decisions. -/
def factsOf (decisions : List DeveloperDecision) (flags : List Bool) : List SessionFact :=
  (((decisions.filterMap redact).zip flags).filter Prod.snd).map
    (fun p => ⟨p.1.orgId, p.1.sessionId, p.1.userId, p.1.capturedAt.utc⟩)

theorem storedFacts_eq {decisions : List DeveloperDecision}
    (h : ∀ d ∈ decisions, Storable redact d) (flags : List Bool) :
    storedFacts (decisions.filterMap redact) flags = some (factsOf redact decisions flags) := by
  have hfact : ∀ p ∈ ((decisions.filterMap redact).zip flags).filter Prod.snd,
      p.1.sessionFact = some ⟨p.1.orgId, p.1.sessionId, p.1.userId, p.1.capturedAt.utc⟩ := by
    intro p hp
    have hmem : p.1 ∈ decisions.filterMap redact :=
      (List.of_mem_zip (List.mem_of_mem_filter hp)).1
    have hcaptured : hasDate p.1.capturedAt.utc = true :=
      (rowsOf_dated redact h _ (List.mem_map_of_mem hmem)).captured
    rw [DeveloperDecision.sessionFact, astimezone, if_pos hcaptured]
    rfl
  rw [storedFacts, mapM_option, if_pos (fun p hp => by rw [hfact p hp]; simp)]
  congr 1
  rw [factsOf, ← List.filterMap_eq_map, List.filterMap_congr hfact]
  rfl

theorem storeInChunks_eq (chunks : List DecisionRow → List (List DecisionRow))
    (hchunks : ∀ xs, (chunks xs).flatten = xs) (store : DecisionStore)
    {decisions : List DeveloperDecision} (h : ∀ d ∈ decisions, Storable redact d) :
    storeInChunks redact chunks store decisions =
      (⟨(insertRows store.decisions (rowsOf redact decisions)).1,
        storeSessionBatch store.sessions (factsOf redact decisions
          (insertFlags store.decisions (rowsOf redact decisions)))⟩,
        some (insertFlags store.decisions (rowsOf redact decisions))) := by
  have hredacted : decisions.mapM redact = some (decisions.filterMap redact) := by
    rw [mapM_option, if_pos]
    intro d hd
    obtain ⟨r, hr, -⟩ := h d hd
    simp [hr]
  have hdated : ∀ v ∈ (chunks (rowsOf redact decisions)).flatten, Dated v := by
    rw [hchunks]
    exact rowsOf_dated redact h
  have hinsert := insertChunks_eq store.decisions _ hdated
  rw [hchunks] at hinsert
  unfold storeInChunks
  split
  · rename_i hd
    subst hd
    rfl
  · change transaction store ((decisions.mapM redact).bind _) = _
    rw [hredacted, Option.bind_some]
    change transaction store ((insertChunks store.decisions
      (chunks (rowsOf redact decisions))).bind _) = _
    rw [hinsert, Option.bind_some]
    change transaction store ((storedFacts (decisions.filterMap redact) _).bind _) = _
    rw [storedFacts_eq redact h]
    rfl

/-- One decision that raises rolls the whole list back. -/
theorem storeInChunks_eq_none (chunks : List DecisionRow → List (List DecisionRow))
    (hchunks : ∀ xs, (chunks xs).flatten = xs) (store : DecisionStore)
    {decisions : List DeveloperDecision} {d : DeveloperDecision} (hd : d ∈ decisions)
    (h : ¬ Storable redact d) :
    storeInChunks redact chunks store decisions = (store, none) := by
  rw [storeInChunks, if_neg (List.ne_nil_of_mem hd)]
  cases hredacted : decisions.mapM redact with
  | none => rfl
  | some redacted =>
    rw [mapM_option] at hredacted
    split at hredacted
    · rename_i hall
      cases hredacted
      obtain ⟨r, hr⟩ := Option.ne_none_iff_exists'.mp (hall d hd)
      have hundated : ¬ Dated (decisionValues r) := fun hdated => h ⟨r, hr, hdated⟩
      have hmem : decisionValues r ∈ (chunks (rowsOf redact decisions)).flatten := by
        rw [hchunks]
        exact List.mem_map_of_mem (List.mem_filterMap.mpr ⟨d, hd, hr⟩)
      change transaction store ((insertChunks store.decisions
        (chunks (rowsOf redact decisions))).bind _) = _
      rw [insertChunks_eq_none hmem hundated]
      rfl
    · cases hredacted

theorem storeDecision_eq (store : DecisionStore) {d r : DeveloperDecision}
    (hr : redact d = some r) (hdated : Dated (decisionValues r)) :
    storeDecision redact store d =
      (if blocked store.decisions (decisionValues r) then (store, some false)
        else (⟨store.decisions ++ [decisionValues r], storeSessionBatch store.sessions
          [⟨r.orgId, r.sessionId, r.userId, r.capturedAt.utc⟩]⟩, some true)) := by
  have hone : ∀ x ∈ [d], Storable redact x := by simpa using ⟨r, hr, hdated⟩
  have hrows : rowsOf redact [d] = [decisionValues r] := by simp [rowsOf, hr]
  have hfacts : ∀ flag, factsOf redact [d] [flag] =
      if flag then [⟨r.orgId, r.sessionId, r.userId, r.capturedAt.utc⟩] else [] := by
    intro flag
    cases flag <;> simp [factsOf, hr]
  rw [storeDecision, storeDecisions,
    storeInChunks_eq redact _ (flatten_chunksOf (by decide)) store hone, hrows]
  simp only [insertRows, insertFlags]
  split
  · rw [hfacts]
    rfl
  · rw [hfacts]
    rfl

theorem storeDecision_eq_none (store : DecisionStore) {d : DeveloperDecision}
    (h : ¬ Storable redact d) : storeDecision redact store d = (store, none) := by
  rw [storeDecision, storeDecisions, storeInChunks_eq_none redact _ (flatten_chunksOf (by decide))
    store (List.mem_singleton_self d) h]
  rfl

/-- Equal tables but for the order in which their rows lie. -/
structure SameStore (a b : DecisionStore) : Prop where
  decisions : a.decisions = b.decisions
  sessions : a.sessions.Same b.sessions

theorem factsOf_cons {d r : DeveloperDecision} (hr : redact d = some r)
    (ds : List DeveloperDecision) (flag : Bool) (flags : List Bool) :
    factsOf redact (d :: ds) (flag :: flags) =
      (if flag then [⟨r.orgId, r.sessionId, r.userId, r.capturedAt.utc⟩] else []) ++
        factsOf redact ds flags := by
  cases flag <;> simp [factsOf, hr]

theorem storeEach_eq (store : DecisionStore) {decisions : List DeveloperDecision}
    (h : ∀ d ∈ decisions, Storable redact d) :
    (storeEach redact store decisions).2 =
        some (insertFlags store.decisions (rowsOf redact decisions)) ∧
      (storeEach redact store decisions).1.decisions =
        (insertRows store.decisions (rowsOf redact decisions)).1 ∧
      ∀ k, (storeEach redact store decisions).1.sessions.get? k =
        updated store.sessions k (joined SessionFact.key factSummary
          (factsOf redact decisions
            (insertFlags store.decisions (rowsOf redact decisions))) k) := by
  induction decisions generalizing store with
  | nil =>
    refine ⟨rfl, rfl, fun k => ?_⟩
    have hnone : joined SessionFact.key factSummary (factsOf redact []
        (insertFlags store.decisions (rowsOf redact []))) k = ⊥ := rfl
    rw [hnone, updated_bot]
    rfl
  | cons d decisions ih =>
    obtain ⟨r, hr, hdated⟩ := h d (by simp)
    have hrest : ∀ x ∈ decisions, Storable redact x := fun x hx => h x (by simp [hx])
    have hrows : rowsOf redact (d :: decisions) = decisionValues r :: rowsOf redact decisions := by
      simp [rowsOf, hr]
    rw [hrows, insertFlags, insertRows]
    simp only [storeEach, storeDecision_eq redact store hr hdated]
    by_cases hb : blocked store.decisions (decisionValues r) = true
    · obtain ⟨hflags, htable, hsessions⟩ := ih store hrest
      simp only [hb, if_true, factsOf_cons redact hr, Bool.false_eq_true, if_false,
        List.nil_append]
      exact ⟨by rw [hflags]; rfl, htable, hsessions⟩
    · obtain ⟨hflags, htable, hsessions⟩ := ih
        ⟨store.decisions ++ [decisionValues r], storeSessionBatch store.sessions
          [⟨r.orgId, r.sessionId, r.userId, r.capturedAt.utc⟩]⟩ hrest
      simp only [hb, Bool.false_eq_true, if_false, factsOf_cons redact hr, if_true]
      refine ⟨by rw [hflags]; rfl, htable, fun k => ?_⟩
      rw [hsessions, joined_append, updated_trans (get?_batch _ _ k)]

/-- The decisions before the first one that raises stay stored. -/
theorem storeEach_stops (store : DecisionStore) {before after : List DeveloperDecision}
    {d : DeveloperDecision} (hbefore : ∀ x ∈ before, Storable redact x)
    (h : ¬ Storable redact d) :
    storeEach redact store (before ++ d :: after) = ((storeEach redact store before).1, none) := by
  induction before generalizing store with
  | nil => simp only [List.nil_append, storeEach, storeDecision_eq_none redact store h]
  | cons x before ih =>
    have hrest : ∀ y ∈ before, Storable redact y := fun y hy => hbefore y (by simp [hy])
    rw [List.cons_append, storeEach, storeEach]
    cases hx : storeDecision redact store x with
    | mk store' flag =>
      cases flag with
      | none => rfl
      | some flag => simp only [ih store' hrest, Option.map_none]

/-- A batch of decisions is stored as its decisions one by one would be, in whatever chunks the
statements take them, where none of them raises. Where one does, the batch stores nothing, and
one by one those before it are stored. -/
theorem batch_stores_as_each (chunks : List DecisionRow → List (List DecisionRow))
    (hchunks : ∀ xs, (chunks xs).flatten = xs) (store : DecisionStore)
    (decisions : List DeveloperDecision) :
    ((∀ d ∈ decisions, Storable redact d) → ∃ flags,
      (storeInChunks redact chunks store decisions).2 = some flags ∧
      (storeEach redact store decisions).2 = some flags ∧
      SameStore (storeInChunks redact chunks store decisions).1
        (storeEach redact store decisions).1) ∧
    (∀ before d after, decisions = before ++ d :: after → (∀ x ∈ before, Storable redact x) →
      ¬ Storable redact d →
      storeInChunks redact chunks store decisions = (store, none) ∧
        storeEach redact store decisions = ((storeEach redact store before).1, none)) ∧
    storeDecisions redact store decisions = storeInChunks redact chunks store decisions := by
  refine ⟨fun h => ?_, ?_, ?_⟩
  · obtain ⟨hflags, htable, hsessions⟩ := storeEach_eq redact store h
    have heq := storeInChunks_eq redact chunks hchunks store h
    refine ⟨_, by rw [heq], hflags, ⟨by rw [heq, htable], fun k => ?_⟩⟩
    rw [heq, hsessions, get?_batch]
  · intro before d after hsplit hbefore h
    subst hsplit
    exact ⟨storeInChunks_eq_none redact chunks hchunks store (by simp) h,
      storeEach_stops redact store hbefore h⟩
  · by_cases h : ∀ d ∈ decisions, Storable redact d
    · rw [storeInChunks_eq redact chunks hchunks store h]
      exact storeInChunks_eq redact _ (flatten_chunksOf (by decide)) store h
    · obtain ⟨d, hd, h⟩ : ∃ d ∈ decisions, ¬ Storable redact d := by simpa using h
      rw [storeInChunks_eq_none redact chunks hchunks store hd h]
      exact storeInChunks_eq_none redact _ (flatten_chunksOf (by decide)) store hd h

end

def acceptedEdit (decisionId : String) (capturedAt : AwareDatetime) : DeveloperDecision where
  decisionId := decisionId
  orgId := "org"
  sessionId := "session"
  userId := none
  agentHarness := .claudeCode
  filePath := "src/parser.py"
  accepted := true
  explicit := true
  interactionMode := .agent
  commitSha := none
  callId := some "toolu_1"
  editRetentionScore := none
  observationDelayMs := none
  occurredAt := ⟨5, "1970-01-01T00:00:00.000005+00:00", "UTC", 0⟩
  capturedAt := capturedAt
  raw := "\x7b\x7d"

def atEpoch : AwareDatetime := ⟨9, "1970-01-01T00:00:00.000009+00:00", "UTC", 0⟩

/-- Midnight of the first day, fourteen hours east of Greenwich: no date in UTC. -/
def beforeYearOne : AwareDatetime :=
  ⟨-62135646000000000, "0001-01-01T00:00:00+14:00", "UTC+14:00", 0⟩

/-- A batch repeats one edit under a second id: only its first copy is stored. -/
theorem repeated_edit_stored_once :
    ∃ flags, (storeDecisions some ⟨[], Dict.empty⟩
        [acceptedEdit "a" atEpoch, acceptedEdit "b" atEpoch]).2 = some flags ∧
      flags = [true, false] ∧
      SameStore
        (storeDecisions some ⟨[], Dict.empty⟩
          [acceptedEdit "a" atEpoch, acceptedEdit "b" atEpoch]).1
        (storeEach some ⟨[], Dict.empty⟩
          [acceptedEdit "a" atEpoch, acceptedEdit "b" atEpoch]).1 := by
  have hstorable : ∀ d ∈ [acceptedEdit "a" atEpoch, acceptedEdit "b" atEpoch],
      Storable some d := by
    intro d hd
    refine ⟨d, rfl, ?_⟩
    simp only [List.mem_cons, List.not_mem_nil, or_false] at hd
    rcases hd with rfl | rfl
    · exact ⟨rfl, rfl⟩
    · exact ⟨rfl, rfl⟩
  obtain ⟨hsame, -, heq⟩ := batch_stores_as_each some (chunksOf 1)
    (flatten_chunksOf Nat.one_pos) ⟨[], Dict.empty⟩
    [acceptedEdit "a" atEpoch, acceptedEdit "b" atEpoch]
  obtain ⟨flags, hflags, heach, hstore⟩ := hsame hstorable
  rw [heq]
  refine ⟨flags, hflags, ?_, hstore⟩
  rw [(storeEach_eq some _ hstorable).1] at heach
  cases heach
  decide

/-- The second time of a batch has no date in UTC: the batch stores nothing, and one by one the
first decision is stored. -/
theorem undated_edit_rolls_back :
    storeDecisions some ⟨[], Dict.empty⟩
        [acceptedEdit "a" atEpoch, acceptedEdit "b" beforeYearOne] = (⟨[], Dict.empty⟩, none) ∧
      (storeEach some ⟨[], Dict.empty⟩
        [acceptedEdit "a" atEpoch, acceptedEdit "b" beforeYearOne]).1.decisions.length = 1 := by
  have hbefore : ∀ d ∈ [acceptedEdit "a" atEpoch], Storable some d := by
    simpa using ⟨acceptedEdit "a" atEpoch, rfl, rfl, rfl⟩
  have hundated : ¬ Storable some (acceptedEdit "b" beforeYearOne) := by
    rintro ⟨_, ⟨⟩, hdated⟩
    exact absurd hdated.captured (by decide)
  constructor
  · exact storeInChunks_eq_none some _ (flatten_chunksOf (by decide)) _
      (List.mem_cons_of_mem _ (List.mem_singleton_self _)) hundated
  · rw [show [acceptedEdit "a" atEpoch, acceptedEdit "b" beforeYearOne] =
      [acceptedEdit "a" atEpoch] ++ acceptedEdit "b" beforeYearOne :: [] from rfl,
      storeEach_stops some _ hbefore hundated, (storeEach_eq some _ hbefore).2.1]
    decide

end Sediment.Proofs.DecisionBatch
