import Sediment.Base.Consensus
import Sediment.Core.Sessions

namespace Sediment.Proofs.SessionFold
open Sediment.Base Sediment.Core

/-- What a Session row says: a least instant, a greatest one, and a user. -/
abbrev Summary := Intᵒᵈ × Int × Consensus String

def factSummary (fact : SessionFact) : Summary :=
  (OrderDual.toDual fact.capturedAt, fact.capturedAt, Consensus.ofOption fact.userId)

def rowSummary (row : SessionRow) : Summary :=
  (OrderDual.toDual row.firstObservedAt, row.lastObservedAt,
    if row.userIdConflict then .conflict else Consensus.ofOption row.userId)

/-- The columns that spell a summary. -/
def summaryRow (s : Summary) : SessionRow where
  firstObservedAt := OrderDual.ofDual s.1
  lastObservedAt := s.2.1
  userId := match s.2.2 with
    | .one user => some user
    | _ => none
  userIdConflict := match s.2.2 with
    | .conflict => true
    | _ => false

theorem rowSummary_summaryRow (s : Summary) : rowSummary (summaryRow s) = s := by
  obtain ⟨first, last, user⟩ := s
  cases user <;> rfl

/-- The SQL update joins two summaries, whatever the row holds. -/
theorem conflictUpdate_eq (row excluded : SessionRow) :
    conflictUpdate row excluded = summaryRow (rowSummary row ⊔ rowSummary excluded) := by
  obtain ⟨user, conflict, first, last⟩ := row
  obtain ⟨user', conflict', first', last'⟩ := excluded
  have hmin : OrderDual.ofDual (OrderDual.toDual first ⊔ OrderDual.toDual first') =
      min first first' := rfl
  have hsup : ∀ a b : Consensus String, a ⊔ b = Consensus.join a b := fun _ _ => rfl
  simp only [conflictUpdate, summaryRow, rowSummary, Prod.mk_sup_mk, hmin, hsup]
  cases conflict <;> cases conflict' <;> cases user <;> cases user' <;>
    simp [Consensus.ofOption, Consensus.join, userConflict]
  rename_i a b
  by_cases h : a = b <;> simp [h]

def seen (table : SessionTable) (k : SessionKey) : WithBot Summary :=
  (table.get? k).elim ⊥ (fun row => ↑(rowSummary row))

/-- Rows that the code itself writes spell their summary. -/
def Spelled (table : SessionTable) : Prop :=
  ∀ k row, table.get? k = some row → row = summaryRow (rowSummary row)

theorem seen_upsert (table : SessionTable) (values : SessionKey × SessionRow) (k : SessionKey) :
    seen (sessionUpsertValues table values) k =
      if k = values.1 then seen table k ⊔ ↑(rowSummary values.2) else seen table k := by
  unfold seen sessionUpsertValues
  rw [Dict.get?_alter]
  split
  · rename_i hk
    subst hk
    cases table.get? values.1 with
    | none => simp
    | some row =>
      simp only [Option.elim_some, conflictUpdate_eq, rowSummary_summaryRow, WithBot.coe_sup]
  · rfl

theorem Spelled.upsert {table : SessionTable} (h : Spelled table)
    {values : SessionKey × SessionRow} (hv : values.2 = summaryRow (rowSummary values.2)) :
    Spelled (sessionUpsertValues table values) := by
  intro k row hrow
  unfold sessionUpsertValues at hrow
  rw [Dict.get?_alter] at hrow
  split at hrow
  · cases ht : table.get? values.1 with
    | none =>
      rw [ht] at hrow
      cases hrow
      exact hv
    | some old =>
      rw [ht] at hrow
      cases hrow
      rw [Option.elim_some, conflictUpdate_eq, rowSummary_summaryRow]
  · exact h k row hrow

/-- The join of everything a list holds under one key. -/
def joined {α : Type} (key : α → SessionKey) (summary : α → Summary) (xs : List α)
    (k : SessionKey) : WithBot Summary :=
  ((xs.filter (fun x => key x = k)).map (fun x => (↑(summary x) : WithBot Summary)) :
    Multiset (WithBot Summary)).sup

section
variable {α : Type} {key : α → SessionKey} {summary : α → Summary}

@[simp] theorem joined_nil (k : SessionKey) : joined key summary [] k = ⊥ := rfl

theorem joined_cons (x : α) (xs : List α) (k : SessionKey) :
    joined key summary (x :: xs) k =
      (if k = key x then ↑(summary x) else ⊥) ⊔ joined key summary xs k := by
  unfold joined
  by_cases hk : key x = k
  · rw [List.filter_cons_of_pos (by simpa using hk), if_pos hk.symm, List.map_cons,
      ← Multiset.cons_coe, Multiset.sup_cons]
  · rw [List.filter_cons_of_neg (by simpa using hk), if_neg (Ne.symm hk), bot_sup_eq]

theorem joined_append (xs ys : List α) (k : SessionKey) :
    joined key summary (xs ++ ys) k = joined key summary xs k ⊔ joined key summary ys k := by
  induction xs with
  | nil => rw [List.nil_append, joined_nil, bot_sup_eq]
  | cons x xs ih => rw [List.cons_append, joined_cons, joined_cons, ih, sup_assoc]

end

theorem seen_upserts (values : List (SessionKey × SessionRow)) (table : SessionTable)
    (k : SessionKey) :
    seen (values.foldl sessionUpsertValues table) k =
      seen table k ⊔ joined Prod.fst (fun p => rowSummary p.2) values k := by
  induction values generalizing table with
  | nil => rw [joined_nil, sup_bot_eq]; rfl
  | cons v values ih =>
    rw [List.foldl_cons, ih, seen_upsert, joined_cons, ← sup_assoc]
    congr 1
    split
    · rfl
    · rw [sup_bot_eq]

theorem Spelled.upserts {table : SessionTable} (h : Spelled table)
    {values : List (SessionKey × SessionRow)}
    (hv : ∀ p ∈ values, p.2 = summaryRow (rowSummary p.2)) :
    Spelled (values.foldl sessionUpsertValues table) := by
  induction values generalizing table with
  | nil => exact h
  | cons v values ih =>
    exact ih (h.upsert (hv v (by simp))) (fun p hp => hv p (by simp [hp]))

def groupSummary (group : SessionGroup) : Summary :=
  (OrderDual.toDual group.firstObservedAt, group.lastObservedAt,
    (group.users.val.map Consensus.one).sup)

theorem users_sup_insert (users : Finset String) (user : String) :
    ((insert user users).val.map Consensus.one).sup =
      (users.val.map Consensus.one).sup ⊔ Consensus.one user := by
  rw [Finset.insert_val, ← Multiset.sup_dedup]
  by_cases h : user ∈ users.val
  · rw [Multiset.ndinsert_of_mem h, Multiset.sup_dedup, eq_comm, sup_eq_left]
    exact Multiset.le_sup (Multiset.mem_map_of_mem _ h)
  · rw [Multiset.ndinsert_of_notMem h, Multiset.sup_dedup, Multiset.map_cons, Multiset.sup_cons,
      sup_comm]

theorem groupSummary_add (group : SessionGroup) (fact : SessionFact) :
    groupSummary (group.add fact) = groupSummary group ⊔ factSummary fact := by
  have husers : ((group.add fact).users.val.map Consensus.one).sup =
      (group.users.val.map Consensus.one).sup ⊔ Consensus.ofOption fact.userId := by
    unfold SessionGroup.add
    cases fact.userId with
    | none =>
      change _ = _ ⊔ ⊥
      rw [sup_bot_eq]
    | some user => exact users_sup_insert group.users user
  unfold groupSummary factSummary
  rw [husers]
  rfl

theorem groupSummary_first (fact : SessionFact) :
    groupSummary (SessionGroup.add ⟨fact.capturedAt, fact.capturedAt, ∅⟩ fact) =
      factSummary fact := by
  rw [groupSummary_add, sup_eq_right]
  exact ⟨le_refl _, le_refl _, bot_le⟩

/-- The row of a group says what its Facts say together. -/
theorem rowSummary_group (group : SessionGroup) : rowSummary group.row = groupSummary group := by
  have husers : (group.users.val.map Consensus.one).sup =
      ((group.users.val.map some).map Consensus.ofOption).sup := by
    rw [Multiset.map_map]
    rfl
  have hmem : ∀ u, some u ∈ group.users.val.map some ↔ u ∈ group.users := by
    intro u
    simp
  unfold rowSummary groupSummary SessionGroup.row
  refine Prod.ext rfl (Prod.ext rfl ?_)
  dsimp only
  rw [husers]
  rcases Nat.lt_trichotomy group.users.card 1 with h | h | h
  · have hempty : group.users = ∅ := Finset.card_eq_zero.mp (by omega)
    rw [if_neg (by simpa using h.le), if_neg h.ne, eq_comm, Consensus.ofOption,
      Consensus.sup_eq_unknown_iff]
    intro u hu
    rw [hmem, hempty] at hu
    simp at hu
  · obtain ⟨u, hu⟩ := Finset.card_eq_one.mp h
    rw [if_neg (by simpa using h.le), if_pos h, onlyMember_eq_some.mpr hu, eq_comm,
      Consensus.ofOption, Consensus.sup_eq_one_iff]
    refine ⟨(hmem u).mpr (by simp [hu]), fun v hv => ?_⟩
    rw [hmem, hu] at hv
    simpa using hv
  · obtain ⟨u, hu, v, hv, hne⟩ := Finset.one_lt_card.mp h
    rw [if_pos (by simpa using h), eq_comm, Consensus.sup_eq_conflict_iff]
    exact ⟨u, v, (hmem u).mpr hu, (hmem v).mpr hv, hne⟩

def seenGroup (grouped : Dict SessionKey SessionGroup) (k : SessionKey) : WithBot Summary :=
  (grouped.get? k).elim ⊥ (fun group => ↑(groupSummary group))

theorem seenGroup_fold (facts : List SessionFact) (grouped : Dict SessionKey SessionGroup)
    (k : SessionKey) :
    seenGroup (facts.foldl groupSession grouped) k =
      seenGroup grouped k ⊔ joined SessionFact.key factSummary facts k := by
  induction facts generalizing grouped with
  | nil => rw [joined_nil, sup_bot_eq]; rfl
  | cons fact facts ih =>
    have hstep : seenGroup (groupSession grouped fact) k =
        seenGroup grouped k ⊔ (if k = fact.key then ↑(factSummary fact) else ⊥) := by
      unfold seenGroup groupSession
      rw [Dict.get?_alter]
      split
      · rename_i hk
        subst hk
        cases grouped.get? fact.key with
        | none => simp [groupSummary_first]
        | some group => simp [groupSummary_add]
      · rw [sup_bot_eq]
    rw [List.foldl_cons, ih, hstep, joined_cons, sup_assoc]

theorem joined_perm {α : Type} {key : α → SessionKey} {summary : α → Summary} {xs ys : List α}
    (h : xs.Perm ys) (k : SessionKey) : joined key summary xs k = joined key summary ys k := by
  unfold joined
  rw [Multiset.coe_eq_coe.mpr ((h.filter _).map _)]

/-- The batch fold says of each key what its Facts say together. -/
theorem joined_metadata (facts : List SessionFact) (k : SessionKey) :
    joined Prod.fst (fun p => rowSummary p.2) (sessionMetadata facts) k =
      joined SessionFact.key factSummary facts k := by
  have hgroup := seenGroup_fold facts Dict.empty k
  rw [show seenGroup Dict.empty k = ⊥ from rfl, bot_sup_eq] at hgroup
  rw [← hgroup]
  have hrows : joined Prod.fst (fun p => rowSummary p.2) (sessionMetadata facts) k =
      joined Prod.fst (fun p => groupSummary p.2) (facts.foldl groupSession Dict.empty).entries
        k := by
    rw [← joined_perm (sortedBy_perm (fun p : SessionKey × SessionGroup => toLex p.1) _)]
    unfold sessionMetadata joined
    dsimp only
    rw [List.filter_map, List.map_map]
    congr 3
    funext p
    simp [rowSummary_group]
  rw [hrows]
  generalize facts.foldl groupSession Dict.empty = grouped
  unfold seenGroup joined
  rw [Dict.filter_entries_key]
  cases grouped.get? k <;> simp

theorem spelled_metadata (facts : List SessionFact) :
    ∀ p ∈ sessionMetadata facts, p.2 = summaryRow (rowSummary p.2) := by
  intro p hp
  obtain ⟨⟨k, group⟩, -, rfl⟩ := List.mem_map.mp hp
  obtain ⟨first, last, users⟩ := group
  simp only [SessionGroup.row, rowSummary, summaryRow]
  rcases Nat.lt_trichotomy users.card 1 with h | h | h
  · simp [h.ne, Nat.not_lt.mpr h.le, Consensus.ofOption]
  · obtain ⟨u, hu⟩ := Finset.card_eq_one.mp h
    simp [h, onlyMember_eq_some.mpr hu, Consensus.ofOption]
  · simp [h, h.ne']

theorem seen_batch (table : SessionTable) (facts : List SessionFact) (k : SessionKey) :
    seen (storeSessionBatch table facts) k =
      seen table k ⊔ joined SessionFact.key factSummary facts k := by
  rw [storeSessionBatch, seen_upserts, joined_metadata]

theorem seen_batches (batches : List (List SessionFact)) (table : SessionTable)
    (k : SessionKey) :
    seen (batches.foldl storeSessionBatch table) k =
      seen table k ⊔ joined SessionFact.key factSummary batches.flatten k := by
  induction batches generalizing table with
  | nil => rw [List.flatten_nil, joined_nil, sup_bot_eq]; rfl
  | cons facts batches ih =>
    rw [List.foldl_cons, ih, seen_batch, List.flatten_cons, joined_append, sup_assoc]

theorem spelled_batches (batches : List (List SessionFact)) (table : SessionTable)
    (h : Spelled table) : Spelled (batches.foldl storeSessionBatch table) := by
  induction batches generalizing table with
  | nil => exact h
  | cons facts batches ih => exact ih _ (h.upserts (spelled_metadata facts))

/-- A Fact that comes alone is a batch of its own. -/
theorem sessionUpsert_eq (table : SessionTable) (fact : SessionFact) :
    sessionUpsert table fact = storeSessionBatch table [fact] := by
  have hrow : sessionMetadata [fact] =
      [(fact.key, ⟨fact.userId, false, fact.capturedAt, fact.capturedAt⟩)] := by
    change [(fact.key, SessionGroup.row
      (SessionGroup.add ⟨fact.capturedAt, fact.capturedAt, ∅⟩ fact))] = _
    unfold SessionGroup.add SessionGroup.row
    cases hu : fact.userId with
    | none => simp
    | some user =>
      have hone : onlyMember {user} = some user := onlyMember_eq_some.mpr rfl
      simp [hone]
  rw [storeSessionBatch, hrow]
  rfl

/-- The row that a table holds where it says `x`. -/
def writtenRow : WithBot Summary → Option SessionRow :=
  WithBot.recBotCoe none (fun s => some (summaryRow s))

@[simp] theorem writtenRow_bot : writtenRow ⊥ = none := rfl

@[simp] theorem writtenRow_coe (s : Summary) : writtenRow ↑s = some (summaryRow s) := rfl

/-- The row that the Facts of one Session come to. -/
def sessionRow (facts : Multiset SessionFact) : Option SessionRow :=
  writtenRow (facts.map (fun f => (↑(factSummary f) : WithBot Summary))).sup

theorem batches_row (batches : List (List SessionFact)) (k : SessionKey) :
    (batches.foldl storeSessionBatch Dict.empty).get? k =
      sessionRow (batches.flatten.filter (fun f => f.key = k)) := by
  have hseen := seen_batches batches Dict.empty k
  have hspelled := spelled_batches batches Dict.empty (by intro k row h; cases h)
  rw [show seen Dict.empty k = ⊥ from rfl, bot_sup_eq] at hseen
  unfold sessionRow
  rw [Multiset.map_coe]
  change _ = writtenRow (joined SessionFact.key factSummary batches.flatten k)
  rw [← hseen]
  unfold seen
  cases hget : (batches.foldl storeSessionBatch Dict.empty).get? k with
  | none => rfl
  | some row => exact congrArg some (hspelled k row hget)

/-- A join of Facts keeps their least and greatest instants and joins their users. -/
theorem sup_facts (facts : Multiset SessionFact) (hne : facts ≠ 0) :
    ∃ s : Summary,
      (facts.map (fun f => (↑(factSummary f) : WithBot Summary))).sup = ↑s ∧
      IsLeast {t | ∃ f ∈ facts, f.capturedAt = t} (OrderDual.ofDual s.1) ∧
      IsGreatest {t | ∃ f ∈ facts, f.capturedAt = t} s.2.1 ∧
      s.2.2 = ((facts.map SessionFact.userId).map Consensus.ofOption).sup := by
  induction facts using Multiset.induction_on with
  | empty => exact absurd rfl hne
  | cons f facts ih =>
    rw [Multiset.map_cons, Multiset.sup_cons, Multiset.map_cons, Multiset.map_cons,
      Multiset.sup_cons]
    by_cases hrest : facts = 0
    · subst hrest
      refine ⟨factSummary f, by simp, ⟨?_, ?_⟩, ⟨?_, ?_⟩, ?_⟩
      · exact ⟨f, by simp, rfl⟩
      · rintro t ⟨g, hg, rfl⟩
        rw [Multiset.mem_cons] at hg
        simp only [Multiset.notMem_zero, or_false] at hg
        rw [hg]
        exact le_refl _
      · exact ⟨f, by simp, rfl⟩
      · rintro t ⟨g, hg, rfl⟩
        rw [Multiset.mem_cons] at hg
        simp only [Multiset.notMem_zero, or_false] at hg
        rw [hg]
        exact le_refl _
      · simp [factSummary]
    · obtain ⟨s, hs, hleast, hgreatest, huser⟩ := ih hrest
      have hcaps : {t | ∃ g ∈ f ::ₘ facts, g.capturedAt = t} =
          insert f.capturedAt {t | ∃ g ∈ facts, g.capturedAt = t} := by
        ext t
        simp [eq_comm]
      refine ⟨factSummary f ⊔ s, by rw [hs, WithBot.coe_sup], ?_, ?_, ?_⟩
      · rw [hcaps]
        exact hleast.insert f.capturedAt
      · rw [hcaps]
        exact hgreatest.insert f.capturedAt
      · change Consensus.ofOption f.userId ⊔ s.2.2 = _
        rw [huser]

/-- The Session row depends on the Facts alone, not on their order or on how
they were cut into batches. -/
theorem session_fold_order_and_batching (k : SessionKey) (facts : Multiset SessionFact)
    (hne : facts ≠ 0) :
    ∃ row : SessionRow,
      (∀ batches : List (List SessionFact),
        (batches.flatten.filter (fun f => f.key = k) : Multiset SessionFact) = facts →
          (batches.foldl storeSessionBatch Dict.empty).get? k = some row) ∧
      IsLeast {t | ∃ f ∈ facts, f.capturedAt = t} row.firstObservedAt ∧
      IsGreatest {t | ∃ f ∈ facts, f.capturedAt = t} row.lastObservedAt ∧
      (∀ u, row.userId = some u ↔ (∃ f ∈ facts, f.userId = some u) ∧
        ∀ f ∈ facts, ∀ v, f.userId = some v → v = u) ∧
      (row.userIdConflict = true ↔
        ∃ f ∈ facts, ∃ g ∈ facts, ∃ u v, f.userId = some u ∧ g.userId = some v ∧ u ≠ v) := by
  obtain ⟨s, hs, hleast, hgreatest, huser⟩ := sup_facts facts hne
  have hmem : ∀ u, some u ∈ facts.map SessionFact.userId ↔ ∃ f ∈ facts, f.userId = some u :=
    fun u => Multiset.mem_map
  refine ⟨summaryRow s, ?_, hleast, hgreatest, ?_, ?_⟩
  · intro batches hb
    rw [batches_row, hb, sessionRow, hs]
    rfl
  · intro u
    have hone := Consensus.sup_eq_one_iff (s := facts.map SessionFact.userId) (a := u)
    rw [← huser, hmem] at hone
    have hrow : (summaryRow s).userId = some u ↔ s.2.2 = .one u := by
      unfold summaryRow
      cases s.2.2 <;> simp
    rw [hrow, hone]
    refine and_congr_right (fun _ => ⟨fun h f hf v hv => h v ((hmem v).mpr ⟨f, hf, hv⟩), ?_⟩)
    intro h v hv
    obtain ⟨f, hf, hfv⟩ := (hmem v).mp hv
    exact h f hf v hfv
  · have hconf := Consensus.sup_eq_conflict_iff (s := facts.map SessionFact.userId)
    rw [← huser] at hconf
    have hrow : (summaryRow s).userIdConflict = true ↔ s.2.2 = .conflict := by
      unfold summaryRow
      cases s.2.2 <;> simp
    rw [hrow, hconf]
    constructor
    · rintro ⟨u, v, hu, hv, hne⟩
      obtain ⟨f, hf, hfu⟩ := (hmem u).mp hu
      obtain ⟨g, hg, hgv⟩ := (hmem v).mp hv
      exact ⟨f, hf, g, hg, u, v, hfu, hgv, hne⟩
    · rintro ⟨f, hf, g, hg, u, v, hfu, hgv, hne⟩
      exact ⟨u, v, (hmem u).mpr ⟨f, hf, hfu⟩, (hmem v).mpr ⟨g, hg, hgv⟩, hne⟩

/-- Two users inside one batch, or one in each: the row is in conflict either way. -/
theorem conflict_in_any_batching :
    ∃ row : SessionRow,
      ([[⟨"org", "s", some "a", 2⟩, ⟨"org", "s", some "b", 1⟩], [⟨"org", "s", none, 3⟩]].foldl
        storeSessionBatch Dict.empty).get? ("org", "s") = some row ∧
      ([[⟨"org", "s", none, 3⟩, ⟨"org", "s", some "b", 1⟩], [⟨"org", "s", some "a", 2⟩]].foldl
        storeSessionBatch Dict.empty).get? ("org", "s") = some row ∧
      row.userIdConflict = true := by
  have hfacts : (↑[⟨"org", "s", some "a", 2⟩, ⟨"org", "s", some "b", 1⟩,
      (⟨"org", "s", none, 3⟩ : SessionFact)] : Multiset SessionFact) ≠ 0 := by
    simp
  obtain ⟨row, hrow, -, -, -, hconf⟩ :=
    session_fold_order_and_batching ("org", "s") _ hfacts
  refine ⟨row, hrow _ rfl, hrow _ (Multiset.coe_eq_coe.mpr ?_), hconf.mpr ?_⟩
  · exact List.reverse_perm [⟨"org", "s", some "a", 2⟩, ⟨"org", "s", some "b", 1⟩,
      (⟨"org", "s", none, 3⟩ : SessionFact)]
  · exact ⟨⟨"org", "s", some "a", 2⟩, by simp, ⟨"org", "s", some "b", 1⟩, by simp, "a", "b", rfl,
      rfl, by decide⟩

end Sediment.Proofs.SessionFold
