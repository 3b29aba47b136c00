import Sediment.Base.Dict
import Sediment.Base.Results

namespace Sediment.Base

section
variable {ι α ε : Type}

/-- The facts of every record, each with its record's position, from `n` on. -/
def emitFrom (emit : ι → Except ε (List α)) : Nat → List ι → Except ε (List (Nat × α))
  | _, [] => .ok []
  | n, r :: rest => do
    let facts ← emit r
    let out ← emitFrom emit (n + 1) rest
    .ok (facts.map (fun f => (n, f)) ++ out)

/-- What stands at one position. -/
def factsAt (n : Nat) (out : List (Nat × α)) : List α := (out.filter (·.1 == n)).map Prod.snd

theorem mem_factsAt {n : Nat} {out : List (Nat × α)} {f : α} :
    f ∈ factsAt n out ↔ (n, f) ∈ out := by
  simp only [factsAt, List.mem_map, List.mem_filter, beq_iff_eq]
  constructor
  · intro h
    obtain ⟨⟨m, g⟩, ⟨hmem, rfl⟩, rfl⟩ := h
    exact hmem
  · intro h
    exact ⟨(n, f), ⟨h, rfl⟩, rfl⟩

theorem factsAt_append (n : Nat) (xs ys : List (Nat × α)) :
    factsAt n (xs ++ ys) = factsAt n xs ++ factsAt n ys := by
  simp [factsAt]

theorem factsAt_map_self (n : Nat) (facts : List α) :
    factsAt n (facts.map (fun f => (n, f))) = facts := by
  simp [factsAt, List.filter_map, Function.comp_def]

theorem factsAt_eq_nil {n : Nat} {out : List (Nat × α)} (h : ∀ p ∈ out, p.1 ≠ n) :
    factsAt n out = [] := by
  simp only [factsAt, List.map_eq_nil_iff, List.filter_eq_nil_iff, beq_iff_eq]
  exact h

variable {emit : ι → Except ε (List α)}

theorem emitFrom_cons {n : Nat} {r : ι} {rest : List ι} {out : List (Nat × α)} :
    emitFrom emit n (r :: rest) = .ok out ↔ ∃ facts tail, emit r = .ok facts ∧
      emitFrom emit (n + 1) rest = .ok tail ∧ out = facts.map (fun f => (n, f)) ++ tail := by
  simp only [emitFrom, bind_ok, Except.ok.injEq]
  constructor
  · intro h
    obtain ⟨facts, hfacts, tail, htail, rfl⟩ := h
    exact ⟨facts, tail, hfacts, htail, rfl⟩
  · intro h
    obtain ⟨facts, tail, hfacts, htail, rfl⟩ := h
    exact ⟨facts, hfacts, tail, htail, rfl⟩

theorem emitFrom_range {n : Nat} {records : List ι} {out : List (Nat × α)}
    (h : emitFrom emit n records = .ok out) : ∀ p ∈ out, n ≤ p.1 ∧ p.1 < n + records.length := by
  induction records generalizing n out with
  | nil =>
    cases h
    intro p hp
    cases hp
  | cons r rest ih =>
    obtain ⟨facts, tail, -, htail, rfl⟩ := emitFrom_cons.mp h
    intro p hp
    rcases List.mem_append.mp hp with hp | hp
    · obtain ⟨f, -, rfl⟩ := List.mem_map.mp hp
      simp
    · obtain ⟨hlow, hhigh⟩ := ih htail p hp
      simp only [List.length_cons]
      omega

/-- At a record's position stand the facts that the record emits. -/
theorem factsAt_emitFrom {n i : Nat} {records : List ι} {out : List (Nat × α)} {r : ι}
    (h : emitFrom emit n records = .ok out) (hr : records[i]? = some r) :
    emit r = .ok (factsAt (n + i) out) := by
  induction records generalizing n i out with
  | nil => cases hr
  | cons r' rest ih =>
    obtain ⟨facts, tail, hfacts, htail, rfl⟩ := emitFrom_cons.mp h
    have hrange := emitFrom_range htail
    cases i with
    | zero =>
      obtain rfl := Option.some.inj hr
      have hnone : factsAt n tail = [] := by
        apply factsAt_eq_nil
        intro p hp
        have := (hrange p hp).1
        omega
      rw [Nat.add_zero, factsAt_append, factsAt_map_self, hnone, List.append_nil, hfacts]
    | succ i =>
      have hnone : factsAt (n + (i + 1)) (facts.map (fun f => (n, f))) = [] := by
        apply factsAt_eq_nil
        intro p hp
        obtain ⟨f, -, rfl⟩ := List.mem_map.mp hp
        simp
      have hi := ih htail hr
      rw [factsAt_append, hnone, List.nil_append, hi]
      congr 2
      omega

/-- A batch fails exactly where one of its records fails. -/
theorem emitFrom_ok_iff {n : Nat} {records : List ι} :
    (∃ out, emitFrom emit n records = .ok out) ↔ ∀ r ∈ records, ∃ facts, emit r = .ok facts := by
  induction records generalizing n with
  | nil => simp [emitFrom]
  | cons r rest ih =>
    simp only [emitFrom_cons, List.forall_mem_cons, ← ih (n := n + 1)]
    constructor
    · intro h
      obtain ⟨out, facts, tail, hfacts, htail, -⟩ := h
      exact ⟨⟨facts, hfacts⟩, tail, htail⟩
    · intro h
      obtain ⟨⟨facts, hfacts⟩, tail, htail⟩ := h
      exact ⟨_, facts, tail, hfacts, htail, rfl⟩

end

section
variable {σ ι : Type} (record : σ → Option ι)

/-- The position among the records of what stands in a slot. -/
def positionOf (entries : List σ) (slot : Nat) : Nat :=
  ((entries.take slot).filterMap record).length

theorem records_at {entries : List σ} {slot : Nat} {e : σ} {r : ι}
    (he : entries[slot]? = some e) (hr : record e = some r) :
    (entries.filterMap record)[positionOf record entries slot]? = some r := by
  obtain ⟨hlt, rfl⟩ := List.getElem?_eq_some_iff.mp he
  have hsplit : entries = entries.take slot ++ entries[slot] :: entries.drop (slot + 1) := by
    rw [List.getElem_cons_drop, List.take_append_drop]
  rw [positionOf]
  conv_lhs => rw [hsplit]
  rw [List.filterMap_append, List.filterMap_cons_some hr,
    List.getElem?_append_right (by rw [← hsplit]), ← hsplit]
  simp

end

section
variable {α β : Type}

theorem modify_append_left {h : β → β} {xs : List β} (ys : List β) {slot : Nat}
    (hlt : slot < xs.length) : (xs ++ ys).modify slot h = xs.modify slot h ++ ys := by
  induction xs generalizing slot with
  | nil => exact absurd hlt (Nat.not_lt_zero _)
  | cons x xs ih =>
    cases slot with
    | zero => rfl
    | succ slot =>
      rw [List.cons_append, List.modify_succ_cons, List.modify_succ_cons, List.cons_append,
        ih (Nat.lt_of_succ_lt_succ hlt)]

theorem modify_append_right {h : β → β} (xs ys : List β) (slot : Nat) :
    (xs ++ ys).modify (xs.length + slot) h = xs ++ ys.modify slot h := by
  induction xs with
  | nil => rw [List.length_nil, Nat.zero_add, List.nil_append, List.nil_append]
  | cons x xs ih =>
    rw [List.cons_append, List.length_cons, Nat.succ_add, List.modify_succ_cons, ih,
      List.cons_append]

/-- A change that a measure does not see. -/
theorem map_modify {f : α → α} {c : α → β} (h : ∀ x, c (f x) = c x) (xs : List α) (i : Nat) :
    (xs.modify i f).map c = xs.map c := by
  induction xs generalizing i with
  | nil => simp
  | cons x rest ih =>
    cases i with
    | zero => rw [List.modify_zero_cons, List.map_cons, List.map_cons, h]
    | succ i => rw [List.modify_succ_cons, List.map_cons, List.map_cons, ih]

/-- What changes one item in one slot changes the concatenation in one slot. -/
theorem flatMap_modify {g : α → List β} {f : α → α} {h : β → β}
    (hg : ∀ x, ∃ slot, g (f x) = (g x).modify slot h) (xs : List α) (i : Nat) :
    ∃ slot, (xs.modify i f).flatMap g = (xs.flatMap g).modify slot h := by
  induction xs generalizing i with
  | nil => exact ⟨0, by simp⟩
  | cons x rest ih =>
    cases i with
    | zero =>
      obtain ⟨slot, hslot⟩ := hg x
      by_cases hlt : slot < (g x).length
      · refine ⟨slot, ?_⟩
        rw [List.modify_zero_cons, List.flatMap_cons, List.flatMap_cons, hslot,
          modify_append_left _ hlt]
      · refine ⟨(g x ++ rest.flatMap g).length, ?_⟩
        rw [List.modify_zero_cons, List.flatMap_cons, List.flatMap_cons, hslot,
          List.modify_eq_self (Nat.le_of_not_lt hlt), List.modify_eq_self (Nat.le_refl _)]
    | succ i =>
      obtain ⟨slot, hslot⟩ := ih i
      refine ⟨(g x).length + slot, ?_⟩
      rw [List.modify_succ_cons, List.flatMap_cons, List.flatMap_cons, hslot,
        modify_append_right]

end

section
variable {α : Type} (p : α → Bool)

def lastAt : List α → Option Nat
  | [] => none
  | x :: xs =>
    match lastAt xs with
    | some i => some (i + 1)
    | none => if p x then some 0 else none

theorem lastAt_eq_none {xs : List α} : lastAt p xs = none ↔ ∀ x ∈ xs, p x = false := by
  induction xs with
  | nil => simp [lastAt]
  | cons x xs ih =>
    cases h : lastAt p xs with
    | none =>
      have hall := ih.mp h
      simp only [lastAt, h, List.forall_mem_cons]
      cases p x
      · simpa using hall
      · simp
    | some i =>
      have hnot : ¬ ∀ x ∈ xs, p x = false := fun hall => by simp [ih.mpr hall] at h
      simp only [lastAt, h, reduceCtorEq, List.forall_mem_cons, false_iff]
      exact fun hall => hnot hall.2

theorem lastAt_eq_some {xs : List α} {i : Nat} : lastAt p xs = some i ↔
    (∃ x, xs[i]? = some x ∧ p x = true) ∧ ∀ j x, i < j → xs[j]? = some x → p x = false := by
  induction xs generalizing i with
  | nil => simp [lastAt]
  | cons y ys ih =>
    cases h : lastAt p ys with
    | none =>
      have hall := (lastAt_eq_none p).mp h
      have htail : ∀ j x, ys[j]? = some x → p x = false := fun j x hx =>
        hall x (List.mem_of_getElem? hx)
      simp only [lastAt, h]
      constructor
      · intro hi
        split at hi
        · rename_i hy
          cases hi
          refine ⟨⟨y, rfl, hy⟩, ?_⟩
          intro j x hj hx
          obtain ⟨k, rfl⟩ := Nat.exists_eq_succ_of_ne_zero (Nat.ne_of_gt hj)
          exact htail k x hx
        · cases hi
      · intro hi
        obtain ⟨⟨x, hx, hp⟩, -⟩ := hi
        cases i with
        | zero =>
          obtain rfl := Option.some.inj hx
          rw [if_pos hp]
        | succ i => exact absurd hp (by rw [htail i x hx]; simp)
    | some k =>
      obtain ⟨⟨z, hz, hpz⟩, hafter⟩ := ih.mp h
      simp only [lastAt, h, Option.some.injEq]
      constructor
      · intro hi
        subst hi
        refine ⟨⟨z, hz, hpz⟩, ?_⟩
        intro j x hj hx
        obtain ⟨j, rfl⟩ := Nat.exists_eq_succ_of_ne_zero
          (Nat.ne_of_gt (Nat.lt_of_le_of_lt (Nat.zero_le _) hj))
        exact hafter j x (Nat.lt_of_succ_lt_succ hj) hx
      · intro hi
        obtain ⟨⟨x, hx, hp⟩, hlast⟩ := hi
        cases i with
        | zero => exact absurd hpz (by rw [hlast (k + 1) z (Nat.succ_pos k) hz]; simp)
        | succ i =>
          have hi : lastAt p ys = some i :=
            ih.mpr ⟨⟨x, hx, hp⟩, fun j x hj hx => hlast (j + 1) x (Nat.succ_lt_succ hj) hx⟩
          rw [h] at hi
          rw [Option.some.inj hi]

theorem lastAt_ge {xs : List α} {i : Nat} {x : α} (hx : xs[i]? = some x) (hp : p x = true) :
    ∃ k, i ≤ k ∧ lastAt p xs = some k := by
  cases h : lastAt p xs with
  | none =>
    have hfalse := (lastAt_eq_none p).mp h x (List.mem_of_getElem? hx)
    rw [hp] at hfalse
    cases hfalse
  | some k =>
    refine ⟨k, ?_, rfl⟩
    by_contra hlt
    have hfalse := ((lastAt_eq_some p).mp h).2 i x (Nat.lt_of_not_le hlt) hx
    rw [hp] at hfalse
    cases hfalse

/-- Two lists that agree outside a slot have the same last entry, unless it is in that slot. -/
theorem lastAt_congr {xs ys : List α} {slot : Nat} (h : ∀ i, i ≠ slot → xs[i]? = ys[i]?)
    (hx : lastAt p xs ≠ some slot) (hy : lastAt p ys ≠ some slot) :
    lastAt p xs = lastAt p ys := by
  have hle : ∀ {as bs : List α} {i : Nat}, (∀ i, i ≠ slot → as[i]? = bs[i]?) →
      lastAt p as ≠ some slot → lastAt p as = some i → ∃ k, i ≤ k ∧ lastAt p bs = some k := by
    intro as bs i hab has hi
    obtain ⟨⟨a, ha, hp⟩, -⟩ := (lastAt_eq_some p).mp hi
    have hne : i ≠ slot := by
      intro he
      exact has (he ▸ hi)
    exact lastAt_ge p ((hab i hne).symm.trans ha) hp
  have hsymm : ∀ i, i ≠ slot → ys[i]? = xs[i]? := fun i hi => (h i hi).symm
  cases hxs : lastAt p xs with
  | none =>
    cases hys : lastAt p ys with
    | none => rfl
    | some k =>
      obtain ⟨j, -, hj⟩ := hle hsymm hy hys
      rw [hxs] at hj
      cases hj
  | some i =>
    obtain ⟨k, hik, hk⟩ := hle h hx hxs
    obtain ⟨j, hkj, hj⟩ := hle hsymm hy hk
    rw [hxs] at hj
    cases hj
    rw [hk, Nat.le_antisymm hik hkj]

theorem lastAt_concat (xs : List α) (x : α) :
    lastAt p (xs ++ [x]) = if p x then some xs.length else lastAt p xs := by
  induction xs with
  | nil => simp [lastAt]
  | cons y ys ih =>
    simp only [List.cons_append, lastAt, ih, List.length_cons]
    cases p x <;> rfl

def lastWith (xs : List α) : Option α := (lastAt p xs).bind (xs[·]?)

theorem lastWith_concat (xs : List α) (x : α) :
    lastWith p (xs ++ [x]) = if p x then some x else lastWith p xs := by
  unfold lastWith
  rw [lastAt_concat]
  cases hp : p x with
  | true => simp
  | false =>
    cases h : lastAt p xs with
    | none => rfl
    | some i =>
      obtain ⟨⟨y, hy, -⟩, -⟩ := (lastAt_eq_some p).mp h
      have hlt := (List.getElem?_eq_some_iff.mp hy).1
      simp [List.getElem?_append_left hlt]

end

section
variable {ι κ β : Type} [DecidableEq κ]

/-- Records with a key overwrite what the table holds under it. -/
def tableOf (pair : ι → Option (κ × β)) (records : List ι) : Dict κ β :=
  (records.filterMap pair).foldl (fun d p => d.set p.1 p.2) Dict.empty

theorem tableOf_concat (pair : ι → Option (κ × β)) (records : List ι) (r : ι) :
    tableOf pair (records ++ [r]) =
      match pair r with
      | some p => (tableOf pair records).set p.1 p.2
      | none => tableOf pair records := by
  unfold tableOf
  cases h : pair r with
  | none => simp [h]
  | some p => simp [h]

/-- The last record with a key is the one whose value the table holds. -/
theorem get?_tableOf (pair : ι → Option (κ × β)) (records : List ι) (key : κ) :
    (tableOf pair records).get? key =
      (lastWith (fun r => (pair r).any (fun p => decide (p.1 = key))) records).bind
        (fun r => (pair r).map Prod.snd) := by
  induction records using List.reverseRecOn with
  | nil => rfl
  | append_singleton records r ih =>
    rw [tableOf_concat, lastWith_concat]
    cases h : pair r with
    | none => simpa using ih
    | some p =>
      simp only [Option.any_some, decide_eq_true_eq, Dict.get?_set]
      by_cases hk : p.1 = key
      · simp [hk, h]
      · rw [if_neg (Ne.symm hk), if_neg hk, ih]

end

end Sediment.Base
