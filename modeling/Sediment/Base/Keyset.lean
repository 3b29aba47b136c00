import Mathlib.Data.List.Basic
import Mathlib.Tactic

namespace Sediment.Base.Keyset

structure Page (α κ : Type) where
  rows : List α
  next : Option κ

section
variable {α κ ε : Type}

/-- The requests of a client that follows `next`, at most `n` of them; whether it came to
the end. The `i`-th request may ask for a size of its own. -/
def walk (page : Nat → Option κ → Except ε (Page α κ)) :
    Nat → Nat → Option κ → Except ε (List α × Bool)
  | 0, _, _ => .ok ([], false)
  | n + 1, i, cursor => do
    let answer ← page i cursor
    match answer.next with
    | none => .ok (answer.rows, true)
    | some next => do
      let (rows, ended) ← walk page n (i + 1) (some next)
      .ok (answer.rows ++ rows, ended)

/-- A page takes rows off the front of what is left, and a cursor stands for the rest. -/
def Serves (page : Nat → Option κ → Except ε (Page α κ))
    (left : Option κ → List α → Prop) : Prop :=
  ∀ i cursor rest, left cursor rest → ∃ answer, page i cursor = .ok answer ∧
    match answer.next with
    | none => answer.rows = rest
    | some next => answer.rows ≠ [] ∧ ∃ rest', rest = answer.rows ++ rest' ∧ left (some next) rest'

/-- The client meets every row that is left, once and in order, and then the end. -/
theorem walk_complete {page : Nat → Option κ → Except ε (Page α κ)}
    {left : Option κ → List α → Prop} (h : Serves page left) :
    ∀ n i cursor rest, left cursor rest → rest.length < n →
      walk page n i cursor = .ok (rest, true) := by
  intro n
  induction n with
  | zero => intro i cursor rest _ hlt; omega
  | succ n ih =>
    intro i cursor rest hleft hlt
    obtain ⟨answer, hanswer, hnext⟩ := h i cursor rest hleft
    rw [walk, hanswer]
    simp only [bind, Except.bind]
    cases hcase : answer.next with
    | none =>
      rw [hcase] at hnext
      rw [hnext]
    | some next =>
      rw [hcase] at hnext
      obtain ⟨hne, rest', hrest, hleft'⟩ := hnext
      have hpos := List.length_pos_iff.mpr hne
      have hlen : rest'.length < n := by
        rw [hrest, List.length_append] at hlt
        omega
      simp only [ih (i + 1) (some next) rest' hleft' hlen]
      rw [hrest]

/-- Behind the last row of a front part comes the rest of the list. -/
theorem filter_behind {before : α → α → Bool} {front rest : List α} {last : α}
    (h : (front ++ last :: rest).Pairwise (fun a b => before a b = true))
    (hasymm : ∀ a b, before a b = true → before b a = false) :
    (front ++ last :: rest).filter (before last) = rest := by
  rw [List.pairwise_append, List.pairwise_cons] at h
  obtain ⟨-, ⟨hrest, -⟩, hfront⟩ := h
  rw [List.filter_append, List.filter_cons]
  have hirrefl : before last last = false := by
    by_contra hne
    have htrue : before last last = true := by simpa using hne
    exact absurd htrue (by rw [hasymm _ _ htrue]; decide)
  have hnone : front.filter (before last) = [] := by
    rw [List.filter_eq_nil_iff]
    intro a ha
    rw [hasymm _ _ (hfront a ha last (by simp))]
    decide
  have hall : rest.filter (before last) = rest :=
    List.filter_eq_self.mpr (fun b hb => hrest b hb)
  rw [hnone, hirrefl, hall]
  rfl

/-- Where a reader of ordered rows stands: at the start, or behind the row its cursor names. -/
def Left (rows : List α) (key : α → κ) (cursor : Option κ) (rest : List α) : Prop :=
  (cursor = none ∧ rest = rows) ∨ ∃ front last, rows = front ++ last :: rest ∧
    cursor = some (key last)

/-- Pages that take the front of what is left, and name their last row, serve the rows. -/
theorem serves_take (rows : List α) {key : α → κ} {size : Nat} (hsize : 1 ≤ size)
    {page : Nat → Option κ → Except ε (Page α κ)}
    (hpage : ∀ i cursor rest, Left rows key cursor rest →
      page i cursor = .ok ⟨rest.take size, (rest.take size).getLast?.map key⟩) :
    Serves page (Left rows key) := by
  intro i cursor rest hleft
  refine ⟨_, hpage i cursor rest hleft, ?_⟩
  cases rest with
  | nil => simp
  | cons first rest =>
    have hne : (first :: rest).take size ≠ [] := by
      intro hnil
      have hlen := congrArg List.length hnil
      rw [List.length_take, List.length_cons, List.length_nil] at hlen
      omega
    have hsplit : first :: rest = ((first :: rest).take size).dropLast ++
        ((first :: rest).take size).getLast hne :: (first :: rest).drop size := by
      calc first :: rest = (first :: rest).take size ++ (first :: rest).drop size :=
            (List.take_append_drop size _).symm
        _ = ((first :: rest).take size).dropLast ++ [((first :: rest).take size).getLast hne] ++
              (first :: rest).drop size := by rw [List.dropLast_append_getLast hne]
        _ = _ := by rw [List.append_assoc, List.singleton_append]
    rw [List.getLast?_eq_some_getLast hne]
    refine ⟨hne, (first :: rest).drop size, (List.take_append_drop size _).symm, Or.inr ?_⟩
    obtain ⟨-, hrows⟩ | ⟨front, last, hrows, -⟩ := hleft
    · exact ⟨_, _, hrows.symm.trans hsplit, rfl⟩
    · refine ⟨front ++ last :: ((first :: rest).take size).dropLast, _, ?_, rfl⟩
      rw [hrows, List.append_assoc, List.cons_append, ← hsplit]

end

end Sediment.Base.Keyset
