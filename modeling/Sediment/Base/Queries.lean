import Mathlib

namespace Sediment.Base

/-- The database's comparison of text. -/
class Collation where
  le : String → String → Bool

/-- A deterministic collation is a linear order of the texts. -/
structure Collation.Lawful [Collation] : Prop where
  total : ∀ a b, Collation.le a b = true ∨ Collation.le b a = true
  trans : ∀ a b c, Collation.le a b = true → Collation.le b c = true → Collation.le a c = true
  antisymm : ∀ a b, Collation.le a b = true → Collation.le b a = true → a = b

section
variable {α σ : Type*} [DecidableEq σ]

def orderBy (le : α → α → Bool) (rows : List α) : List α :=
  rows.insertionSort (fun a b => le a b = true)

/-- `DISTINCT ON (state)` over rows already in order: the first row of each state. -/
def distinctOn (state : α → σ) : List α → List α
  | [] => []
  | row :: rest => row :: (distinctOn state rest).filter (fun other => state other ≠ state row)

@[simp] theorem mem_orderBy {le : α → α → Bool} {rows : List α} {a : α} :
    a ∈ orderBy le rows ↔ a ∈ rows :=
  (List.perm_insertionSort _ rows).mem_iff

theorem distinctOn_subset (state : α → σ) (rows : List α) :
    ∀ a ∈ distinctOn state rows, a ∈ rows := by
  induction rows with
  | nil => simp [distinctOn]
  | cons row rest ih =>
    intro a ha
    rcases List.mem_cons.mp ha with rfl | ha
    · simp
    · exact List.mem_cons_of_mem _ (ih a (List.mem_of_mem_filter ha))

theorem exists_distinctOn (state : α → σ) (rows : List α) :
    ∀ a ∈ rows, ∃ b ∈ distinctOn state rows, state b = state a := by
  induction rows with
  | nil => simp
  | cons row rest ih =>
    intro a ha
    by_cases hs : state row = state a
    · exact ⟨row, by simp [distinctOn], hs⟩
    · rcases List.mem_cons.mp ha with rfl | ha
      · exact absurd rfl hs
      · obtain ⟨b, hb, hba⟩ := ih a ha
        refine ⟨b, List.mem_cons_of_mem _ (List.mem_filter.mpr ⟨hb, ?_⟩), hba⟩
        simpa [hba] using Ne.symm hs

theorem distinctOn_sublist (state : α → σ) (rows : List α) :
    (distinctOn state rows).Sublist rows := by
  induction rows with
  | nil => exact List.Sublist.refl _
  | cons row rest ih => exact (List.filter_sublist.trans ih).cons_cons row

/-- What makes `ORDER BY` strict over rows that are told apart. -/
structure StrictOrder (le before : α → α → Bool) (apart : α → α → Prop) : Prop where
  total : ∀ a b, le a b = true ∨ le b a = true
  trans : ∀ a b c, le a b = true → le b c = true → le a c = true
  asymm : ∀ a b, before a b = true → before b a = false
  strict : ∀ a b, le a b = true → apart a b → before a b = true
  symm : ∀ a b, apart a b → apart b a

theorem orderBy_strict {le before : α → α → Bool} {apart : α → α → Prop}
    (h : StrictOrder le before apart) {rows : List α} (hrows : rows.Pairwise apart) :
    (orderBy le rows).Pairwise (fun a b => before a b = true) := by
  have : Std.Total (fun a b : α => le a b = true) := ⟨h.total⟩
  have : IsTrans α (fun a b => le a b = true) := ⟨h.trans⟩
  have hsorted := List.pairwise_insertionSort (fun a b => le a b = true) rows
  have hperm := List.perm_insertionSort (fun a b => le a b = true) rows
  have hapart := (hperm.pairwise_iff (fun hab => h.symm _ _ hab)).mpr hrows
  exact (hsorted.and hapart).imp (fun hab => h.strict _ _ hab.1 hab.2)

/-- What a condition keeps is ordered alike before and after. -/
theorem orderBy_filter_strict {le before : α → α → Bool} {apart : α → α → Prop}
    (h : StrictOrder le before apart) {rows : List α} (hrows : rows.Pairwise apart)
    (p : α → Bool) : orderBy le (rows.filter p) = (orderBy le rows).filter p := by
  have hleft := orderBy_strict h (hrows.sublist (List.filter_sublist (p := p)))
  have hright := (orderBy_strict h hrows).sublist (List.filter_sublist (p := p))
  have hperm : (orderBy le (rows.filter p)).Perm ((orderBy le rows).filter p) :=
    (List.perm_insertionSort _ _).trans ((List.perm_insertionSort _ _).symm.filter p)
  refine hperm.eq_of_pairwise ?_ hleft hright
  intro a b _ _ hab hba
  rw [h.asymm a b hab] at hba
  cases hba

end

end Sediment.Base
