import Mathlib

namespace Sediment.Base

/-- A stable ascending sort by key, as Python's `sorted(xs, key=key)`. -/
def sortedBy {α κ : Type*} [LinearOrder κ] (key : α → κ) (xs : List α) : List α :=
  xs.insertionSort (fun a b => key a ≤ key b)

section
variable {α κ : Type*} [LinearOrder κ] {key : α → κ} {xs ys : List α}

instance keyOrder_total (key : α → κ) : Std.Total (fun a b : α => key a ≤ key b) :=
  ⟨fun a b => le_total (key a) (key b)⟩

instance keyOrder_trans (key : α → κ) : IsTrans α (fun a b : α => key a ≤ key b) :=
  ⟨fun _ _ _ hab hbc => le_trans hab hbc⟩

theorem sortedBy_perm (key : α → κ) (xs : List α) : (sortedBy key xs).Perm xs :=
  List.perm_insertionSort _ xs

theorem sortedBy_pairwise (key : α → κ) (xs : List α) :
    (sortedBy key xs).Pairwise (fun a b => key a ≤ key b) :=
  List.pairwise_insertionSort _ xs

@[simp] theorem mem_sortedBy {a : α} : a ∈ sortedBy key xs ↔ a ∈ xs :=
  (sortedBy_perm key xs).mem_iff

@[simp] theorem length_sortedBy : (sortedBy key xs).length = xs.length :=
  (sortedBy_perm key xs).length_eq

@[simp] theorem sortedBy_eq_nil : sortedBy key xs = [] ↔ xs = [] := by
  rw [← List.length_eq_zero_iff, length_sortedBy, List.length_eq_zero_iff]

/-- Two ascending lists with the same elements agree once the key tells elements apart. -/
theorem eq_of_perm_of_pairwise (key : α → κ) (hp : xs.Perm ys)
    (hk : ∀ a ∈ xs, ∀ b ∈ xs, key a = key b → a = b)
    (hx : xs.Pairwise (fun a b => key a ≤ key b))
    (hy : ys.Pairwise (fun a b => key a ≤ key b)) : xs = ys := by
  refine List.Perm.eq_of_pairwise ?_ hx hy hp
  intro a b ha hb hab hba
  exact hk a ha b (hp.mem_iff.mpr hb) (le_antisymm hab hba)

/-- Sorting forgets the input order when equal keys mean equal elements. -/
theorem sortedBy_congr (hp : xs.Perm ys)
    (hk : ∀ a ∈ xs, ∀ b ∈ xs, key a = key b → a = b) :
    sortedBy key xs = sortedBy key ys := by
  refine eq_of_perm_of_pairwise key ?_ ?_ (sortedBy_pairwise _ _) (sortedBy_pairwise _ _)
  · exact (sortedBy_perm key xs).trans (hp.trans (sortedBy_perm key ys).symm)
  · intro a ha b hb
    exact hk a (mem_sortedBy.mp ha) b (mem_sortedBy.mp hb)

/-- A filter may run before or after a sort. -/
theorem filter_sortedBy (p : α → Bool) (hk : ∀ a ∈ xs, ∀ b ∈ xs, key a = key b → a = b) :
    (sortedBy key xs).filter p = sortedBy key (xs.filter p) := by
  refine eq_of_perm_of_pairwise key ?_ ?_ ?_ (sortedBy_pairwise _ _)
  · exact ((sortedBy_perm key xs).filter p).trans (sortedBy_perm key _).symm
  · intro a ha b hb
    exact hk a (mem_sortedBy.mp (List.mem_of_mem_filter ha)) b
      (mem_sortedBy.mp (List.mem_of_mem_filter hb))
  · exact (sortedBy_pairwise key xs).sublist List.filter_sublist

theorem sortedBy_map {β : Type*} (f : β → α) (zs : List β) :
    sortedBy key (zs.map f) = (sortedBy (fun z => key (f z)) zs).map f := by
  induction zs with
  | nil => rfl
  | cons z zs ih =>
    simp only [sortedBy, List.map_cons, List.insertionSort_cons] at ih ⊢
    rw [ih]
    generalize List.insertionSort (fun a b => key (f a) ≤ key (f b)) zs = rest
    induction rest with
    | nil => rfl
    | cons w rest ihw =>
      simp only [List.map_cons, List.orderedInsert_cons]
      split
      · simp
      · simp [ihw]

end

/-- The elements of a set as an ascending tuple, as Python's `tuple(sorted(s))`. -/
def sortedSet {α : Type*} [LinearOrder α] (s : Finset α) : List α :=
  Quot.liftOn s.val (fun xs => sortedBy id xs)
    (fun _ _ hp => sortedBy_congr hp (fun _ _ _ _ h => h))

section
variable {α : Type*} [LinearOrder α] {s t : Finset α} {a : α}

@[simp] theorem mem_sortedSet : a ∈ sortedSet s ↔ a ∈ s := by
  obtain ⟨⟨xs⟩, hs⟩ := s
  exact mem_sortedBy

end

def onlyElement {α : Type*} : List α → Option α
  | [a] => some a
  | _ => none

/-- The member of a one-element set, as Python's `next(iter(s))` finds it. -/
def onlyMember {α : Type*} (s : Finset α) : Option α :=
  Quot.liftOn s.val onlyElement (by
    intro xs ys hp
    match xs, ys, hp.length_eq with
    | [], [], _ => rfl
    | [a], [b], _ => exact congrArg some (List.singleton_perm_singleton.mp hp)
    | _ :: _ :: _, _ :: _ :: _, _ => rfl)

theorem onlyElement_eq_some {α : Type*} {xs : List α} {a : α} :
    onlyElement xs = some a ↔ xs = [a] := by
  cases xs with
  | nil => simp [onlyElement]
  | cons b rest => cases rest <;> simp [onlyElement]

theorem onlyMember_eq_some {α : Type*} {s : Finset α} {a : α} :
    onlyMember s = some a ↔ s = {a} := by
  obtain ⟨⟨xs⟩, hs⟩ := s
  change onlyElement xs = some a ↔ _
  rw [onlyElement_eq_some, ← Finset.val_inj]
  exact Multiset.coe_eq_singleton.symm

end Sediment.Base
