import Mathlib

namespace Sediment.Base

variable {α κ : Type*} [DecidableEq κ] (key : α → κ)

def addNew (out : List α) (x : α) : List α :=
  if key x ∈ out.map key then out else out ++ [x]

def firstWins : List α → List α
  | [] => []
  | x :: xs => x :: (firstWins xs).filter (fun y => decide (key y ≠ key x))

variable {key} {xs ys out : List α} {x y : α}

theorem firstWins_sublist (xs : List α) : (firstWins key xs).Sublist xs := by
  induction xs with
  | nil => exact List.Sublist.slnil
  | cons x xs ih => exact (List.filter_sublist.trans ih).cons_cons x

theorem mem_keys_firstWins (xs : List α) {k : κ} :
    k ∈ (firstWins key xs).map key ↔ k ∈ xs.map key := by
  induction xs with
  | nil => rfl
  | cons x xs ih =>
    simp only [firstWins, List.map_cons, List.mem_cons, ← ih]
    by_cases hk : k = key x
    · simp [hk]
    · simp only [hk, false_or, List.mem_map, List.mem_filter, decide_eq_true_eq]
      constructor
      · rintro ⟨y, ⟨hy, -⟩, rfl⟩
        exact ⟨y, hy, rfl⟩
      · rintro ⟨y, hy, rfl⟩
        exact ⟨y, ⟨hy, hk⟩, rfl⟩

theorem find?_of_mem_firstWins (h : y ∈ firstWins key xs) :
    xs.find? (fun x => key x = key y) = some y := by
  induction xs with
  | nil => exact absurd h List.not_mem_nil
  | cons x xs ih =>
    rw [firstWins, List.mem_cons, List.mem_filter, decide_eq_true_eq] at h
    rcases h with rfl | ⟨hy, hne⟩
    · rw [List.find?_cons_of_pos (by simp)]
    · rw [List.find?_cons_of_neg (by simpa using Ne.symm hne)]
      exact ih hy

theorem find?_of_nodup (hnodup : (xs.map key).Nodup) (h : y ∈ xs) :
    xs.find? (fun x => key x = key y) = some y := by
  induction xs with
  | nil => exact absurd h List.not_mem_nil
  | cons x xs ih =>
    obtain ⟨hx, hnodup⟩ := List.nodup_cons.mp hnodup
    obtain rfl | h := List.mem_cons.mp h
    · rw [List.find?_cons_of_pos (by simp)]
    · have hne : key x ≠ key y := fun heq => hx (heq ▸ List.mem_map_of_mem h)
      rw [List.find?_cons_of_neg (by simpa using hne)]
      exact ih hnodup h

theorem nodup_firstWins (xs : List α) : ((firstWins key xs).map key).Nodup := by
  induction xs with
  | nil => exact List.nodup_nil
  | cons x xs ih =>
    simp only [firstWins, List.map_cons, List.nodup_cons]
    constructor
    · simp
    · exact ih.sublist (List.filter_sublist.map key)

/-- Adding one by one is the union behind what is there already. -/
theorem foldl_addNew (xs out : List α) :
    xs.foldl (addNew key) out =
      out ++ (firstWins key xs).filter (fun y => decide (key y ∉ out.map key)) := by
  induction xs generalizing out with
  | nil => simp [firstWins]
  | cons x xs ih =>
    rw [List.foldl_cons, ih, firstWins, List.filter_cons, List.filter_filter]
    by_cases hx : key x ∈ out.map key
    · have hsame : (firstWins key xs).filter (fun y => decide (key y ∉ out.map key)) =
          (firstWins key xs).filter (fun y =>
            decide (key y ∉ out.map key) && decide (key y ≠ key x)) := by
        refine List.filter_congr (fun y _ => ?_)
        by_cases hy : key y = key x
        · simp [hy, hx]
        · simp [hy]
      rw [addNew, if_pos hx, hsame]
      simp [hx]
    · have hmore : (firstWins key xs).filter (fun y => decide (key y ∉ (out ++ [x]).map key)) =
          (firstWins key xs).filter (fun y =>
            decide (key y ∉ out.map key) && decide (key y ≠ key x)) := by
        refine List.filter_congr (fun y _ => ?_)
        simp [not_or]
      rw [addNew, if_neg hx, hmore]
      simp [hx]

theorem foldl_addNew_nil (xs : List α) : xs.foldl (addNew key) [] = firstWins key xs := by
  simp [foldl_addNew]

theorem firstWins_append_singleton (xs : List α) (x : α) :
    firstWins key (xs ++ [x]) = addNew key (firstWins key xs) x := by
  rw [← foldl_addNew_nil, List.foldl_append, foldl_addNew_nil]
  rfl

theorem firstWins_of_nodup (h : (xs.map key).Nodup) : firstWins key xs = xs := by
  induction xs with
  | nil => rfl
  | cons x xs ih =>
    rw [List.map_cons, List.nodup_cons] at h
    rw [firstWins, ih h.2, List.filter_eq_self.mpr]
    intro y hy
    simp only [ne_eq, decide_eq_true_eq]
    intro he
    exact h.1 (he ▸ List.mem_map_of_mem hy)

theorem firstWins_firstWins (xs : List α) :
    firstWins key (firstWins key xs) = firstWins key xs :=
  firstWins_of_nodup (nodup_firstWins xs)

/-- A part may be replaced by its own union. -/
theorem firstWins_append (xs ys : List α) :
    firstWins key (firstWins key xs ++ firstWins key ys) = firstWins key (xs ++ ys) := by
  rw [← foldl_addNew_nil, ← foldl_addNew_nil (xs ++ ys), List.foldl_append, List.foldl_append,
    foldl_addNew_nil, foldl_addNew_nil, firstWins_firstWins, foldl_addNew, foldl_addNew,
    firstWins_firstWins]

theorem firstWins_append_left (xs ys : List α) :
    firstWins key (firstWins key xs ++ ys) = firstWins key (xs ++ ys) := by
  rw [← firstWins_append, firstWins_firstWins, firstWins_append]

end Sediment.Base
