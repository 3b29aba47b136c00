import Mathlib

namespace Sediment.Base.Argmax

variable {α ρ : Type*} [LinearOrder ρ] (rank : α → ρ)

def keep (held : Option α) (a : α) : Option α :=
  match held with
  | none => some a
  | some h => if rank h < rank a then some a else some h

def best (xs : List α) : Option α := xs.foldl (keep rank) none

variable {rank} {xs ys : List α} {a : α}

theorem best_concat (xs : List α) (a : α) :
    best rank (xs ++ [a]) = keep rank (best rank xs) a := by
  simp [best]

theorem best_eq_none : best rank xs = none ↔ xs = [] := by
  cases xs using List.reverseRecOn with
  | nil => simp [best]
  | append_singleton xs a =>
    rw [best_concat]
    cases best rank xs with
    | none => simp [keep]
    | some h =>
      simp only [keep]
      split <;> simp

/-- What is kept is an element that none outranks. -/
theorem best_spec (h : best rank xs = some a) : a ∈ xs ∧ ∀ b ∈ xs, rank b ≤ rank a := by
  induction xs using List.reverseRecOn generalizing a with
  | nil => cases h
  | append_singleton xs c ih =>
    rw [best_concat] at h
    cases hb : best rank xs with
    | none =>
      rw [hb] at h
      cases h
      rw [best_eq_none.mp hb]
      simp
    | some held =>
      obtain ⟨hmem, hmax⟩ := ih hb
      simp only [hb, keep] at h
      split at h
      · rename_i hlt
        cases h
        refine ⟨by simp, ?_⟩
        intro b hm
        rcases List.mem_append.mp hm with hm | hm
        · exact (hmax b hm).trans hlt.le
        · rw [List.mem_singleton.mp hm]
      · rename_i hlt
        cases h
        refine ⟨List.mem_append_left _ hmem, ?_⟩
        intro b hm
        rcases List.mem_append.mp hm with hm | hm
        · exact hmax b hm
        · rw [List.mem_singleton.mp hm]
          exact not_lt.mp hlt

theorem exists_best (hne : xs ≠ []) : ∃ a, best rank xs = some a :=
  Option.ne_none_iff_exists'.mp (fun h => hne (best_eq_none.mp h))

/-- The order of the elements does not change the rank of the best. -/
theorem rank_best_perm (hp : xs.Perm ys) : (best rank xs).map rank = (best rank ys).map rank := by
  cases hx : best rank xs with
  | none =>
    rw [best_eq_none] at hx
    subst hx
    rw [← hp.nil_eq]
    rfl
  | some a =>
    have hne : ys ≠ [] := by
      intro he
      rw [he] at hp
      rw [hp.eq_nil] at hx
      cases hx
    obtain ⟨b, hy⟩ := @exists_best _ _ _ rank _ hne
    obtain ⟨ha, hamax⟩ := best_spec hx
    obtain ⟨hb, hbmax⟩ := best_spec hy
    rw [hy]
    exact congrArg some (le_antisymm (hbmax a (hp.mem_iff.mp ha)) (hamax b (hp.mem_iff.mpr hb)))

/-- Where ranks tell the elements apart, the best is the same in every order. -/
theorem best_perm (hp : xs.Perm ys) (hinj : ∀ a ∈ xs, ∀ b ∈ xs, rank a = rank b → a = b) :
    best rank xs = best rank ys := by
  have hrank := @rank_best_perm _ _ _ rank _ _ hp
  cases hx : best rank xs with
  | none =>
    rw [hx] at hrank
    exact (Option.map_eq_none_iff.mp hrank.symm).symm
  | some a =>
    rw [hx] at hrank
    obtain ⟨b, hy, hb⟩ := Option.map_eq_some_iff.mp hrank.symm
    rw [hy, hinj a (best_spec hx).1 b (hp.mem_iff.mpr (best_spec hy).1) hb.symm]

end Sediment.Base.Argmax
