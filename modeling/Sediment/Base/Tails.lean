import Mathlib.Algebra.BigOperators.Group.Finset.Basic
import Mathlib.Algebra.Order.BigOperators.Group.Finset
import Mathlib.Tactic

namespace Sediment.Base.Tails
open Finset

section
variable {α κ M : Type*} [LinearOrder κ] [AddCommMonoid M]

/-- What the elements not before `x` weigh together. -/
def tailSum (s : Finset α) (key : α → κ) (w : α → M) (x : α) : M :=
  ∑ y ∈ s with key x ≤ key y, w y

/-- In a strictly sorted list the elements not before one are those listed from it on. -/
theorem tailSum_of_sorted [DecidableEq α] {key : α → κ} {w : α → M} {front rest : List α} {x : α}
    (h : (front ++ x :: rest).Pairwise (fun a b => key a < key b)) :
    tailSum (front ++ x :: rest).toFinset key w x = ((x :: rest).map w).sum := by
  have hnodup : (x :: rest).Nodup :=
    (h.sublist (List.sublist_append_right front _)).imp (fun hlt => ne_of_apply_ne key hlt.ne)
  have hsame : (front ++ x :: rest).toFinset.filter (fun y => key x ≤ key y) =
      (x :: rest).toFinset := by
    obtain ⟨-, hrest, hcross⟩ := List.pairwise_append.mp h
    ext y
    rw [mem_filter, List.mem_toFinset, List.mem_toFinset, List.mem_append]
    constructor
    · intro hy
      rcases hy.1 with hf | hr
      · exact absurd (hcross y hf x (List.mem_cons_self ..)) (not_lt.mpr hy.2)
      · exact hr
    · intro hy
      refine ⟨Or.inr hy, ?_⟩
      rcases List.mem_cons.mp hy with rfl | hr
      · exact le_refl _
      · exact (List.rel_of_pairwise_cons hrest hr).le
  rw [tailSum, hsame, List.sum_toFinset _ hnodup]

end

section
variable {α κ μ M : Type*} [LinearOrder κ] [LinearOrder μ] [AddCommMonoid M] [PartialOrder M]
  [IsOrderedCancelAddMonoid M] [CanonicallyOrderedAdd M] {s : Finset α} {f : α → κ} {g : α → μ}
  {w : α → M}

omit [IsOrderedCancelAddMonoid M] in
/-- The tail of a later element leaves out all that comes before it. -/
theorem tailSum_add_le [DecidableEq α] {x y : α} (hx : x ∈ s) (h : f x < f y) :
    tailSum s f w y + w x ≤ tailSum s f w x := by
  have hout : x ∉ s.filter (fun z => f y ≤ f z) := by
    rw [mem_filter]
    exact fun hm => absurd hm.2 (not_le.mpr h)
  rw [tailSum, add_comm, ← sum_insert hout]
  apply sum_le_sum_of_subset
  intro z hz
  rcases mem_insert.mp hz with rfl | hz
  · exact mem_filter.mpr ⟨hx, le_refl _⟩
  · obtain ⟨hs, hle⟩ := mem_filter.mp hz
    exact mem_filter.mpr ⟨hs, h.le.trans hle⟩

/-- Two orders give every element the same tail exactly when all that they order
differently weighs nothing. -/
theorem tailSum_eq_iff (hf : ∀ x ∈ s, ∀ y ∈ s, f x = f y → x = y)
    (hg : ∀ x ∈ s, ∀ y ∈ s, g x = g y → x = y) :
    (∀ x ∈ s, tailSum s f w x = tailSum s g w x) ↔
      ∀ x ∈ s, ∀ y ∈ s, f x < f y → g y < g x → w x = 0 ∧ w y = 0 := by
  classical
  constructor
  · intro h x hx y hy hfxy hgyx
    have hfirst := tailSum_add_le (w := w) hx hfxy
    have hsecond := tailSum_add_le (w := w) hy hgyx
    rw [h x hx, h y hy] at hfirst
    have hzero : tailSum s g w y + (w x + w y) ≤ tailSum s g w y + 0 := by
      calc tailSum s g w y + (w x + w y) = tailSum s g w y + w x + w y := (add_assoc ..).symm
        _ ≤ tailSum s g w x + w y := by gcongr
        _ ≤ tailSum s g w y := hsecond
        _ = tailSum s g w y + 0 := (add_zero _).symm
    exact add_eq_zero.mp (nonpos_iff_eq_zero.mp (le_of_add_le_add_left hzero))
  · intro h x hx
    rw [tailSum, tailSum, sum_filter, sum_filter]
    apply sum_congr rfl
    intro y hy
    by_cases hfxy : f x ≤ f y
    · by_cases hgxy : g x ≤ g y
      · rw [if_pos hfxy, if_pos hgxy]
      · have hlt : f x < f y := lt_of_le_of_ne hfxy (fun he => hgxy (hf x hx y hy he ▸ le_refl _))
        rw [if_pos hfxy, if_neg hgxy, (h x hx y hy hlt (not_le.mp hgxy)).2]
    · by_cases hgxy : g x ≤ g y
      · have hlt : g x < g y := lt_of_le_of_ne hgxy (fun he => hfxy (hg x hx y hy he ▸ le_refl _))
        rw [if_neg hfxy, if_pos hgxy, (h y hy x hx (not_le.mp hfxy) hlt).1]
      · rw [if_neg hfxy, if_neg hgxy]

end

end Sediment.Base.Tails
