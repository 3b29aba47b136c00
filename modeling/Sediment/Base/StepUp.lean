import Sediment.Base.Ordering

namespace Sediment.Base.StepUp

section
variable {α κ : Type*} [LinearOrder κ] (value : α → κ) (bound : Nat → κ)

/-- The last rank whose value is within the bound of that rank, or else `found`. `rank` is that
of the first element. -/
def lastWithin (rank found : Nat) : List α → Nat
  | [] => found
  | x :: rest => lastWithin (rank + 1) (if value x ≤ bound rank then rank else found) rest

/-- `k` is the last rank, counted from 1, whose value is within its bound; 0 stands for none. -/
structure IsLast (xs : List α) (k : Nat) : Prop where
  le : k ≤ xs.length
  within : ∀ i x, k = i + 1 → xs[i]? = some x → value x ≤ bound k
  beyond : ∀ i x, k ≤ i → xs[i]? = some x → bound (i + 1) < value x

theorem lastWithin_append (rank found : Nat) (xs : List α) (x : α) :
    lastWithin value bound rank found (xs ++ [x]) =
      if value x ≤ bound (rank + xs.length) then rank + xs.length
      else lastWithin value bound rank found xs := by
  induction xs generalizing rank found with
  | nil => rfl
  | cons y xs ih =>
    have hrank : rank + 1 + xs.length = rank + (y :: xs).length := by
      rw [List.length_cons]
      omega
    rw [List.cons_append, lastWithin, ih, lastWithin, hrank]

theorem isLast_lastWithin (xs : List α) : IsLast value bound xs (lastWithin value bound 1 0 xs) := by
  induction xs using List.reverseRecOn with
  | nil =>
    refine ⟨le_rfl, ?_, ?_⟩
    · intro i x _ hx
      cases hx
    · intro i x _ hx
      cases hx
  | append_singleton xs x ih =>
    rw [lastWithin_append]
    split
    · rename_i hle
      refine ⟨by simp [Nat.add_comm], ?_, ?_⟩
      · intro i y hi hy
        have hlen : i = xs.length := by omega
        rw [hlen, List.getElem?_concat_length] at hy
        cases hy
        exact hle
      · intro i y hi hy
        have hlt := (List.getElem?_eq_some_iff.mp hy).1
        rw [List.length_append, List.length_singleton] at hlt
        omega
    · rename_i hlt
      have hk := ih.le
      refine ⟨by simp; omega, ?_, ?_⟩
      · intro i y hi hy
        rw [List.getElem?_append_left (by omega)] at hy
        exact ih.within i y hi hy
      · intro i y hi hy
        by_cases hin : i < xs.length
        · rw [List.getElem?_append_left hin] at hy
          exact ih.beyond i y hi hy
        · have hi' := (List.getElem?_eq_some_iff.mp hy).1
          rw [List.length_append, List.length_singleton] at hi'
          have hlen : i = xs.length := by omega
          rw [hlen, List.getElem?_concat_length] at hy
          cases hy
          rw [hlen, Nat.add_comm]
          exact not_le.mp hlt

variable {value bound} {xs : List α} {k : Nat}

theorem IsLast.unique {j : Nat} (hk : IsLast value bound xs k) (hj : IsLast value bound xs j) :
    k = j := by
  have hle : ∀ {a b : Nat}, IsLast value bound xs a → IsLast value bound xs b → a ≤ b := by
    intro a b ha hb
    by_contra hlt
    obtain ⟨i, rfl⟩ : ∃ i, a = i + 1 := ⟨a - 1, by omega⟩
    have hi : i < xs.length := ha.le
    have hx : xs[i]? = some xs[i] := List.getElem?_eq_getElem hi
    exact absurd (ha.within i _ rfl hx) (not_le.mpr (hb.beyond i _ (by omega) hx))
  exact le_antisymm (hle hk hj) (hle hj hk)

theorem isLast_map {β : Type*} {f : β → α} {ys : List β} :
    IsLast value bound (ys.map f) k ↔ IsLast (fun y => value (f y)) bound ys k := by
  constructor
  · intro h
    refine ⟨by simpa using h.le, ?_, ?_⟩
    · intro i y hi hy
      exact h.within i (f y) hi (by rw [List.getElem?_map, hy]; rfl)
    · intro i y hi hy
      exact h.beyond i (f y) hi (by rw [List.getElem?_map, hy]; rfl)
  · intro h
    refine ⟨by simpa using h.le, ?_, ?_⟩
    · intro i x hi hx
      rw [List.getElem?_map, Option.map_eq_some_iff] at hx
      obtain ⟨y, hy, rfl⟩ := hx
      exact h.within i y hi hy
    · intro i x hi hx
      rw [List.getElem?_map, Option.map_eq_some_iff] at hx
      obtain ⟨y, hy, rfl⟩ := hx
      exact h.beyond i y hi hy

/-- Ties never straddle the last rank: an element is up to it exactly when its value is within
the bound of that rank. -/
theorem IsLast.lt_iff (h : IsLast value bound xs k)
    (hsorted : xs.Pairwise (fun a b => value a ≤ value b)) (hbound : Monotone bound)
    {i : Nat} {x : α} (hx : xs[i]? = some x) : i < k ↔ 0 < k ∧ value x ≤ bound k := by
  constructor
  · intro hi
    obtain ⟨last, rfl⟩ : ∃ last, k = last + 1 := ⟨k - 1, by omega⟩
    have hlast : last < xs.length := h.le
    have hend : xs[last]? = some xs[last] := List.getElem?_eq_getElem hlast
    have hwithin := h.within last _ rfl hend
    refine ⟨by omega, le_trans ?_ hwithin⟩
    rcases Nat.lt_or_ge i last with hlt | hge
    · obtain ⟨hi', rfl⟩ := List.getElem?_eq_some_iff.mp hx
      exact List.pairwise_iff_getElem.mp hsorted i last hi' hlast hlt
    · have hil : i = last := by omega
      rw [hil, hend] at hx
      cases hx
      exact le_rfl
  · intro hle
    by_contra hge
    have hlt := h.beyond i x (by omega) hx
    have hmono : bound k ≤ bound (i + 1) := hbound (by omega)
    exact absurd (hle.2.trans hmono) (not_le.mpr hlt)

/-- What is within the bound of the last rank is the front of the list up to it. -/
theorem IsLast.filter_eq_take (h : IsLast value bound xs k)
    (hsorted : xs.Pairwise (fun a b => value a ≤ value b)) (hbound : Monotone bound) :
    xs.filter (fun x => decide (0 < k ∧ value x ≤ bound k)) = xs.take k := by
  have hfront : ∀ x ∈ xs.take k, 0 < k ∧ value x ≤ bound k := by
    intro x hx
    obtain ⟨i, hi, rfl⟩ := List.mem_take_iff_getElem.mp hx
    have hk := h.le
    exact (h.lt_iff hsorted hbound (List.getElem?_eq_getElem (by omega))).mp (by omega)
  have hback : ∀ x ∈ xs.drop k, ¬(0 < k ∧ value x ≤ bound k) := by
    intro x hx
    obtain ⟨i, hi, rfl⟩ := List.mem_drop_iff_getElem.mp hx
    intro hle
    have hlt := (h.lt_iff hsorted hbound (List.getElem?_eq_getElem (by omega))).mpr hle
    omega
  calc xs.filter (fun x => decide (0 < k ∧ value x ≤ bound k))
      = (xs.take k ++ xs.drop k).filter (fun x => decide (0 < k ∧ value x ≤ bound k)) := by
        rw [List.take_append_drop]
    _ = xs.take k := by
        rw [List.filter_append, List.filter_eq_self.mpr, List.filter_eq_nil_iff.mpr,
          List.append_nil]
        · intro x hx
          simpa using hback x hx
        · intro x hx
          simpa using hfront x hx

end

end Sediment.Base.StepUp
