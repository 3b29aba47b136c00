import Mathlib

namespace Sediment.Base.Quantiles

variable {α : Type*}

/-- Where the part `i` of `k` starts in a list of length `n`. -/
def bound (n k i : Nat) : Nat := i * n / k

def slices (k : Nat) (xs : List α) : List (List α) :=
  (List.range k).map fun i =>
    (xs.drop (bound xs.length k i)).take (bound xs.length k (i + 1) - bound xs.length k i)

theorem bound_le_succ (n k i : Nat) : bound n k i ≤ bound n k (i + 1) :=
  Nat.div_le_div_right (Nat.mul_le_mul_right n (Nat.le_succ i))

@[simp] theorem bound_zero (n k : Nat) : bound n k 0 = 0 := by
  simp [bound]

theorem bound_self {k : Nat} (n : Nat) (hk : 0 < k) : bound n k k = n :=
  Nat.mul_div_cancel_left n hk

theorem bound_le {n k i : Nat} (hi : i ≤ k) : bound n k i ≤ n := by
  rcases Nat.eq_zero_or_pos k with rfl | hk
  · simp [bound]
  · exact Nat.div_le_of_le_mul (Nat.mul_le_mul_right n hi)

/-- A part is as long as the quotient or longer by one. -/
theorem width_bounds {k : Nat} (n i : Nat) (hk : 0 < k) :
    n / k ≤ bound n k (i + 1) - bound n k i ∧ bound n k (i + 1) - bound n k i ≤ n / k + 1 := by
  have hsum : (i + 1) * n = i * n + n := Nat.succ_mul i n
  have h1 := Nat.div_add_mod (i * n) k
  have h2 := Nat.div_add_mod n k
  have hm1 := Nat.mod_lt (i * n) hk
  have hm2 := Nat.mod_lt n hk
  unfold bound
  rw [hsum]
  constructor
  · apply Nat.le_sub_of_add_le
    rw [Nat.add_comm]
    exact Nat.div_add_div_le_add_div
  · apply Nat.sub_le_of_le_add
    apply Nat.le_of_lt_succ
    apply (Nat.div_lt_iff_lt_mul hk).mpr
    have hexpand : (n / k + 1 + i * n / k + 1) * k =
        k * (n / k) + k * (i * n / k) + k + k := by ring
    rw [Nat.succ_eq_add_one, hexpand]
    omega

theorem flatten_take (k : Nat) (xs : List α) {j : Nat} (hj : j ≤ k) :
    ((List.range j).map fun i => (xs.drop (bound xs.length k i)).take
      (bound xs.length k (i + 1) - bound xs.length k i)).flatten =
      xs.take (bound xs.length k j) := by
  induction j with
  | zero => simp
  | succ j ih =>
    have hle := bound_le_succ xs.length k j
    rw [List.range_succ, List.map_append, List.flatten_append, ih (Nat.le_of_succ_le hj)]
    simp only [List.map_cons, List.map_nil, List.flatten_cons, List.flatten_nil, List.append_nil]
    rw [← List.take_add, Nat.add_sub_cancel' hle]

/-- The parts are the list, in order. -/
theorem flatten_slices {k : Nat} (hk : 0 < k) (xs : List α) : (slices k xs).flatten = xs := by
  unfold slices
  rw [flatten_take k xs (Nat.le_refl k), bound_self _ hk, List.take_length]

theorem length_slice {k : Nat} {xs part : List α} (h : part ∈ slices k xs) :
    ∃ i < k, part.length = bound xs.length k (i + 1) - bound xs.length k i := by
  obtain ⟨i, hi, rfl⟩ := List.mem_map.mp h
  have hik := List.mem_range.mp hi
  have hle := bound_le (n := xs.length) (Nat.succ_le_of_lt hik)
  refine ⟨i, hik, ?_⟩
  rw [List.length_take, List.length_drop, Nat.min_eq_left]
  exact Nat.sub_le_sub_right hle _

theorem slices_balanced {k : Nat} {xs a b : List α} (ha : a ∈ slices k xs)
    (hb : b ∈ slices k xs) : a.length ≤ b.length + 1 := by
  obtain ⟨i, hi, hla⟩ := length_slice ha
  obtain ⟨j, -, hlb⟩ := length_slice hb
  have hk : 0 < k := Nat.zero_lt_of_lt hi
  have hupper := (width_bounds xs.length i hk).2
  have hlower := (width_bounds xs.length j hk).1
  omega

theorem slices_ne_nil {k : Nat} {xs part : List α} (hlen : k ≤ xs.length)
    (h : part ∈ slices k xs) : part ≠ [] := by
  obtain ⟨i, hi, hl⟩ := length_slice h
  have hk : 0 < k := Nat.zero_lt_of_lt hi
  have hlower := (width_bounds xs.length i hk).1
  have hone : 1 ≤ xs.length / k := (Nat.one_le_div_iff hk).mpr hlen
  intro hnil
  rw [hnil, List.length_nil] at hl
  omega

end Sediment.Base.Quantiles
