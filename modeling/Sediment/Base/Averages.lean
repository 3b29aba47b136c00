import Mathlib

namespace Sediment.Base.Averages

variable {α : Type*} {w x : α → ℚ} {xs : List α} {lo hi m : ℚ}

theorem sum_le_sum {f g : α → ℚ} (h : ∀ a ∈ xs, f a ≤ g a) : (xs.map f).sum ≤ (xs.map g).sum := by
  induction xs with
  | nil => simp
  | cons a xs ih =>
    rw [List.map_cons, List.map_cons, List.sum_cons, List.sum_cons]
    exact add_le_add (h a (by simp)) (ih fun b hb => h b (List.mem_cons_of_mem _ hb))

theorem sum_nonneg {f : α → ℚ} (h : ∀ a ∈ xs, 0 ≤ f a) : 0 ≤ (xs.map f).sum :=
  List.sum_nonneg (List.forall_mem_map.mpr h)

theorem sum_pos {f : α → ℚ} (h : ∀ a ∈ xs, 0 ≤ f a) {a : α} (ha : a ∈ xs) (hpos : 0 < f a) :
    0 < (xs.map f).sum := by
  obtain ⟨front, back, rfl⟩ := List.append_of_mem ha
  have hfront : 0 ≤ (front.map f).sum :=
    sum_nonneg fun b hb => h b (List.mem_append_left _ hb)
  have hback : 0 ≤ (back.map f).sum :=
    sum_nonneg fun b hb => h b (List.mem_append_right _ (List.mem_cons_of_mem _ hb))
  rw [List.map_append, List.map_cons, List.sum_append, List.sum_cons]
  linarith

theorem sum_mul (c : ℚ) (f : α → ℚ) (xs : List α) :
    (xs.map fun a => f a * c).sum = (xs.map f).sum * c := by
  rw [List.sum_map_mul_right]

/-- A weighted sum lies between the bounds of its terms, scaled by the weights. -/
theorem weightedSum_bounds (hw : ∀ a ∈ xs, 0 ≤ w a) (hx : ∀ a ∈ xs, lo ≤ x a ∧ x a ≤ hi) :
    (xs.map w).sum * lo ≤ (xs.map fun a => w a * x a).sum ∧
      (xs.map fun a => w a * x a).sum ≤ (xs.map w).sum * hi := by
  constructor
  · rw [← sum_mul]
    exact sum_le_sum fun a ha => mul_le_mul_of_nonneg_left (hx a ha).1 (hw a ha)
  · rw [← sum_mul]
    exact sum_le_sum fun a ha => mul_le_mul_of_nonneg_left (hx a ha).2 (hw a ha)

theorem average_bounds (hw : ∀ a ∈ xs, 0 ≤ w a) (hpos : 0 < (xs.map w).sum)
    (hx : ∀ a ∈ xs, lo ≤ x a ∧ x a ≤ hi) :
    lo ≤ (xs.map fun a => w a * x a).sum / (xs.map w).sum ∧
      (xs.map fun a => w a * x a).sum / (xs.map w).sum ≤ hi := by
  obtain ⟨hlo, hhi⟩ := weightedSum_bounds hw hx
  constructor
  · rw [le_div_iff₀ hpos, mul_comm]
    exact hlo
  · rw [div_le_iff₀ hpos, mul_comm]
    exact hhi

/-- The spread of a weighted sum about any point, by its two moments. -/
theorem sum_sq_dev (m : ℚ) (xs : List α) :
    (xs.map fun a => w a * (x a - m) ^ 2).sum =
      (xs.map fun a => w a * x a ^ 2).sum - 2 * m * (xs.map fun a => w a * x a).sum +
        m ^ 2 * (xs.map w).sum := by
  induction xs with
  | nil => simp
  | cons a xs ih =>
    simp only [List.map_cons, List.sum_cons, ih]
    ring

/-- Shares of a whole vary no more about their mean `m` than a coin of bias `m` does. -/
theorem sum_sq_dev_le (hw : ∀ a ∈ xs, 0 ≤ w a) (hx : ∀ a ∈ xs, 0 ≤ x a ∧ x a ≤ 1)
    (hm : (xs.map fun a => w a * x a).sum = (xs.map w).sum * m) :
    (xs.map fun a => w a * (x a - m) ^ 2).sum ≤ (xs.map w).sum * (m * (1 - m)) := by
  have hsq : (xs.map fun a => w a * x a ^ 2).sum ≤ (xs.map fun a => w a * x a).sum := by
    apply sum_le_sum
    intro a ha
    have hle : x a ^ 2 ≤ x a := by
      rw [sq]
      exact mul_le_of_le_one_right (hx a ha).1 (hx a ha).2
    exact mul_le_mul_of_nonneg_left hle (hw a ha)
  rw [sum_sq_dev]
  rw [hm] at hsq ⊢
  linarith [hsq]

/-- A blend of two numbers lies between them. -/
theorem blend_bounds {t a b : ℚ} (h0 : 0 ≤ t) (h1 : t ≤ 1) :
    min a b ≤ t * a + (1 - t) * b ∧ t * a + (1 - t) * b ≤ max a b := by
  have h1' : 0 ≤ 1 - t := sub_nonneg.mpr h1
  constructor
  · calc min a b = t * min a b + (1 - t) * min a b := by ring
      _ ≤ t * a + (1 - t) * b := add_le_add (mul_le_mul_of_nonneg_left (min_le_left a b) h0)
          (mul_le_mul_of_nonneg_left (min_le_right a b) h1')
  · calc t * a + (1 - t) * b ≤ t * max a b + (1 - t) * max a b :=
          add_le_add (mul_le_mul_of_nonneg_left (le_max_left a b) h0)
            (mul_le_mul_of_nonneg_left (le_max_right a b) h1')
      _ = max a b := by ring

end Sediment.Base.Averages
