import Mathlib

namespace Sediment.Base.Ranks

variable {κ : Type*} [LinearOrder κ]

/-- One for a win, one half for a tie. -/
def score (a b : κ) : ℚ := if b < a then 1 else if a = b then 1 / 2 else 0

def pairScore (xs ys : List κ) : ℚ := (xs.map fun a => (ys.map (score a)).sum).sum

def wins (xs ys : List κ) : Nat := (xs ×ˢ ys).countP fun p => p.2 < p.1

def ties (xs ys : List κ) : Nat := (xs ×ˢ ys).countP fun p => p.1 = p.2

/-- The middle of the ranks that the elements equal to `a` take. -/
def midrank (xs : List κ) (a : κ) : ℚ := (xs.map (score a)).sum + 1 / 2

variable {a b : κ} {xs ys zs : List κ}

@[simp] theorem score_self : score a a = 1 / 2 := by simp [score]

theorem score_of_lt (h : b < a) : score a b = 1 := by simp [score, h]

theorem score_of_gt (h : a < b) : score a b = 0 := by
  simp [score, h.not_gt, h.ne]

theorem score_add_score (a b : κ) : score a b + score b a = 1 := by
  rcases lt_trichotomy a b with h | h | h
  · rw [score_of_gt h, score_of_lt h, zero_add]
  · rw [h, score_self]
    norm_num
  · rw [score_of_lt h, score_of_gt h, add_zero]

theorem score_nonneg (a b : κ) : 0 ≤ score a b := by
  unfold score
  split_ifs <;> norm_num

theorem score_map {f : κ → κ} (h : ∀ x ∈ [a, b], ∀ y ∈ [a, b], x < y → f x < f y) :
    score (f a) (f b) = score a b := by
  rcases lt_trichotomy a b with hlt | heq | hgt
  · rw [score_of_gt hlt, score_of_gt (h a (by simp) b (by simp) hlt)]
  · rw [heq, score_self, score_self]
  · rw [score_of_lt hgt, score_of_lt (h b (by simp) a (by simp) hgt)]

@[simp] theorem pairScore_nil_left : pairScore ([] : List κ) ys = 0 := rfl

@[simp] theorem pairScore_nil_right : pairScore xs ([] : List κ) = 0 := by
  simp [pairScore]

theorem pairScore_cons_left :
    pairScore (a :: xs) ys = (ys.map (score a)).sum + pairScore xs ys := by
  simp [pairScore]

theorem pairScore_cons_right :
    pairScore xs (b :: ys) = (xs.map (score · b)).sum + pairScore xs ys := by
  simp [pairScore, List.sum_map_add]

theorem pairScore_append_right :
    pairScore xs (ys ++ zs) = pairScore xs ys + pairScore xs zs := by
  simp [pairScore, List.sum_map_add]

theorem pairScore_perm {xs' ys' : List κ} (hx : xs.Perm xs') (hy : ys.Perm ys') :
    pairScore xs ys = pairScore xs' ys' := by
  have hrow : ∀ a, (ys.map (score a)).sum = (ys'.map (score a)).sum := fun a =>
    (hy.map _).sum_eq
  unfold pairScore
  rw [funext hrow]
  exact (hx.map _).sum_eq

theorem pairScore_nonneg (xs ys : List κ) : 0 ≤ pairScore xs ys := by
  apply List.sum_nonneg
  intro r hr
  obtain ⟨a, -, rfl⟩ := List.mem_map.mp hr
  apply List.sum_nonneg
  intro s hs
  obtain ⟨b, -, rfl⟩ := List.mem_map.mp hs
  exact score_nonneg a b

/-- Every pair is worth one to the two sides together. -/
theorem pairScore_add_swap (xs ys : List κ) :
    pairScore xs ys + pairScore ys xs = xs.length * ys.length := by
  induction xs with
  | nil => simp
  | cons a xs ih =>
    have hrow : (ys.map (score a)).sum + (ys.map (score · a)).sum = ys.length := by
      rw [← List.sum_map_add]
      simp [score_add_score]
    rw [pairScore_cons_left, pairScore_cons_right, List.length_cons]
    push_cast
    linarith

theorem pairScore_self (xs : List κ) : pairScore xs xs = xs.length ^ 2 / 2 := by
  have h := pairScore_add_swap xs xs
  linarith

theorem pairScore_map {f : κ → κ}
    (h : ∀ x ∈ xs ++ ys, ∀ y ∈ xs ++ ys, x < y → f x < f y) :
    pairScore (xs.map f) (ys.map f) = pairScore xs ys := by
  unfold pairScore
  rw [List.map_map]
  congr 1
  apply List.map_congr_left
  intro a ha
  simp only [Function.comp_apply, List.map_map]
  congr 1
  apply List.map_congr_left
  intro b hb
  refine score_map ?_
  have hmem : ∀ x ∈ [a, b], x ∈ xs ++ ys := by
    intro x hx
    rcases List.mem_cons.mp hx with rfl | hx
    · exact List.mem_append_left _ ha
    · rw [List.mem_singleton.mp hx]
      exact List.mem_append_right _ hb
  exact fun x hx y hy => h x (hmem x hx) y (hmem y hy)

theorem sum_score (a : κ) (ys : List κ) :
    (ys.map (score a)).sum =
      ((ys.countP fun b => b < a : Nat) : ℚ) + ((ys.countP fun b => a = b : Nat) : ℚ) / 2 := by
  induction ys with
  | nil => simp
  | cons b ys ih =>
    rw [List.map_cons, List.sum_cons, ih, List.countP_cons, List.countP_cons]
    rcases lt_trichotomy a b with h | h | h
    · simp [score_of_gt h, h.not_gt, h.ne]
    · subst h
      simp only [score_self, lt_irrefl, decide_false, decide_true, if_true,
        Bool.false_eq_true, if_false]
      push_cast
      ring
    · simp only [score_of_lt h, h, h.ne', decide_true, decide_false, if_true,
        Bool.false_eq_true, if_false]
      push_cast
      ring

/-- The score is the wins and half of the ties. -/
theorem pairScore_eq_wins (xs ys : List κ) :
    pairScore xs ys = wins xs ys + (ties xs ys : ℚ) / 2 := by
  induction xs with
  | nil => simp [wins, ties]
  | cons a xs ih =>
    rw [pairScore_cons_left, ih, sum_score]
    have hw : wins (a :: xs) ys = (ys.countP fun b => b < a) + wins xs ys := by
      simp [wins, List.product_cons, List.countP_append, List.countP_map, Function.comp_def]
    have ht : ties (a :: xs) ys = (ys.countP fun b => a = b) + ties xs ys := by
      simp [ties, List.product_cons, List.countP_append, List.countP_map, Function.comp_def]
    rw [hw, ht]
    push_cast
    ring

/-- The average rank of a group of equal elements, from what stands below and above it. -/
theorem midrank_group {low tied high : List κ} (hlow : ∀ b ∈ low, b < a)
    (htied : ∀ b ∈ tied, b = a) (hhigh : ∀ b ∈ high, a < b) :
    midrank (low ++ tied ++ high) a = low.length + (tied.length + 1 : ℚ) / 2 := by
  have hl : (low.map (score a)).sum = low.length := by
    rw [List.map_congr_left fun b hb => score_of_lt (hlow b hb)]
    simp
  have ht : (tied.map (score a)).sum = tied.length / 2 := by
    rw [List.map_congr_left (g := fun _ => (1 / 2 : ℚ)) fun b hb => by
      rw [htied b hb, score_self]]
    simp [div_eq_mul_inv]
  have hh : (high.map (score a)).sum = 0 := by
    rw [List.map_congr_left fun b hb => score_of_gt (hhigh b hb)]
    simp
  unfold midrank
  rw [List.map_append, List.map_append, List.sum_append, List.sum_append, hl, ht, hh]
  ring

theorem sum_midrank (xs ys : List κ) :
    (xs.map (midrank ys)).sum = pairScore xs ys + xs.length / 2 := by
  unfold midrank pairScore
  rw [List.sum_map_add]
  simp [div_eq_mul_inv]

/-- The rank sum of a part, less the least it can be, is the score of that part
against the rest. -/
theorem rankSum_sub (xs ys : List κ) :
    (xs.map (midrank (xs ++ ys))).sum - (xs.length * (xs.length + 1) : ℚ) / 2 =
      pairScore xs ys := by
  rw [sum_midrank, pairScore_append_right, pairScore_self]
  ring

end Sediment.Base.Ranks
