import Mathlib
import Sediment.Base.Dict

namespace Sediment.Base.Trend

section Pairs
variable {α β M : Type*}

/-- Every earlier element with every later one. -/
def combinations : List α → List (α × α)
  | [] => []
  | a :: rest => rest.map (a, ·) ++ combinations rest

def pairSum [AddMonoid M] (f : α → α → M) (xs : List α) : M :=
  ((combinations xs).map fun p => f p.1 p.2).sum

theorem pairSum_cons [AddMonoid M] (f : α → α → M) (a : α) (xs : List α) :
    pairSum f (a :: xs) = (xs.map (f a)).sum + pairSum f xs := by
  simp [pairSum, combinations, Function.comp_def]

theorem pairSum_concat [AddCommMonoid M] (f : α → α → M) (xs : List α) (a : α) :
    pairSum f (xs ++ [a]) = (xs.map (f · a)).sum + pairSum f xs := by
  induction xs with
  | nil => simp [pairSum, combinations]
  | cons b xs ih =>
    rw [List.cons_append, pairSum_cons, ih, pairSum_cons, List.map_append, List.sum_append,
      List.map_cons, List.sum_cons]
    simp only [List.map_cons, List.map_nil, List.sum_cons, List.sum_nil, add_zero]
    abel

/-- A sum that is antisymmetric in each pair changes its sign with the sequence reversed. -/
theorem pairSum_reverse [AddCommGroup M] {f : α → α → M} (h : ∀ a b, f a b = -f b a)
    (xs : List α) : pairSum f xs.reverse = -pairSum f xs := by
  induction xs with
  | nil => simp [pairSum, combinations]
  | cons a xs ih =>
    have hrow : (xs.reverse.map (f · a)).sum = -(xs.map (f a)).sum := by
      rw [(xs.reverse_perm.map _).sum_eq, List.sum_neg, List.map_map]
      congr 1
      apply List.map_congr_left
      intro b _
      exact h b a
    rw [List.reverse_cons, pairSum_concat, ih, pairSum_cons, hrow, neg_add]

theorem mem_of_mem_combinations {xs : List α} {p : α × α} (h : p ∈ combinations xs) :
    p.1 ∈ xs ∧ p.2 ∈ xs := by
  induction xs with
  | nil => cases h
  | cons a xs ih =>
    rcases List.mem_append.mp h with h | h
    · obtain ⟨b, hb, rfl⟩ := List.mem_map.mp h
      exact ⟨by simp, List.mem_cons_of_mem _ hb⟩
    · exact ⟨List.mem_cons_of_mem _ (ih h).1, List.mem_cons_of_mem _ (ih h).2⟩

theorem combinations_map (g : α → β) (xs : List α) :
    combinations (xs.map g) = (combinations xs).map fun p => (g p.1, g p.2) := by
  induction xs with
  | nil => rfl
  | cons a xs ih => simp [combinations, ih, Function.comp_def]

theorem pairSum_map [AddMonoid M] {f : β → β → M} {f' : α → α → M} {g : α → β} {xs : List α}
    (h : ∀ a ∈ xs, ∀ b ∈ xs, f (g a) (g b) = f' a b) :
    pairSum f (xs.map g) = pairSum f' xs := by
  unfold pairSum
  rw [combinations_map, List.map_map]
  congr 1
  apply List.map_congr_left
  intro p hp
  obtain ⟨h1, h2⟩ := mem_of_mem_combinations hp
  exact h p.1 h1 p.2 h2

end Pairs

section Counter
variable {κ : Type*} [DecidableEq κ]

def counter (xs : List κ) : Dict κ Nat :=
  xs.foldl (fun counts x => counts.alter x fun held => held.getD 0 + 1) Dict.empty

theorem get?_counter (xs : List κ) (k : κ) :
    (counter xs).get? k = if k ∈ xs then some (xs.count k) else none := by
  induction xs using List.reverseRecOn with
  | nil => simp [counter]
  | append_singleton xs a ih =>
    have hstep : counter (xs ++ [a]) =
        (counter xs).alter a fun held => held.getD 0 + 1 := by
      simp [counter]
    have hin := List.count_eq_zero (a := a) (l := xs)
    rw [hstep, Dict.get?_alter]
    by_cases hk : k = a
    · subst hk
      rw [if_pos rfl, ih]
      by_cases hm : k ∈ xs
      · simp [hm]
      · simp [hm, hin.mpr hm]
    · rw [if_neg hk, ih]
      simp [hk, List.count_append, Ne.symm hk]

/-- The counter holds each element once, with the number of times it occurs. -/
theorem counter_perm (xs : List κ) :
    (counter xs).entries.Perm (xs.dedup.map fun k => (k, xs.count k)) := by
  have hl : (counter xs).entries.Nodup := List.Nodup.of_map _ (counter xs).nodup
  have hr : (xs.dedup.map fun k => (k, xs.count k)).Nodup := by
    apply List.Nodup.of_map Prod.fst
    simpa [List.map_map, Function.comp_def] using xs.nodup_dedup
  rw [List.perm_ext_iff_of_nodup hl hr]
  intro e
  obtain ⟨k, c⟩ := e
  rw [Dict.mem_entries_iff, get?_counter]
  constructor
  · intro h
    split at h
    · rename_i hk
      cases h
      exact List.mem_map.mpr ⟨k, List.mem_dedup.mpr hk, rfl⟩
    · cases h
  · intro h
    obtain ⟨own, hown, he⟩ := List.mem_map.mp h
    cases he
    rw [if_pos (List.mem_dedup.mp hown)]

theorem counter_values_perm (xs : List κ) :
    (counter xs).values.Perm (xs.dedup.map xs.count) := by
  have h := (counter_perm xs).map Prod.snd
  rw [List.map_map] at h
  exact h

theorem values_pos {xs : List κ} {c : Nat} (h : c ∈ (counter xs).values) : 0 < c := by
  obtain ⟨k, hk, rfl⟩ := List.mem_map.mp ((counter_values_perm xs).mem_iff.mp h)
  exact List.count_pos_iff.mpr (List.mem_dedup.mp hk)

theorem sum_values (xs : List κ) : (counter xs).values.sum = xs.length := by
  rw [(counter_values_perm xs).sum_eq]
  exact List.sum_map_count_dedup_eq_length xs

theorem counter_congr {xs ys : List κ} (h : xs.Perm ys) :
    (counter xs).values.Perm (counter ys).values := by
  have hcount : xs.count = ys.count := funext fun k => h.count_eq k
  have hmap := h.dedup.map xs.count
  refine (counter_values_perm xs).trans (hmap.trans ?_)
  rw [hcount]
  exact (counter_values_perm ys).symm

theorem counter_map {ι : Type*} [DecidableEq ι] {g : κ → ι} {xs : List κ}
    (h : ∀ a ∈ xs, ∀ b ∈ xs, g a = g b → a = b) :
    (counter (xs.map g)).values.Perm (counter xs).values := by
  have hcount : ∀ a ∈ xs, (xs.map g).count (g a) = xs.count a := by
    intro a ha
    rw [List.count, List.count, List.countP_map]
    apply List.countP_congr
    intro b hb
    simp only [Function.comp_apply, beq_iff_eq]
    exact ⟨h b hb a ha, fun hba => by rw [hba]⟩
  have hdedup : (xs.map g).dedup.Perm (xs.dedup.map g) := by
    have hn : (xs.dedup.map g).Nodup := by
      apply List.Nodup.map_on _ xs.nodup_dedup
      intro a ha b hb
      exact h a (List.mem_dedup.mp ha) b (List.mem_dedup.mp hb)
    rw [List.perm_ext_iff_of_nodup (List.nodup_dedup _) hn]
    intro k
    simp
  refine (counter_values_perm _).trans ((hdedup.map _).trans ?_)
  rw [List.map_map]
  have hagree : xs.dedup.map ((xs.map g).count ∘ g) = xs.dedup.map xs.count := by
    apply List.map_congr_left
    intro a ha
    exact hcount a (List.mem_dedup.mp ha)
  rw [hagree]
  exact (counter_values_perm xs).symm

/-- Only one group is left exactly when all elements are equal. -/
theorem one_group_iff {xs : List κ} :
    (counter xs).values.length ≤ 1 ↔ ∀ a ∈ xs, ∀ b ∈ xs, a = b := by
  rw [(counter_values_perm xs).length_eq, List.length_map]
  constructor
  · intro h a ha b hb
    have ha' := List.mem_dedup.mpr ha
    have hb' := List.mem_dedup.mpr hb
    cases hd : xs.dedup with
    | nil =>
      rw [hd] at ha'
      cases ha'
    | cons k rest =>
      rw [hd] at h ha' hb'
      have hrest : rest = [] := List.length_eq_zero_iff.mp (Nat.le_zero.mp (Nat.le_of_succ_le_succ h))
      rw [hrest, List.mem_singleton] at ha' hb'
      rw [ha', hb']
  · intro h
    apply le_of_not_gt
    intro hlen
    have hn := @List.Nodup.getElem_inj_iff _ _ xs.nodup_dedup 0 (Nat.zero_lt_of_lt hlen) 1 hlen
    have heq := h _ (List.mem_dedup.mp (List.getElem_mem (Nat.zero_lt_of_lt hlen))) _
      (List.mem_dedup.mp (List.getElem_mem hlen))
    exact absurd (hn.mp heq) Nat.zero_ne_one

end Counter

/-- A function that gains by joining groups is largest on one group, and there only. -/
theorem sum_groups_le {g : Nat → Int} (h0 : g 0 = 0)
    (h : ∀ a b, 0 < a → 0 < b → g a + g b < g (a + b)) {cs : List Nat} (hpos : ∀ c ∈ cs, 0 < c) :
    (cs.map g).sum ≤ g cs.sum ∧ (1 < cs.length → (cs.map g).sum < g cs.sum) := by
  induction cs with
  | nil => simp [h0]
  | cons c cs ih =>
    have hrest : ∀ d ∈ cs, 0 < d := fun d hd => hpos d (List.mem_cons_of_mem _ hd)
    have hc := hpos c (by simp)
    obtain ⟨hle, -⟩ := ih hrest
    rw [List.map_cons, List.sum_cons, List.sum_cons]
    cases cs with
    | nil => simp
    | cons d cs =>
      have hsum : 0 < (d :: cs).sum := by
        rw [List.sum_cons]
        exact Nat.add_pos_left (hrest d (by simp)) _
      have hjoin := h c (d :: cs).sum hc hsum
      exact ⟨by linarith, fun _ => by linarith⟩

end Sediment.Base.Trend
