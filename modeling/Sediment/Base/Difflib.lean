import Mathlib.Data.List.Infix
import Mathlib.Tactic

namespace Sediment.Base.Difflib

variable {α : Type} [DecidableEq α]

/-- The elements from `i` in one sequence and from `j` in the other are equal, `size` of them. -/
structure Block where
  i : Nat
  j : Nat
  size : Nat
  deriving DecidableEq, Repr

def Block.shift (di dj : Nat) (b : Block) : Block := ⟨b.i + di, b.j + dj, b.size⟩

def commonPrefix : List α → List α → Nat
  | x :: xs, y :: ys => if x = y then commonPrefix xs ys + 1 else 0
  | _, _ => 0

def better (best new : Block) : Block := if best.size < new.size then new else best

/-- Of all longest common blocks the one that starts first in `a`, then first in `b`. -/
def findLongestMatch (a b : List α) : Block :=
  (List.range a.length).foldl (fun best i =>
    (List.range b.length).foldl (fun best j =>
      better best ⟨i, j, commonPrefix (a.drop i) (b.drop j)⟩) best) ⟨0, 0, 0⟩

/-- Each level takes at least one element off `a`, so `a.length` levels are enough. -/
def matchingBlocks : Nat → List α → List α → List Block
  | 0, _, _ => []
  | fuel + 1, a, b =>
    let m := findLongestMatch a b
    if m.size = 0 then []
    else
      matchingBlocks fuel (a.take m.i) (b.take m.j) ++ m ::
        (matchingBlocks fuel (a.drop (m.i + m.size)) (b.drop (m.j + m.size))).map
          (Block.shift (m.i + m.size) (m.j + m.size))

/-- Adjacent blocks become one. -/
def mergeBlocks (last : Block) : List Block → List Block
  | [] => if last.size = 0 then [] else [last]
  | m :: rest =>
    if last.i + last.size = m.i ∧ last.j + last.size = m.j then
      mergeBlocks ⟨last.i, last.j, last.size + m.size⟩ rest
    else if last.size = 0 then mergeBlocks m rest
    else last :: mergeBlocks m rest

def getMatchingBlocks (a b : List α) : List Block :=
  mergeBlocks ⟨0, 0, 0⟩ (matchingBlocks a.length a b) ++ [⟨a.length, b.length, 0⟩]

inductive Tag where
  | replace | delete | insert | equal
  deriving DecidableEq, Repr

structure Opcode where
  tag : Tag
  i1 : Nat
  i2 : Nat
  j1 : Nat
  j2 : Nat
  deriving DecidableEq, Repr

def opcodesFrom (i j : Nat) : List Block → List Opcode
  | [] => []
  | m :: rest =>
    let gap : List Opcode :=
      if i < m.i ∧ j < m.j then [⟨.replace, i, m.i, j, m.j⟩]
      else if i < m.i then [⟨.delete, i, m.i, j, m.j⟩]
      else if j < m.j then [⟨.insert, i, m.i, j, m.j⟩]
      else []
    let same : List Opcode :=
      if m.size = 0 then [] else [⟨.equal, m.i, m.i + m.size, m.j, m.j + m.size⟩]
    gap ++ same ++ opcodesFrom (m.i + m.size) (m.j + m.size) rest

def getOpcodes (a b : List α) : List Opcode := opcodesFrom 0 0 (getMatchingBlocks a b)

theorem commonPrefix_take (xs ys : List α) :
    xs.take (commonPrefix xs ys) = ys.take (commonPrefix xs ys) := by
  induction xs generalizing ys with
  | nil => simp [commonPrefix]
  | cons x xs ih =>
    cases ys with
    | nil => simp [commonPrefix]
    | cons y ys =>
      rw [commonPrefix]
      split
      · rename_i h
        rw [List.take_succ_cons, List.take_succ_cons, h, ih]
      · rfl

theorem commonPrefix_le (xs ys : List α) :
    commonPrefix xs ys ≤ xs.length ∧ commonPrefix xs ys ≤ ys.length := by
  induction xs generalizing ys with
  | nil => simp [commonPrefix]
  | cons x xs ih =>
    cases ys with
    | nil => simp [commonPrefix]
    | cons y ys =>
      have h := ih ys
      rw [commonPrefix, List.length_cons, List.length_cons]
      split <;> omega

theorem commonPrefix_self (xs : List α) : commonPrefix xs xs = xs.length := by
  induction xs with
  | nil => rfl
  | cons x xs ih => rw [commonPrefix, if_pos rfl, ih, List.length_cons]

/-- A block lies within both sequences and its elements agree. -/
structure Matches (a b : List α) (m : Block) : Prop where
  left : m.i + m.size ≤ a.length
  right : m.j + m.size ≤ b.length
  same : (a.drop m.i).take m.size = (b.drop m.j).take m.size

omit [DecidableEq α] in
theorem matches_empty (a b : List α) : Matches a b ⟨0, 0, 0⟩ := ⟨by simp, by simp, by simp⟩

theorem matches_commonPrefix {a b : List α} {i j : Nat} (hi : i ≤ a.length) (hj : j ≤ b.length) :
    Matches a b ⟨i, j, commonPrefix (a.drop i) (b.drop j)⟩ := by
  have h := commonPrefix_le (a.drop i) (b.drop j)
  rw [List.length_drop, List.length_drop] at h
  exact ⟨by dsimp only; omega, by dsimp only; omega, commonPrefix_take _ _⟩

theorem findLongestMatch_matches (a b : List α) : Matches a b (findLongestMatch a b) := by
  unfold findLongestMatch
  apply List.foldlRecOn (motive := Matches a b)
  · exact matches_empty a b
  · intro best hbest i hi
    apply List.foldlRecOn (motive := Matches a b)
    · exact hbest
    · intro best hbest j hj
      rw [List.mem_range] at hi hj
      unfold better
      split
      · exact matches_commonPrefix hi.le hj.le
      · exact hbest

/-- The blocks lie one behind another between two positions. -/
inductive Chain (a b : List α) : Nat → Nat → List Block → Nat → Nat → Prop
  | nil {i j i' j' : Nat} (hi : i ≤ i') (hj : j ≤ j') : Chain a b i j [] i' j'
  | cons {i j i' j' : Nat} {m : Block} {rest : List Block} (hi : i ≤ m.i) (hj : j ≤ m.j)
      (hm : Matches a b m) (hrest : Chain a b (m.i + m.size) (m.j + m.size) rest i' j') :
      Chain a b i j (m :: rest) i' j'

section
omit [DecidableEq α]
variable {a b : List α} {i j i' j' : Nat} {blocks rest : List Block}

theorem Chain.weaken (h : Chain a b i j blocks i' j') {k l : Nat} (hk : k ≤ i) (hl : l ≤ j) :
    Chain a b k l blocks i' j' := by
  cases h with
  | nil hi hj => exact .nil (hk.trans hi) (hl.trans hj)
  | cons hi hj hm hrest => exact .cons (hk.trans hi) (hl.trans hj) hm hrest

theorem Chain.append (h : Chain a b i j blocks i' j') {k l : Nat} (h' : Chain a b i' j' rest k l) :
    Chain a b i j (blocks ++ rest) k l := by
  induction h with
  | nil hi hj => exact h'.weaken hi hj
  | cons hi hj hm _ ih => exact .cons hi hj hm (ih h')

theorem matches_take {n k : Nat} {m : Block} (h : Matches (a.take n) (b.take k) m) :
    Matches a b m := by
  obtain ⟨hleft, hright, hsame⟩ := h
  rw [List.length_take] at hleft hright
  rw [List.drop_take, List.drop_take, List.take_take, List.take_take,
    Nat.min_eq_left (by omega), Nat.min_eq_left (by omega)] at hsame
  exact ⟨by omega, by omega, hsame⟩

theorem Chain.of_take {n k : Nat} (h : Chain (a.take n) (b.take k) i j blocks i' j') :
    Chain a b i j blocks i' j' := by
  induction h with
  | nil hi hj => exact .nil hi hj
  | cons hi hj hm _ ih => exact .cons hi hj (matches_take hm) ih

theorem matches_drop {n k : Nat} {m : Block} (hn : n ≤ a.length) (hk : k ≤ b.length)
    (h : Matches (a.drop n) (b.drop k) m) : Matches a b (m.shift n k) := by
  obtain ⟨hleft, hright, hsame⟩ := h
  rw [List.length_drop] at hleft hright
  rw [List.drop_drop, List.drop_drop] at hsame
  refine ⟨by dsimp only [Block.shift]; omega, by dsimp only [Block.shift]; omega, ?_⟩
  dsimp only [Block.shift]
  rwa [Nat.add_comm m.i, Nat.add_comm m.j]

theorem Chain.of_drop {n k : Nat} (hn : n ≤ a.length) (hk : k ≤ b.length)
    (h : Chain (a.drop n) (b.drop k) i j blocks i' j') :
    Chain a b (i + n) (j + k) (blocks.map (Block.shift n k)) (i' + n) (j' + k) := by
  induction h with
  | nil hi hj => exact .nil (by omega) (by omega)
  | @cons i j i' j' m rest hi hj hm _ ih =>
    apply Chain.cons
    · dsimp only [Block.shift]
      omega
    · dsimp only [Block.shift]
      omega
    · exact matches_drop hn hk hm
    · apply ih.weaken
      · dsimp only [Block.shift]
        omega
      · dsimp only [Block.shift]
        omega

theorem matches_merge {m n : Block} (hm : Matches a b m) (hn : Matches a b n)
    (hi : m.i + m.size = n.i) (hj : m.j + m.size = n.j) :
    Matches a b ⟨m.i, m.j, m.size + n.size⟩ := by
  refine ⟨?_, ?_, ?_⟩
  · have := hn.left
    dsimp only
    omega
  · have := hn.right
    dsimp only
    omega
  · have hsame := hn.same
    rw [← hi, ← hj, ← List.drop_drop, ← List.drop_drop] at hsame
    dsimp only
    rw [List.take_add, List.take_add, hm.same, hsame]

theorem Chain.merge (last : Block) (blocks : List Block) {i j : Nat}
    (h : Chain a b i j (last :: blocks) i' j') : Chain a b i j (mergeBlocks last blocks) i' j' := by
  induction blocks generalizing last i j with
  | nil =>
    unfold mergeBlocks
    split
    · obtain _ | ⟨hi, hj, -, hrest⟩ := h
      exact hrest.weaken (by omega) (by omega)
    · exact h
  | cons m rest ih =>
    obtain _ | ⟨hi, hj, hm, hrest⟩ := h
    unfold mergeBlocks
    split
    · rename_i hadj
      obtain _ | ⟨-, -, hn, htail⟩ := hrest
      apply ih
      refine .cons hi hj (matches_merge hm hn hadj.1 hadj.2) ?_
      exact htail.weaken (by dsimp only; omega) (by dsimp only; omega)
    · split
      · exact ih m (hrest.weaken (by omega) (by omega))
      · exact .cons hi hj hm (ih m hrest)

end

theorem matchingBlocks_chain (fuel : Nat) (a b : List α) :
    Chain a b 0 0 (matchingBlocks fuel a b) a.length b.length := by
  induction fuel generalizing a b with
  | zero => exact .nil (Nat.zero_le _) (Nat.zero_le _)
  | succ fuel ih =>
    have hm := findLongestMatch_matches a b
    rw [matchingBlocks]
    generalize findLongestMatch a b = m at hm
    split
    · exact .nil (Nat.zero_le _) (Nat.zero_le _)
    · have hleft := hm.left
      have hright := hm.right
      have hfront := (ih (a.take m.i) (b.take m.j)).of_take
      have hback := (ih (a.drop (m.i + m.size)) (b.drop (m.j + m.size))).of_drop hleft hright
      rw [List.length_take_of_le (by omega), List.length_take_of_le (by omega)] at hfront
      rw [List.length_drop, List.length_drop, Nat.zero_add, Nat.zero_add,
        Nat.sub_add_cancel hleft, Nat.sub_add_cancel hright] at hback
      exact hfront.append (.cons (le_refl _) (le_refl _) hm hback)

theorem getMatchingBlocks_chain (a b : List α) :
    Chain a b 0 0 (getMatchingBlocks a b) a.length b.length := by
  have hblocks : Chain a b 0 0 (⟨0, 0, 0⟩ :: matchingBlocks a.length a b) a.length b.length :=
    .cons (le_refl _) (le_refl _) (matches_empty a b) (matchingBlocks_chain _ a b)
  apply (hblocks.merge _ _).append
  exact .cons (le_refl _) (le_refl _) ⟨le_refl _, le_refl _, by simp⟩ (.nil (le_refl _) (le_refl _))

theorem opcodesFrom_cons_equal {i j : Nat} {m : Block} {rest : List Block} (hi : i ≤ m.i)
    (hj : j ≤ m.j) (h : ∀ op ∈ opcodesFrom i j (m :: rest), op.tag = .equal) :
    i = m.i ∧ j = m.j ∧ ∀ op ∈ opcodesFrom (m.i + m.size) (m.j + m.size) rest, op.tag = .equal := by
  simp only [opcodesFrom, List.mem_append] at h
  refine ⟨?_, ?_, fun op hop => h op (Or.inr hop)⟩
  · by_contra hne
    have hlt : i < m.i := lt_of_le_of_ne hi hne
    by_cases hj' : j < m.j
    · have := h ⟨.replace, i, m.i, j, m.j⟩ (Or.inl (Or.inl (by simp [hlt, hj'])))
      cases this
    · have := h ⟨.delete, i, m.i, j, m.j⟩ (Or.inl (Or.inl (by simp [hlt, hj'])))
      cases this
  · by_contra hne
    have hlt : j < m.j := lt_of_le_of_ne hj hne
    by_cases hi' : i < m.i
    · have := h ⟨.replace, i, m.i, j, m.j⟩ (Or.inl (Or.inl (by simp [hlt, hi'])))
      cases this
    · have := h ⟨.insert, i, m.i, j, m.j⟩ (Or.inl (Or.inl (by simp [hlt, hi'])))
      cases this

omit [DecidableEq α] in
theorem drop_eq_of_equal {a b : List α} (blocks : List Block) {i j : Nat}
    (hc : Chain a b i j (blocks ++ [⟨a.length, b.length, 0⟩]) a.length b.length)
    (h : ∀ op ∈ opcodesFrom i j (blocks ++ [⟨a.length, b.length, 0⟩]), op.tag = .equal) :
    a.drop i = b.drop j := by
  induction blocks generalizing i j with
  | nil =>
    obtain _ | ⟨hi, hj, -, -⟩ := hc
    obtain ⟨rfl, rfl, -⟩ := opcodesFrom_cons_equal hi hj h
    simp
  | cons m blocks ih =>
    obtain _ | ⟨hi, hj, hm, hrest⟩ := hc
    obtain ⟨rfl, rfl, htail⟩ := opcodesFrom_cons_equal hi hj h
    have hdrop := ih hrest htail
    calc a.drop m.i = (a.drop m.i).take m.size ++ a.drop (m.i + m.size) := by
          rw [← List.drop_drop, List.take_append_drop]
      _ = (b.drop m.j).take m.size ++ b.drop (m.j + m.size) := by rw [hm.same, hdrop]
      _ = b.drop m.j := by rw [← List.drop_drop, List.take_append_drop]

/-- A sequence is its own longest match. -/
theorem findLongestMatch_self (a : List α) : findLongestMatch a a = ⟨0, 0, a.length⟩ := by
  unfold findLongestMatch
  have hkeep : ∀ i j : Nat, better ⟨0, 0, a.length⟩ ⟨i, j, commonPrefix (a.drop i) (a.drop j)⟩ =
      ⟨0, 0, a.length⟩ := by
    intro i j
    have h := (commonPrefix_le (a.drop i) (a.drop j)).1
    rw [List.length_drop] at h
    exact if_neg (by dsimp only; omega)
  have hrow : ∀ (i : Nat) (js : List Nat), js.foldl (fun best j =>
      better best ⟨i, j, commonPrefix (a.drop i) (a.drop j)⟩) ⟨0, 0, a.length⟩ =
        ⟨0, 0, a.length⟩ := by
    intro i js
    induction js with
    | nil => rfl
    | cons j js ih => rw [List.foldl_cons, hkeep, ih]
  have hrows : ∀ is : List Nat, is.foldl (fun best i => (List.range a.length).foldl (fun best j =>
      better best ⟨i, j, commonPrefix (a.drop i) (a.drop j)⟩) best) ⟨0, 0, a.length⟩ =
        ⟨0, 0, a.length⟩ := by
    intro is
    induction is with
    | nil => rfl
    | cons i is ih => rw [List.foldl_cons, hrow, ih]
  cases a with
  | nil => rfl
  | cons x xs =>
    have hrange : List.range (x :: xs).length = 0 :: (List.range xs.length).map (· + 1) :=
      List.range_succ_eq_map
    have hfirst : better ⟨0, 0, 0⟩
        ⟨0, 0, commonPrefix ((x :: xs).drop 0) ((x :: xs).drop 0)⟩ = ⟨0, 0, (x :: xs).length⟩ := by
      rw [List.drop_zero, commonPrefix_self]
      exact if_pos (by simp)
    rw [hrange, List.foldl_cons, List.foldl_cons, hfirst, ← hrange, hrow, hrows]

theorem matchingBlocks_nil (fuel : Nat) (b : List α) : matchingBlocks fuel [] b = [] := by
  cases fuel with
  | zero => rfl
  | succ fuel => rfl

theorem getMatchingBlocks_self {a : List α} (h : a ≠ []) :
    getMatchingBlocks a a = [⟨0, 0, a.length⟩, ⟨a.length, a.length, 0⟩] := by
  obtain ⟨x, xs, rfl⟩ := List.exists_cons_of_ne_nil h
  have hblocks : matchingBlocks (x :: xs).length (x :: xs) (x :: xs) =
      [⟨0, 0, (x :: xs).length⟩] := by
    rw [List.length_cons, matchingBlocks, findLongestMatch_self]
    simp [matchingBlocks_nil]
  rw [getMatchingBlocks, hblocks]
  simp [mergeBlocks]

/-- Nothing but equal stretches is reported exactly between equal sequences. -/
theorem getOpcodes_equal_iff (a b : List α) :
    (∀ op ∈ getOpcodes a b, op.tag = .equal) ↔ a = b := by
  constructor
  · intro h
    exact drop_eq_of_equal _ (getMatchingBlocks_chain a b) h
  · intro h
    subst h
    by_cases hne : a = []
    · subst hne
      intro op hop
      exact absurd hop List.not_mem_nil
    · have hpos := List.length_pos_iff.mpr hne
      rw [getOpcodes, getMatchingBlocks_self hne]
      simp [opcodesFrom, hne]

/-- What an opcode says is there is not empty. -/
theorem opcodesFrom_wide (blocks : List Block) {i j : Nat} {op : Opcode}
    (h : op ∈ opcodesFrom i j blocks) : op.tag = .equal ∨
      (op.tag ≠ .insert ∧ op.i1 < op.i2) ∨ (op.tag ≠ .delete ∧ op.j1 < op.j2) := by
  induction blocks generalizing i j with
  | nil => exact absurd h List.not_mem_nil
  | cons m blocks ih =>
    simp only [opcodesFrom, List.mem_append] at h
    rcases h with (h | h) | h
    · split at h
      · rename_i hlt
        rw [List.mem_singleton.mp h]
        exact Or.inr (Or.inl ⟨by simp, hlt.1⟩)
      · split at h
        · rename_i hlt
          rw [List.mem_singleton.mp h]
          exact Or.inr (Or.inl ⟨by simp, hlt⟩)
        · split at h
          · rename_i hlt
            rw [List.mem_singleton.mp h]
            exact Or.inr (Or.inr ⟨by simp, hlt⟩)
          · exact absurd h List.not_mem_nil
    · split at h
      · exact absurd h List.not_mem_nil
      · rw [List.mem_singleton.mp h]
        exact Or.inl rfl
    · exact ih h

end Sediment.Base.Difflib
