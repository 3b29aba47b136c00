import Mathlib

namespace Sediment.Base

inductive Consensus (α : Type*) where
  | unknown
  | one (a : α)
  | conflict
  deriving DecidableEq, Repr

namespace Consensus
variable {α : Type*} [DecidableEq α]

def ofOption : Option α → Consensus α
  | none => unknown
  | some a => one a

def join : Consensus α → Consensus α → Consensus α
  | unknown, c => c
  | c, unknown => c
  | one a, one b => if a = b then one a else conflict
  | _, _ => conflict

theorem join_comm (a b : Consensus α) : join a b = join b a := by
  cases a <;> cases b <;> simp only [join]
  rename_i x y
  by_cases h : x = y
  · simp [h]
  · simp [h, Ne.symm h]

theorem join_assoc (a b c : Consensus α) : join (join a b) c = join a (join b c) := by
  cases a <;> cases b <;> cases c <;> simp only [join] <;> split_ifs <;> simp_all

theorem join_idem (a : Consensus α) : join a a = a := by
  cases a <;> simp [join]

instance : Max (Consensus α) := ⟨join⟩

instance : SemilatticeSup (Consensus α) :=
  SemilatticeSup.mk' join_comm join_assoc join_idem

instance : OrderBot (Consensus α) where
  bot := unknown
  bot_le a := by
    change join unknown a = a
    rfl

instance : OrderTop (Consensus α) where
  top := conflict
  le_top a := by
    change join a conflict = conflict
    cases a <;> rfl

theorem one_le_iff {a : α} {c : Consensus α} : one a ≤ c ↔ c = one a ∨ c = conflict := by
  change join (one a) c = c ↔ _
  cases c with
  | unknown => simp [join]
  | one b =>
    by_cases h : a = b
    · simp [join, h]
    · simp [join, h, Ne.symm h]
  | conflict => simp [join]

theorem le_one_iff {a : α} {o : Option α} : ofOption o ≤ one a ↔ ∀ b, o = some b → b = a := by
  cases o with
  | none => exact iff_of_true (bot_le (a := one a)) (by simp)
  | some b =>
    rw [ofOption, one_le_iff]
    simp [eq_comm]

section
variable {s : Multiset (Option α)}

theorem one_le_sup {a : α} (h : some a ∈ s) : one a ≤ (s.map ofOption).sup :=
  Multiset.le_sup (Multiset.mem_map_of_mem ofOption h)

theorem sup_eq_unknown_iff : (s.map ofOption).sup = unknown ↔ ∀ a, some a ∉ s := by
  constructor
  · intro h a ha
    have := one_le_iff.mp (one_le_sup ha)
    rw [h] at this
    simp at this
  · intro h
    refine le_bot_iff.mp (Multiset.sup_le.mpr ?_)
    intro c hc
    obtain ⟨o, ho, rfl⟩ := Multiset.mem_map.mp hc
    cases o with
    | none => exact le_refl _
    | some a => exact absurd ho (h a)

theorem sup_eq_one_iff {a : α} :
    (s.map ofOption).sup = one a ↔ some a ∈ s ∧ ∀ b, some b ∈ s → b = a := by
  constructor
  · intro h
    have hall : ∀ b, some b ∈ s → b = a := by
      intro b hb
      have := one_le_iff.mp (one_le_sup hb)
      rw [h] at this
      simpa [eq_comm] using this
    refine ⟨?_, hall⟩
    by_contra ha
    have hnone : ∀ b, some b ∉ s := fun b hb => ha (hall b hb ▸ hb)
    rw [sup_eq_unknown_iff.mpr hnone] at h
    cases h
  · rintro ⟨ha, hall⟩
    refine le_antisymm (Multiset.sup_le.mpr ?_) (one_le_sup ha)
    intro c hc
    obtain ⟨o, ho, rfl⟩ := Multiset.mem_map.mp hc
    exact le_one_iff.mpr (fun b hb => hall b (hb ▸ ho))

theorem sup_eq_conflict_iff :
    (s.map ofOption).sup = conflict ↔ ∃ a b, some a ∈ s ∧ some b ∈ s ∧ a ≠ b := by
  constructor
  · intro h
    obtain ⟨a, ha⟩ : ∃ a, some a ∈ s := by
      by_contra hnone
      rw [sup_eq_unknown_iff.mpr (not_exists.mp hnone)] at h
      cases h
    by_contra hall
    have hone := (sup_eq_one_iff (a := a)).mpr
      ⟨ha, fun b hb => by_contra fun hne => hall ⟨b, a, hb, ha, hne⟩⟩
    rw [h] at hone
    cases hone
  · rintro ⟨a, b, ha, hb, hne⟩
    rcases one_le_iff.mp (one_le_sup ha) with h | h
    · have := one_le_iff.mp (one_le_sup hb)
      rw [h] at this
      simp [hne] at this
    · exact h

end

end Consensus

end Sediment.Base
