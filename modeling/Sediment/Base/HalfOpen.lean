import Mathlib

namespace Sediment.Base

structure HalfOpen (α : Type*) [LinearOrder α] where
  start : Option α
  stop : Option α
  proper : ∀ a ∈ start, ∀ b ∈ stop, a < b

namespace HalfOpen
variable {α : Type*} [LinearOrder α] {s t u : HalfOpen α}

@[ext] theorem ext (hstart : s.start = t.start) (hstop : s.stop = t.stop) : s = t := by
  cases s
  cases t
  cases hstart
  cases hstop
  rfl

def points (s : HalfOpen α) : Set α :=
  {x | (∀ a ∈ s.start, a ≤ x) ∧ ∀ b ∈ s.stop, x < b}

/-- Where an interval starts, with an absent bound below all others. -/
def lower (s : HalfOpen α) : WithBot α := s.start.elim ⊥ WithBot.some

/-- One interval ends where the other starts, or earlier. -/
def Before (s t : HalfOpen α) : Prop := ∃ b ∈ s.stop, ∃ a ∈ t.start, b ≤ a

theorem Before.trans (h : s.Before t) (h' : t.Before u) : s.Before u := by
  obtain ⟨b, hb, a, ha, hab⟩ := h
  obtain ⟨b', hb', a', ha', hab'⟩ := h'
  have hproper := t.proper a ha b' hb'
  exact ⟨b, hb, a', ha', hab.trans (hproper.le.trans hab')⟩

instance : IsTrans (HalfOpen α) Before := ⟨fun _ _ _ => Before.trans⟩

theorem Before.disjoint (h : s.Before t) : Disjoint s.points t.points := by
  obtain ⟨b, hb, a, ha, hab⟩ := h
  rw [Set.disjoint_left]
  intro x hs ht
  have hlt := hs.2 b hb
  have hle := ht.1 a ha
  exact absurd hlt (hab.trans hle).not_gt

/-- Of two intervals apart, the one that starts first ends before the other starts. -/
theorem before_iff [Nonempty α] [NoMinOrder α] (h : s.lower ≤ t.lower) :
    s.Before t ↔ Disjoint s.points t.points := by
  refine ⟨Before.disjoint, ?_⟩
  intro hd
  rw [Set.disjoint_left] at hd
  cases ht : t.start with
  | none =>
    -- Both reach back for ever, so they share a point below both ends.
    have hs : s.start = none := by
      cases hs : s.start with
      | none => rfl
      | some a => simp [lower, hs, ht] at h
    have hall : ∀ o : Option α, ∃ x, ∀ b ∈ o, x < b := by
      intro o
      cases o with
      | none => exact ⟨Classical.arbitrary α, by simp⟩
      | some b =>
        obtain ⟨x, hx⟩ := exists_lt b
        exact ⟨x, by simpa using hx⟩
    obtain ⟨x, hx⟩ := hall s.stop
    obtain ⟨y, hy⟩ := hall t.stop
    have hmin : min x y ∈ s.points :=
      ⟨by simp [hs], fun b hb => (min_le_left x y).trans_lt (hx b hb)⟩
    exact absurd ⟨by simp [ht], fun b hb => (min_le_right x y).trans_lt (hy b hb)⟩ (hd hmin)
  | some a =>
    have hmem : a ∈ t.points := ⟨by simp [ht], fun b hb => t.proper a ht b hb⟩
    have hout : a ∉ s.points := fun hin => hd hin hmem
    have hlow : ∀ x ∈ s.start, x ≤ a := by
      intro x hx
      unfold lower at h
      rw [Option.mem_def.mp hx, ht] at h
      exact WithBot.coe_le_coe.mp h
    have hstop : ¬∀ b ∈ s.stop, a < b := fun hall => hout ⟨hlow, hall⟩
    push Not at hstop
    obtain ⟨b, hb, hba⟩ := hstop
    exact ⟨b, hb, a, ht, hba⟩

/-- Sorted by their starts, intervals are apart exactly when neighbours are. -/
theorem isChain_iff [Nonempty α] [NoMinOrder α] {xs : List (HalfOpen α)}
    (h : xs.Pairwise (fun s t => s.lower ≤ t.lower)) :
    xs.IsChain Before ↔ xs.Pairwise (fun s t => Disjoint s.points t.points) := by
  rw [List.isChain_iff_pairwise]
  constructor
  · intro hb
    exact hb.imp Before.disjoint
  · intro hd
    exact (h.and hd).imp fun hst => (before_iff hst.1).mpr hst.2

end HalfOpen

end Sediment.Base
