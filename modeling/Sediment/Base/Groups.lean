import Sediment.Base.Ordering

namespace Sediment.Base

variable {α κ ρ : Type*} [LinearOrder ρ] {key : α → κ} {rank : α → ρ} {xs ys zs : List α} {x : α}

/-- `ys` holds one element of each group of `xs`, and none of its group ranks before it. -/
structure BestOf (key : α → κ) (rank : α → ρ) (xs ys : List α) : Prop where
  mem : ∀ y ∈ ys, y ∈ xs
  nodup : (ys.map key).Nodup
  best : ∀ x ∈ xs, ∃ y ∈ ys, key y = key x ∧ rank y ≤ rank x

theorem BestOf.nil : BestOf key rank [] [] :=
  ⟨fun _ h => h, List.nodup_nil, fun _ h => absurd h (by simp)⟩

theorem BestOf.repeated (h : BestOf key rank xs ys)
    (hx : ∃ y ∈ ys, key y = key x ∧ rank y ≤ rank x) : BestOf key rank (xs ++ [x]) ys := by
  refine ⟨fun y hy => List.mem_append_left _ (h.mem y hy), h.nodup, fun z hz => ?_⟩
  rcases List.mem_append.mp hz with hz | hz
  · exact h.best z hz
  · rw [List.mem_singleton.mp hz]
    exact hx

theorem BestOf.new (h : BestOf key rank xs ys) (hx : ∀ y ∈ ys, key y ≠ key x) :
    BestOf key rank (xs ++ [x]) (ys ++ [x]) := by
  refine ⟨fun y hy => ?_, ?_, fun z hz => ?_⟩
  · rcases List.mem_append.mp hy with hy | hy
    · exact List.mem_append_left _ (h.mem y hy)
    · exact List.mem_append_right _ hy
  · rw [List.map_append, List.map_cons, List.map_nil, List.nodup_append]
    refine ⟨h.nodup, List.nodup_singleton _, ?_⟩
    rintro a ha b hb
    obtain ⟨y, hy, rfl⟩ := List.mem_map.mp ha
    rw [List.mem_singleton.mp hb]
    exact hx y hy
  · rcases List.mem_append.mp hz with hz | hz
    · obtain ⟨y, hy, hk, hr⟩ := h.best z hz
      exact ⟨y, List.mem_append_left _ hy, hk, hr⟩
    · exact ⟨z, List.mem_append_right _ hz, rfl, le_refl _⟩

theorem BestOf.mem_of_mem (h : BestOf key rank xs ys) (h' : BestOf key rank xs zs)
    (hr : ∀ a ∈ xs, ∀ b ∈ xs, rank a = rank b → a = b) {y : α} (hy : y ∈ ys) : y ∈ zs := by
  obtain ⟨z, hz, hzk, hzr⟩ := h'.best y (h.mem y hy)
  obtain ⟨y', hy', hk, hr'⟩ := h.best z (h'.mem z hz)
  have hyy : y' = y := List.inj_on_of_nodup_map h.nodup hy' hy (hk.trans hzk)
  have hzy : z = y := hr z (h'.mem z hz) y (h.mem y hy) (le_antisymm hzr (hyy ▸ hr'))
  exact hzy ▸ hz

/-- Where no two elements share a rank, the best elements are determined. -/
theorem BestOf.perm (h : BestOf key rank xs ys) (h' : BestOf key rank xs zs)
    (hr : ∀ a ∈ xs, ∀ b ∈ xs, rank a = rank b → a = b) : ys.Perm zs := by
  rw [List.perm_ext_iff_of_nodup h.nodup.of_map h'.nodup.of_map]
  exact fun y => ⟨h.mem_of_mem h' hr, h'.mem_of_mem h hr⟩

theorem BestOf.congr {xs' : List α} (h : BestOf key rank xs ys) (hx : xs.Perm xs') :
    BestOf key rank xs' ys :=
  ⟨fun y hy => hx.mem_iff.mp (h.mem y hy), h.nodup, fun x hm => h.best x (hx.mem_iff.mpr hm)⟩

end Sediment.Base
