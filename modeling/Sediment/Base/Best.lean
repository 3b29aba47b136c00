import Sediment.Base.Dict

namespace Sediment.Base.Best

variable {κ ρ α : Type*} [DecidableEq κ] [LinearOrder ρ]

def offer (held : Dict κ (ρ × α)) (k : κ) (c : ρ × α) : Dict κ (ρ × α) :=
  match held.get? k with
  | none => held.set k c
  | some h => if h.1 < c.1 then held.set k c else held

def best (candidates : List (κ × ρ × α)) : Dict κ (ρ × α) :=
  candidates.foldl (fun held c => offer held c.1 c.2) Dict.empty

theorem best_concat (cs : List (κ × ρ × α)) (k : κ) (c : ρ × α) :
    best (cs ++ [(k, c)]) = offer (best cs) k c := by
  simp [best]

theorem get?_offer (held : Dict κ (ρ × α)) (k : κ) (c : ρ × α) (k' : κ) :
    (offer held k c).get? k' =
      if k' = k then some (match held.get? k with
        | none => c
        | some h => if h.1 < c.1 then c else h)
      else held.get? k' := by
  unfold offer
  cases hk : held.get? k with
  | none => rw [Dict.get?_set]
  | some h =>
    by_cases hlt : h.1 < c.1
    · simp only [hlt, if_true, Dict.get?_set]
    · simp only [hlt, if_false]
      split
      · rename_i heq
        rw [heq, hk]
      · rfl

/-- What is held for a key is one of its candidates, and no candidate outranks it. -/
theorem best_spec (cs : List (κ × ρ × α)) (k : κ) :
    (∀ h, (best cs).get? k = some h → (k, h) ∈ cs ∧ ∀ c, (k, c) ∈ cs → c.1 ≤ h.1) ∧
    ((best cs).get? k = none → ∀ c, (k, c) ∉ cs) := by
  induction cs using List.reverseRecOn with
  | nil =>
    constructor
    · intro h hk
      cases hk
    · intro _ c hc
      cases hc
  | append_singleton cs last ih =>
    obtain ⟨k', c'⟩ := last
    obtain ⟨ihs, ihn⟩ := ih
    rw [best_concat, get?_offer]
    by_cases hk : k = k'
    · subst hk
      rw [if_pos rfl]
      refine ⟨?_, nofun⟩
      intro h hh
      simp only [List.mem_append, List.mem_singleton, Prod.mk.injEq, true_and]
      cases hg : (best cs).get? k with
      | none =>
        simp only [hg, Option.some.injEq] at hh
        subst hh
        refine ⟨.inr rfl, ?_⟩
        intro c hc
        rcases hc with hc | rfl
        · exact absurd hc (ihn hg c)
        · exact le_refl _
      | some old =>
        obtain ⟨hold, hmax⟩ := ihs old hg
        simp only [hg, Option.some.injEq] at hh
        by_cases hlt : old.1 < c'.1
        · rw [if_pos hlt] at hh
          subst hh
          refine ⟨.inr rfl, ?_⟩
          intro c hc
          rcases hc with hc | rfl
          · exact (hmax c hc).trans hlt.le
          · exact le_refl _
        · rw [if_neg hlt] at hh
          subst hh
          refine ⟨.inl hold, ?_⟩
          intro c hc
          rcases hc with hc | rfl
          · exact hmax c hc
          · exact not_lt.mp hlt
    · rw [if_neg hk]
      have hmem : ∀ c, (k, c) ∈ cs ++ [(k', c')] ↔ (k, c) ∈ cs := by
        intro c
        simp [hk]
      simp only [hmem]
      exact ⟨ihs, ihn⟩

theorem mem_keys_best {cs : List (κ × ρ × α)} {k : κ} :
    k ∈ (best cs).keys ↔ ∃ c, (k, c) ∈ cs := by
  rw [Dict.mem_keys_iff]
  constructor
  · intro ⟨h, hh⟩
    exact ⟨h, ((best_spec cs k).1 h hh).1⟩
  · intro ⟨c, hc⟩
    cases hg : (best cs).get? k with
    | none => exact absurd hc ((best_spec cs k).2 hg c)
    | some h => exact ⟨h, rfl⟩

/-- A candidate is held exactly when none outranks it, where a rank tells a key's candidates
apart. -/
theorem get?_best_iff {cs : List (κ × ρ × α)} {k : κ}
    (huniq : ∀ c c', (k, c) ∈ cs → (k, c') ∈ cs → c.1 = c'.1 → c = c') (h : ρ × α) :
    (best cs).get? k = some h ↔ (k, h) ∈ cs ∧ ∀ c, (k, c) ∈ cs → c.1 ≤ h.1 := by
  refine ⟨(best_spec cs k).1 h, ?_⟩
  intro ⟨hmem, hmax⟩
  obtain ⟨held, hg⟩ := (Dict.mem_keys_iff _).mp (mem_keys_best.mpr ⟨h, hmem⟩)
  obtain ⟨hheld, hbest⟩ := (best_spec cs k).1 held hg
  rw [hg, huniq held h hheld hmem (le_antisymm (hmax held hheld) (hbest h hmem))]

/-- The order of the candidates is not observable where ranks tell them apart. -/
theorem best_perm {cs cs' : List (κ × ρ × α)} (hp : cs.Perm cs')
    (huniq : ∀ k c c', (k, c) ∈ cs → (k, c') ∈ cs → c.1 = c'.1 → c = c') :
    (best cs).Same (best cs') := by
  intro k
  apply Option.ext
  intro h
  have huniq' : ∀ c c', (k, c) ∈ cs' → (k, c') ∈ cs' → c.1 = c'.1 → c = c' :=
    fun c c' hc hc' => huniq k c c' (hp.mem_iff.mpr hc) (hp.mem_iff.mpr hc')
  rw [get?_best_iff (huniq k), get?_best_iff huniq']
  simp only [hp.mem_iff]

/-- Each candidate makes a key of its own, or is a duplicate. -/
theorem length_keys_offer (held : Dict κ (ρ × α)) (k : κ) (c : ρ × α) :
    (offer held k c).keys.length =
      held.keys.length + (if (held.get? k).isSome then 0 else 1) := by
  unfold offer
  cases hk : held.get? k with
  | none =>
    have hnot : k ∉ held.keys := (Dict.get?_eq_none_iff held).mp hk
    simp [Dict.set, Dict.keys_alter, hnot]
  | some h =>
    have hmem : k ∈ held.keys := (Dict.mem_keys_iff held).mpr ⟨h, hk⟩
    by_cases hlt : h.1 < c.1
    · simp [hlt, Dict.set, Dict.keys_alter, hmem]
    · simp [hlt]

end Sediment.Base.Best
