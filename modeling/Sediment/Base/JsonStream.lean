import Sediment.Base.JsonLocality

namespace Sediment.Base.JsonScan

variable {σ : Type} (blank : Char → Bool) (value : List Char → Option (JsonValue × List Char))
  (step : σ → JsonValue → Option σ)

def streamItems : Nat → σ → List Char → Option σ
  | 0, _, _ => none
  | _ + 1, st, [] => some st
  | n + 1, st, c :: s =>
    if blank c then streamItems n st s
    else do
      let (v, rest) ← value (c :: s)
      let st ← step st v
      streamItems n st rest

/-- Every step consumes, so a bound above the length is never met. -/
def stream (st : σ) (s : List Char) : Option σ :=
  streamItems blank value step (s.length + 1) st s

variable {blank value step} {st st' : σ} {s t : List Char} {n m : Nat}

theorem streamItems_fuel (hv : Local value) (hn : s.length < n) (hm : s.length < m) :
    streamItems blank value step n st s = streamItems blank value step m st s := by
  induction n generalizing m st s with
  | zero => omega
  | succ n ih =>
    obtain ⟨m, rfl⟩ : ∃ k, m = k + 1 := ⟨m - 1, by omega⟩
    cases s with
    | nil => rfl
    | cons c s =>
      rw [List.length_cons] at hn hm
      simp only [streamItems]
      split
      · exact ih (by omega) (by omega)
      · cases hval : value (c :: s) with
        | none => rfl
        | some p =>
          have hlen := hv.shorter _ _ _ hval
          rw [List.length_cons] at hlen
          cases hstep : step st p.1 with
          | none => simp [hstep]
          | some st₁ =>
            simp only [Option.bind_eq_bind, Option.bind_some, hstep]
            exact ih (by omega) (by omega)

@[simp] theorem stream_nil : stream blank value step st [] = some st := rfl

/-- The loop without its bound. -/
theorem stream_cons (hv : Local value) (c : Char) (s : List Char) :
    stream blank value step st (c :: s) =
      if blank c then stream blank value step st s
      else (value (c :: s)).bind (fun p =>
        (step st p.1).bind (fun st => stream blank value step st p.2)) := by
  simp only [stream, List.length_cons, streamItems]
  split
  · rfl
  · cases hval : value (c :: s) with
    | none => rfl
    | some p =>
      have hlen := hv.shorter _ _ _ hval
      rw [List.length_cons] at hlen
      cases hstep : step st p.1 with
      | none => simp [hstep]
      | some st₁ =>
        simp only [Option.bind_eq_bind, Option.bind_some, hstep]
        exact streamItems_fuel hv (by omega) (by omega)

theorem stream_blanks (hv : Local value) (hs : ∀ c ∈ s, blank c = true) :
    stream blank value step st (s ++ t) = stream blank value step st t := by
  induction s with
  | nil => rfl
  | cons c s ih =>
    rw [List.cons_append, stream_cons hv, if_pos (hs c (by simp))]
    exact ih (fun d hd => hs d (by simp [hd]))

/-- A text that is read to its end can be continued: what comes behind is read
from the state that it leaves. -/
theorem stream_append (hv : Local value)
    (hstep : ∀ st v st', step st v = some st' → isNumber v = false)
    (h : stream blank value step st s = some st') :
    stream blank value step st (s ++ t) = stream blank value step st' t := by
  induction hn : s.length using Nat.strong_induction_on generalizing s st with
  | _ n ih =>
    cases s with
    | nil =>
      cases h
      rfl
    | cons c s =>
      rw [List.length_cons] at hn
      rw [stream_cons hv] at h
      rw [List.cons_append, stream_cons hv]
      split at h
      · rename_i hb
        rw [if_pos hb]
        exact ih s.length (by omega) h rfl
      · rename_i hb
        simp only [Option.bind_eq_some_iff] at h
        obtain ⟨⟨v, rest⟩, hval, st₁, hst, hrest⟩ := h
        have hlen := hv.shorter _ _ _ hval
        rw [List.length_cons] at hlen
        have happ := hv.append _ _ _ t hval (Or.inr (hstep _ _ _ hst))
        rw [List.cons_append] at happ
        rw [if_neg hb, happ, Option.bind_some, hst, Option.bind_some]
        exact ih rest.length (by omega) hrest rfl

/-- Two readers of one stream stay related when their steps do. -/
theorem stream_rel {τ : Type} {step' : τ → JsonValue → Option τ} {R : σ → τ → Prop} {st₁ : τ}
    (hv : Local value) (hR : R st st₁)
    (hstep : ∀ st st₁ s v rest, R st st₁ → value s = some (v, rest) →
      Option.Rel R (step st v) (step' st₁ v)) :
    Option.Rel R (stream blank value step st s) (stream blank value step' st₁ s) := by
  induction hn : s.length using Nat.strong_induction_on generalizing s st st₁ with
  | _ n ih =>
    cases s with
    | nil => exact .some hR
    | cons c s =>
      rw [List.length_cons] at hn
      rw [stream_cons hv, stream_cons hv]
      split
      · exact ih s.length (by omega) hR rfl
      · cases hval : value (c :: s) with
        | none => exact .none
        | some p =>
          have hlen := hv.shorter _ _ _ hval
          rw [List.length_cons] at hlen
          have hrel := hstep st st₁ _ p.1 p.2 hR hval
          rw [Option.bind_some, Option.bind_some]
          cases hst : step st p.1 <;> cases hst' : step' st₁ p.1 <;> rw [hst, hst'] at hrel
          · exact .none
          · cases hrel
          · cases hrel
          · rename_i st₂ st₃
            cases hrel with
            | some hR' => exact ih p.2.length (by omega) hR' rfl

/-- Every state that a stream leaves has what the first one has and the steps keep. -/
theorem stream_invariant {P : σ → Prop} (hv : Local value) (hP : P st)
    (hstep : ∀ st v st', P st → step st v = some st' → P st')
    (h : stream blank value step st s = some st') : P st' := by
  have hrel : Option.Rel (fun a b => a = b ∧ P a) (stream blank value step st s)
      (stream blank value step st s) := stream_rel hv ⟨rfl, hP⟩ (by
      rintro st _ s v rest ⟨rfl, hst⟩ -
      cases hs : step st v with
      | none => exact .none
      | some st₁ => exact .some ⟨rfl, hstep _ _ _ hst hs⟩)
  rw [h] at hrel
  cases hrel with
  | some hr => exact hr.2

end Sediment.Base.JsonScan
