import Mathlib

namespace Sediment.Base

/-- Two lists of rows that supply the same rows, in any order and any number. -/
def SameRows {α : Type*} (xs ys : List α) : Prop := ∀ a, a ∈ xs ↔ a ∈ ys

theorem SameRows.filter {α : Type*} {xs ys : List α} (h : SameRows xs ys) (p : α → Bool) :
    SameRows (xs.filter p) (ys.filter p) := by
  intro a
  rw [List.mem_filter, List.mem_filter, h a]

/-- Both computations return related values, or both raise. -/
def Agree {α β ε : Type} (R : α → β → Prop) : Except ε α → Except ε β → Prop
  | .ok a, .ok b => R a b
  | .error _, .error _ => True
  | _, _ => False

section
variable {α β σ ε : Type}

theorem Agree.bind {α' β' : Type} {R : α → α' → Prop} {S : β → β' → Prop}
    {x : Except ε α} {y : Except ε α'} {f : α → Except ε β} {g : α' → Except ε β'}
    (h : Agree R x y) (hf : ∀ a b, R a b → Agree S (f a) (g b)) :
    Agree S (x >>= f) (y >>= g) := by
  cases x with
  | error e =>
    cases y with
    | error e' => exact True.intro
    | ok b => exact h.elim
  | ok a =>
    cases y with
    | error e' => exact h.elim
    | ok b => exact hf a b h

theorem Agree.refl {R : α → α → Prop} (h : ∀ a, R a a) (x : Except ε α) : Agree R x x := by
  cases x with
  | error e => exact True.intro
  | ok a => exact h a

theorem Agree.mapError {α' ε' : Type} {R : α → α' → Prop} {x : Except ε α} {y : Except ε α'}
    (h : Agree R x y) (f : ε → ε') : Agree R (x.mapError f) (y.mapError f) := by
  cases x <;> cases y <;> exact h

theorem mapError_ok {ε' : Type} {x : Except ε α} {f : ε → ε'} {a : α} :
    x.mapError f = .ok a ↔ x = .ok a := by
  cases x <;> simp [Except.mapError]

@[simp] theorem ok_bind (a : α) (f : α → Except ε β) : (.ok a >>= f) = f a := rfl

@[simp] theorem error_bind (e : ε) (f : α → Except ε β) : (.error e >>= f) = .error e := rfl

theorem toOption_eq_some {x : Except ε α} {a : α} : x.toOption = some a ↔ x = .ok a := by
  cases x <;> simp [Except.toOption]

theorem ok_of_isOk {x : Except ε α} (h : x.isOk = true) : ∃ a, x = .ok a := by
  cases x with
  | error e => cases h
  | ok a => exact ⟨a, rfl⟩

/-- A computation that returns has returned at each of its steps. -/
theorem bind_ok {x : Except ε α} {f : α → Except ε β} {b : β} :
    x >>= f = .ok b ↔ ∃ a, x = .ok a ∧ f a = .ok b := by
  cases x with
  | error e => simp [bind, Except.bind]
  | ok a => simp [bind, Except.bind]

/-- What every step of a loop preserves holds where the loop returns, and the
loop fails only as a step may. -/
theorem foldlM_cases {f : σ → α → Except ε σ} (motive : List α → σ → Prop) (fails : ε → Prop)
    {start : σ} (xs : List α) (hstart : motive [] start)
    (hstep : ∀ seen x rest st, seen ++ x :: rest = xs → motive seen st →
      (∃ e, fails e ∧ f st x = .error e) ∨ ∃ st', f st x = .ok st' ∧ motive (seen ++ [x]) st') :
    (∃ e, fails e ∧ xs.foldlM f start = .error e) ∨
      ∃ out, xs.foldlM f start = .ok out ∧ motive xs out := by
  have hrun : ∀ (rest seen : List α) (st : σ), seen ++ rest = xs → motive seen st →
      (∃ e, fails e ∧ rest.foldlM f st = .error e) ∨
        ∃ out, rest.foldlM f st = .ok out ∧ motive (seen ++ rest) out := by
    intro rest
    induction rest with
    | nil => intro seen st _ hm; exact Or.inr ⟨st, rfl, by simpa using hm⟩
    | cons x rest ih =>
      intro seen st hx hm
      rw [List.foldlM_cons]
      rcases hstep seen x rest st hx hm with ⟨e, he, hf⟩ | ⟨st', hf, hm'⟩
      · exact Or.inl ⟨e, he, by rw [hf]; rfl⟩
      · have hrest := ih (seen ++ [x]) st' (by simpa using hx) hm'
        rw [List.append_assoc] at hrest
        rw [hf]
        exact hrest
  exact hrun xs [] start rfl hstart

theorem foldlM_induct {f : σ → α → Except ε σ} (motive : List α → σ → Prop) {start out : σ}
    (hstart : motive [] start)
    (hstep : ∀ seen x st st', motive seen st → f st x = .ok st' → motive (seen ++ [x]) st')
    {xs : List α} (h : xs.foldlM f start = .ok out) : motive xs out := by
  have hcases := foldlM_cases (f := f) motive (fun _ => True) xs hstart (by
    intro seen x _ st _ hm
    cases hf : f st x with
    | error e => exact Or.inl ⟨e, trivial, rfl⟩
    | ok st' => exact Or.inr ⟨st', rfl, hstep seen x st st' hm hf⟩)
  rcases hcases with ⟨e, -, he⟩ | ⟨out', ho, hm⟩
  · rw [h] at he
    cases he
  · rw [h] at ho
    cases ho
    exact hm

variable {f : α → Except ε β} {e : ε}

/-- A loop over a list returns what each element returned, or raises what one raised. -/
theorem mapM_forall₂ (f : α → Except ε β) (xs : List α) :
    (∃ ys, xs.mapM f = .ok ys ∧ List.Forall₂ (fun x y => f x = .ok y) xs ys) ∨
    (∃ e, xs.mapM f = .error e ∧ ∃ x ∈ xs, f x = .error e) := by
  induction xs with
  | nil => exact Or.inl ⟨[], rfl, List.Forall₂.nil⟩
  | cons x xs ih =>
    cases hx : f x with
    | error e =>
      exact Or.inr ⟨e, by simp [List.mapM_cons, hx, bind, Except.bind], x, by simp, hx⟩
    | ok y =>
      rcases ih with ⟨ys, hys, hall⟩ | ⟨e, hys, z, hz, hze⟩
      · refine Or.inl ⟨y :: ys, ?_, List.Forall₂.cons hx hall⟩
        simp [List.mapM_cons, hx, hys, bind, Except.bind, pure, Except.pure]
      · exact Or.inr ⟨e, by simp [List.mapM_cons, hx, hys, bind, Except.bind], z,
          List.mem_cons_of_mem _ hz, hze⟩

theorem forall₂_of_mapM_ok {xs : List α} {ys : List β} (h : xs.mapM f = .ok ys) :
    List.Forall₂ (fun x y => f x = .ok y) xs ys := by
  rcases mapM_forall₂ f xs with ⟨zs, hzs, hall⟩ | ⟨e, herr, -⟩
  · rw [h] at hzs
    cases hzs
    exact hall
  · rw [h] at herr
    cases herr

theorem length_of_mapM_ok {xs : List α} {ys : List β} (h : xs.mapM f = .ok ys) :
    ys.length = xs.length :=
  (forall₂_of_mapM_ok h).length_eq.symm

theorem mem_of_mapM_ok {xs : List α} {ys : List β} (h : xs.mapM f = .ok ys) (y : β) :
    y ∈ ys ↔ ∃ x ∈ xs, f x = .ok y := by
  have hall := forall₂_of_mapM_ok h
  clear h
  induction hall with
  | nil => simp
  | @cons x z xs ys hx _ ih =>
    rw [List.mem_cons]
    constructor
    · rintro (rfl | hy)
      · exact ⟨x, by simp, hx⟩
      · obtain ⟨w, hw, hwy⟩ := ih.mp hy
        exact ⟨w, List.mem_cons_of_mem _ hw, hwy⟩
    · rintro ⟨w, hw, hwy⟩
      rcases List.mem_cons.mp hw with rfl | hw
      · rw [hx] at hwy
        cases hwy
        exact Or.inl rfl
      · exact Or.inr (ih.mpr ⟨w, hw, hwy⟩)

/-- Where a step returns on the same elements with the same readings, so does a loop. -/
theorem mapM_agree_of_perm {γ : Type} {g : β → γ} {xs xs' : List α}
    (h : (xs.map (fun x => (f x).toOption.map g)).Perm
      (xs'.map (fun x => (f x).toOption.map g))) :
    Agree (fun ys ys' => (ys.map g).Perm (ys'.map g)) (xs.mapM f) (xs'.mapM f) := by
  have hok : ∀ {zs : List α} {ys : List β}, zs.mapM f = .ok ys →
      zs.map (fun x => (f x).toOption.map g) = (ys.map g).map some := by
    intro zs ys hzs
    have hall := forall₂_of_mapM_ok hzs
    clear hzs
    induction hall with
    | nil => rfl
    | cons hx _ ih => rw [List.map_cons, List.map_cons, List.map_cons, ih, hx]; rfl
  have herror : ∀ {zs : List α} {e : ε}, zs.mapM f = .error e →
      none ∈ zs.map (fun x => (f x).toOption.map g) := by
    intro zs e hzs
    rcases mapM_forall₂ f zs with ⟨ys, hys, -⟩ | ⟨e', -, x, hx, hfx⟩
    · rw [hzs] at hys
      cases hys
    · exact List.mem_map.mpr ⟨x, hx, by rw [hfx]; rfl⟩
  have hnone : ∀ ys : List β, none ∉ (ys.map g).map some := by
    intro ys hin
    obtain ⟨z, -, hz⟩ := List.mem_map.mp hin
    cases hz
  cases hx : xs.mapM f with
  | error e =>
    cases hy : xs'.mapM f with
    | error e' => trivial
    | ok ys' =>
      have hin := h.mem_iff.mp (herror hx)
      rw [hok hy] at hin
      exact (hnone _ hin).elim
  | ok ys =>
    cases hy : xs'.mapM f with
    | error e' =>
      have hin := h.mem_iff.mpr (herror hy)
      rw [hok hx] at hin
      exact (hnone _ hin).elim
    | ok ys' =>
      rw [hok hx, hok hy] at h
      exact (List.map_perm_map_iff (Option.some_injective _)).mp h

theorem not_error_of_forall₂ {xs : List α} {ys : List β} {x : α}
    (h : List.Forall₂ (fun x y => f x = .ok y) xs ys) (hx : x ∈ xs) : f x ≠ .error e := by
  induction h with
  | nil => simp at hx
  | cons hok _ ih =>
    rcases List.mem_cons.mp hx with rfl | hx
    · rw [hok]
      exact fun h => by cases h
    · exact ih hx

/-- What distinct inputs give each other, the outputs have pairwise. -/
theorem pairwise_of_forall₂ {R : α → β → Prop} {S : β → β → Prop} {xs : List α} {ys : List β}
    (h : List.Forall₂ R xs ys) (hn : xs.Nodup)
    (hs : ∀ x x' y y', x ≠ x' → R x y → R x' y' → S y y') : ys.Pairwise S := by
  induction h with
  | nil => exact List.Pairwise.nil
  | @cons x y xs ys hxy hrest ih =>
    obtain ⟨hx, hn⟩ := List.nodup_cons.mp hn
    refine List.pairwise_cons.mpr ⟨fun y' hy' => ?_, ih hn⟩
    obtain ⟨i, hi, rfl⟩ := List.getElem_of_mem hy'
    have hlen := hrest.length_eq
    have hi' : i < xs.length := by omega
    have hx' : xs[i] ∈ xs := List.getElem_mem hi'
    exact hs x _ y _ (fun he => hx (he ▸ hx')) hxy (hrest.get (by omega) hi)

/-- Which rows are supplied decides the outcome of validating them all. -/
theorem mapM_sameRows (he : ∀ x e', f x = .error e' → e' = e) {xs xs' : List α}
    (h : SameRows xs xs') :
    (∃ ys ys', xs.mapM f = .ok ys ∧ xs'.mapM f = .ok ys' ∧ SameRows ys ys') ∨
    (xs.mapM f = .error e ∧ xs'.mapM f = .error e) := by
  rcases mapM_forall₂ f xs with ⟨ys, hys, hall⟩ | ⟨d, hys, x, hx, hxe⟩ <;>
    rcases mapM_forall₂ f xs' with ⟨ys', hys', hall'⟩ | ⟨d', hys', x', hx', hxe'⟩
  · refine Or.inl ⟨ys, ys', hys, hys', fun y => ?_⟩
    rw [mem_of_mapM_ok hys, mem_of_mapM_ok hys']
    exact exists_congr (fun x => and_congr_left' (h x))
  · exact absurd hxe' (not_error_of_forall₂ hall ((h x').mpr hx'))
  · exact absurd hxe (not_error_of_forall₂ hall' ((h x).mp hx))
  · exact Or.inr ⟨he x d hxe ▸ hys, he x' d' hxe' ▸ hys'⟩

end

/-- A list is mapped whole or not at all. -/
theorem mapM_option {α β : Type*} (f : α → Option β) (xs : List α) :
    xs.mapM f = if ∀ x ∈ xs, f x ≠ none then some (xs.filterMap f) else none := by
  induction xs with
  | nil => rfl
  | cons x xs ih =>
    rw [List.mapM_cons, ih]
    cases hx : f x with
    | none => simp [hx]
    | some y =>
      rw [List.filterMap_cons_some hx]
      simp only [List.forall_mem_cons, hx, ne_eq, reduceCtorEq, not_false_eq_true, true_and]
      split <;> rfl

end Sediment.Base
