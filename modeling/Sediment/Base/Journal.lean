import Mathlib.Tactic

namespace Sediment.Base

class Effects (σ ω : Type) where
  apply : ω → σ → σ

/-- The effects of a computation that nobody disturbs, and how it ends. -/
def Journal (σ ω ε α : Type) := σ → List ω × Except ε α

namespace Journal
variable {σ ω ε α β : Type} [Effects σ ω]

/-- The state that a list of effects leads to. -/
def after (s : σ) (ops : List ω) : σ := ops.foldl (fun s o => Effects.apply o s) s

@[simp] theorem after_nil (s : σ) : after s ([] : List ω) = s := rfl

@[simp] theorem after_cons (s : σ) (o : ω) (ops : List ω) :
    after s (o :: ops) = after (Effects.apply o s) ops := rfl

theorem after_append (s : σ) (ops ops' : List ω) :
    after s (ops ++ ops') = after (after s ops) ops' := List.foldl_append

protected def pure (a : α) : Journal σ ω ε α := fun _ => ([], .ok a)

/-- The rest starts from the state that the first effects lead to. -/
protected def bind (m : Journal σ ω ε α) (f : α → Journal σ ω ε β) : Journal σ ω ε β := fun s =>
  match (m s).2 with
  | .error e => ((m s).1, .error e)
  | .ok a => ((m s).1 ++ (f a (after s (m s).1)).1, (f a (after s (m s).1)).2)

instance : Monad (Journal σ ω ε) where
  pure := Journal.pure
  bind := Journal.bind

def read : Journal σ ω ε σ := fun s => ([], .ok s)

def perform (o : ω) : Journal σ ω ε Unit := fun _ => ([o], .ok ())

def fail (e : ε) : Journal σ ω ε α := fun _ => ([], .error e)

/-- A value that may be an error instead. -/
def lift (r : Except ε α) : Journal σ ω ε α := fun _ => ([], r)

/-- The end of a computation as a value. -/
def caught (m : Journal σ ω ε α) : Journal σ ω ε (Except ε α) :=
  fun s => ((m s).1, .ok (m s).2)

def each {ι : Type} (f : ι → Journal σ ω ε Unit) : List ι → Journal σ ω ε Unit
  | [] => pure ()
  | x :: xs => do
    f x
    each f xs

/-- What the items give, in their order, without those that give nothing. -/
def collect {ι : Type} (f : ι → Journal σ ω ε (Option α)) : List ι → Journal σ ω ε (List α)
  | [] => pure []
  | x :: xs => do
    let found ← f x
    let rest ← collect f xs
    pure (found.toList ++ rest)

/-- Every effect is allowed in the state that it finds. -/
def Allowed (G : σ → ω → Prop) : σ → List ω → Prop
  | _, [] => True
  | s, o :: ops => G s o ∧ Allowed G (Effects.apply o s) ops

def Ends (Q : α → σ → Prop) (E : ε → σ → Prop) : Except ε α → σ → Prop
  | .ok a, s => Q a s
  | .error e, s => E e s

/-- From a state with `P` all effects are allowed, and the computation ends with `Q`, or with `E`
when it fails. -/
def Triple (G : σ → ω → Prop) (P : σ → Prop) (m : Journal σ ω ε α) (Q : α → σ → Prop)
    (E : ε → σ → Prop) : Prop :=
  ∀ s, P s → Allowed G s (m s).1 ∧ Ends Q E (m s).2 (after s (m s).1)

variable {G : σ → ω → Prop} {P : σ → Prop} {Q : α → σ → Prop} {R : β → σ → Prop}
  {E : ε → σ → Prop}

theorem allowed_append {s : σ} {ops ops' : List ω} :
    Allowed G s (ops ++ ops') ↔ Allowed G s ops ∧ Allowed G (after s ops) ops' := by
  induction ops generalizing s with
  | nil => simp [Allowed]
  | cons o ops ih => simp [Allowed, ih, and_assoc]

theorem Triple.pure {a : α} (h : ∀ s, P s → Q a s) :
    Triple G P (Pure.pure a : Journal σ ω ε α) Q E :=
  fun s hs => ⟨trivial, h s hs⟩

theorem Triple.bind {m : Journal σ ω ε α} {f : α → Journal σ ω ε β} (hm : Triple G P m Q E)
    (hf : ∀ a, Triple G (Q a) (f a) R E) : Triple G P (m >>= f) R E := by
  intro s hs
  obtain ⟨hallowed, hends⟩ := hm s hs
  change Allowed G s (Journal.bind m f s).1 ∧
    Ends R E (Journal.bind m f s).2 (after s (Journal.bind m f s).1)
  unfold Journal.bind
  cases hr : (m s).2 with
  | error e =>
    rw [hr] at hends
    exact ⟨hallowed, hends⟩
  | ok a =>
    rw [hr] at hends
    obtain ⟨hallowed', hends'⟩ := hf a _ hends
    simp only
    rw [after_append, allowed_append]
    exact ⟨⟨hallowed, hallowed'⟩, hends'⟩

/-- What is read is the state itself. -/
theorem Triple.read {f : σ → Journal σ ω ε α}
    (h : ∀ d, P d → Triple G (fun s => s = d ∧ P s) (f d) Q E) :
    Triple G P (Journal.read >>= f) Q E := by
  intro s hs
  exact h s hs s ⟨rfl, hs⟩

theorem Triple.perform {o : ω} {D : Unit → σ → Prop}
    (h : ∀ s, P s → G s o ∧ D () (Effects.apply o s)) :
    Triple G P (Journal.perform o : Journal σ ω ε Unit) D E :=
  fun s hs => ⟨⟨(h s hs).1, trivial⟩, (h s hs).2⟩

theorem Triple.fail {e : ε} (h : ∀ s, P s → E e s) : Triple G P (Journal.fail e) Q E :=
  fun s hs => ⟨trivial, h s hs⟩

theorem Triple.lift {r : Except ε α} (hok : ∀ a, r = .ok a → ∀ s, P s → Q a s)
    (herror : ∀ e, r = .error e → ∀ s, P s → E e s) : Triple G P (Journal.lift r) Q E := by
  intro s hs
  refine ⟨trivial, ?_⟩
  cases r with
  | ok a => exact hok a rfl s hs
  | error e => exact herror e rfl s hs

theorem Triple.consequence {P' : σ → Prop} {Q' : α → σ → Prop} {E' : ε → σ → Prop}
    {m : Journal σ ω ε α} (h : Triple G P' m Q' E') (hp : ∀ s, P s → P' s)
    (hq : ∀ a s, Q' a s → Q a s) (he : ∀ e s, E' e s → E e s) : Triple G P m Q E := by
  intro s hs
  obtain ⟨hallowed, hends⟩ := h s (hp s hs)
  refine ⟨hallowed, ?_⟩
  cases hr : (m s).2 with
  | ok a =>
    rw [hr] at hends
    exact hq a _ hends
  | error e =>
    rw [hr] at hends
    exact he e _ hends

/-- However a computation ends, it has ended. -/
theorem Triple.caught {m : Journal σ ω ε α} {F : Except ε α → σ → Prop}
    (h : Triple G P m (fun a => F (.ok a)) (fun e => F (.error e))) :
    Triple G P (Journal.caught m) F E := by
  intro s hs
  obtain ⟨hallowed, hends⟩ := h s hs
  refine ⟨hallowed, ?_⟩
  change F (m s).2 (after s (m s).1)
  cases hr : (m s).2 with
  | ok a =>
    rw [hr] at hends
    exact hends
  | error e =>
    rw [hr] at hends
    exact hends

/-- A loop keeps an invariant of the items that are left. -/
theorem Triple.each {ι : Type} {f : ι → Journal σ ω ε Unit} {I : List ι → σ → Prop}
    (hstep : ∀ x xs, Triple G (I (x :: xs)) (f x) (fun _ => I xs) E) (xs : List ι) :
    Triple G (I xs) (Journal.each f xs) (fun _ => I []) E := by
  induction xs with
  | nil => exact Triple.pure (fun _ hs => hs)
  | cons x xs ih => exact Triple.bind (hstep x xs) (fun _ => ih)

/-- The same for a loop that gathers, with what is gathered so far. -/
theorem Triple.collect {ι : Type} {f : ι → Journal σ ω ε (Option α)}
    {I : List ι → List α → σ → Prop}
    (hstep : ∀ x xs as, Triple G (I (x :: xs) as) (f x)
      (fun found => I xs (as ++ found.toList)) E) (xs : List ι) (as : List α) :
    Triple G (I xs as) (Journal.collect f xs) (fun rest => I [] (as ++ rest)) E := by
  induction xs generalizing as with
  | nil => exact Triple.pure (fun _ hs => by rwa [List.append_nil])
  | cons x xs ih =>
    refine Triple.bind (hstep x xs as) (fun found => ?_)
    refine Triple.bind (ih (as ++ found.toList)) (fun rest => ?_)
    refine Triple.pure (fun s hs => ?_)
    rwa [← List.append_assoc]

theorem Allowed.take {s : σ} {ops : List ω} (h : Allowed G s ops) (n : Nat) :
    Allowed G s (ops.take n) := by
  rw [← List.take_append_drop n ops, allowed_append] at h
  exact h.1

/-- What every allowed effect keeps holds all along the computation, and behind it. -/
theorem Allowed.keeps {I : σ → Prop} (hstep : ∀ s o, G s o → I s → I (Effects.apply o s)) {s : σ}
    {ops : List ω} (h : Allowed G s ops) (hs : I s) : I (after s ops) := by
  induction ops generalizing s with
  | nil => exact hs
  | cons o ops ih => exact ih h.2 (hstep s o h.1 hs)

theorem bind_result (m : Journal σ ω ε α) (f : α → Journal σ ω ε β) (s : σ) :
    ((m >>= f) s).2 = (m s).2.bind (fun a => (f a (after s (m s).1)).2) := by
  change (Journal.bind m f s).2 = _
  unfold Journal.bind
  cases (m s).2 <;> rfl

theorem bind_silent {m : Journal σ ω ε α} {f : α → Journal σ ω ε β} {s : σ} {a : α}
    (h : m s = ([], .ok a)) : (m >>= f) s = f a s := by
  change Journal.bind m f s = f a s
  rw [Journal.bind, h]
  rfl

theorem read_silent {f : σ → Journal σ ω ε α} (s : σ) :
    ((Journal.read : Journal σ ω ε σ) >>= f) s = f s s := bind_silent rfl

theorem lift_silent {r : Except ε α} {f : α → Journal σ ω ε β} {s : σ} {a : α} (h : r = .ok a) :
    ((Journal.lift r : Journal σ ω ε α) >>= f) s = f a s :=
  bind_silent (by rw [h]; rfl)

theorem each_silent {ι : Type} {f : ι → Journal σ ω ε Unit} {s : σ} {xs : List ι}
    (h : ∀ x ∈ xs, f x s = ([], .ok ())) : each f xs s = ([], .ok ()) := by
  induction xs with
  | nil => rfl
  | cons x xs ih =>
    rw [each, bind_silent (h x (by simp))]
    exact ih (fun y hy => h y (by simp [hy]))

theorem collect_silent {ι : Type} {f : ι → Journal σ ω ε (Option α)} {g : ι → Option α} {s : σ}
    {xs : List ι} (h : ∀ x ∈ xs, f x s = ([], .ok (g x))) :
    collect f xs s = ([], .ok (xs.filterMap g)) := by
  induction xs with
  | nil => rfl
  | cons x xs ih =>
    rw [collect, bind_silent (h x (by simp)), bind_silent (ih (fun y hy => h y (by simp [hy])))]
    cases hx : g x <;> simp [hx] <;> rfl

end Journal
end Sediment.Base
