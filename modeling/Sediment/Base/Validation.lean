import Mathlib.Tactic

namespace Sediment.Base

inductive Validation (ε χ α : Type) where
  | ok (value : α)
  | invalid (errors : List ε)
  | raised (exception : χ)
  deriving DecidableEq, Repr

namespace Validation
variable {ε χ α β : Type}

/-- Both parts are validated. An exception of either one is all that is left. -/
def seq : Validation ε χ (α → β) → Validation ε χ α → Validation ε χ β
  | .raised e, _ => .raised e
  | .ok _, .raised e => .raised e
  | .invalid _, .raised e => .raised e
  | .ok f, .ok a => .ok (f a)
  | .ok _, .invalid errors => .invalid errors
  | .invalid errors, .ok _ => .invalid errors
  | .invalid errors, .invalid more => .invalid (errors ++ more)

/-- What comes next needs the value of the first part. -/
def bind (x : Validation ε χ α) (f : α → Validation ε χ β) : Validation ε χ β :=
  match x with
  | .ok a => f a
  | .invalid errors => .invalid errors
  | .raised e => .raised e

def mapErrors (f : ε → ε) : Validation ε χ α → Validation ε χ α
  | .invalid errors => .invalid (errors.map f)
  | x => x

/-- Every item is validated, and its errors are placed by its position. -/
def each (check : α → Validation ε χ β) (place : Nat → ε → ε) :
    Nat → List α → Validation ε χ (List β)
  | _, [] => .ok []
  | i, a :: rest =>
    seq (seq (.ok List.cons) (mapErrors (place i) (check a))) (each check place (i + 1) rest)

def Raises (x : Validation ε χ α) : Prop := ∃ e, x = .raised e

def value? : Validation ε χ α → Option α
  | .ok a => some a
  | _ => none

def raised? : Validation ε χ α → Option χ
  | .raised e => some e
  | _ => none

variable {f : Validation ε χ (α → β)} {x : Validation ε χ α} {a : α} {b : β}

theorem seq_eq_ok : seq f x = .ok b ↔ ∃ g a, f = .ok g ∧ x = .ok a ∧ g a = b := by
  cases f <;> cases x <;> simp [seq]

theorem seq_raises : (seq f x).Raises ↔ f.Raises ∨ x.Raises := by
  cases f <;> cases x <;> simp [seq, Raises]

theorem bind_eq_ok {k : α → Validation ε χ β} :
    bind x k = .ok b ↔ ∃ a, x = .ok a ∧ k a = .ok b := by
  cases x <;> simp [bind]

theorem bind_raises {k : α → Validation ε χ β} :
    (bind x k).Raises ↔ x.Raises ∨ ∃ a, x = .ok a ∧ (k a).Raises := by
  cases x <;> simp [bind, Raises]

@[simp] theorem mapErrors_eq_ok {g : ε → ε} : mapErrors g x = .ok a ↔ x = .ok a := by
  cases x <;> simp [mapErrors]

@[simp] theorem mapErrors_raises {g : ε → ε} : (mapErrors g x).Raises ↔ x.Raises := by
  cases x <;> simp [mapErrors, Raises]

@[simp] theorem ok_raises : ¬(.ok a : Validation ε χ α).Raises := by simp [Raises]

@[simp] theorem invalid_raises {errors : List ε} :
    ¬(.invalid errors : Validation ε χ α).Raises := by simp [Raises]

@[simp] theorem raised_raises {e : χ} : (.raised e : Validation ε χ α).Raises := ⟨e, rfl⟩

theorem value?_eq_some : x.value? = some a ↔ x = .ok a := by
  cases x <;> simp [value?]

theorem raised?_eq_some {e : χ} : x.raised? = some e ↔ x = .raised e := by
  cases x <;> simp [raised?]

section
variable {check : α → Validation ε χ β} {place : Nat → ε → ε}

theorem each_eq_ok {xs : List α} {ys : List β} (i : Nat) :
    each check place i xs = .ok ys ↔ List.Forall₂ (fun x y => check x = .ok y) xs ys := by
  induction xs generalizing i ys with
  | nil =>
    rw [each, List.forall₂_nil_left_iff, Validation.ok.injEq]
    exact eq_comm
  | cons x xs ih =>
    rw [each, seq_eq_ok]
    constructor
    · rintro ⟨g, rest, hg, hrest, rfl⟩
      obtain ⟨_, y, ⟨⟩, hy, rfl⟩ := seq_eq_ok.mp hg
      exact .cons (mapErrors_eq_ok.mp hy) ((ih _).mp hrest)
    · intro h
      cases h with
      | cons hy hrest =>
        refine ⟨_, _, ?_, (ih _).mpr hrest, rfl⟩
        exact seq_eq_ok.mpr ⟨_, _, rfl, mapErrors_eq_ok.mpr hy, rfl⟩

theorem each_raises {xs : List α} (i : Nat) :
    (each check place i xs).Raises ↔ ∃ x ∈ xs, (check x).Raises := by
  induction xs generalizing i with
  | nil => simp [each]
  | cons x xs ih =>
    rw [each, seq_raises, seq_raises, mapErrors_raises, ih, List.exists_mem_cons_iff]
    simp

end

/-- A check lets through the inputs that `R` relates to a value, as `Q` relates what it makes
of them to that value, and no exception ends it where `B` holds. -/
structure Settles {γ : Type} (check : α → Validation ε χ β) (R : α → γ → Prop)
    (Q : β → γ → Prop) (B : α → Prop) : Prop where
  raises : ∀ v, (check v).Raises ↔ ¬B v
  sound : ∀ v b, check v = .ok b → ∃ c, R v c ∧ Q b c
  complete : ∀ v c, R v c → B v → ∃ b, check v = .ok b
  unique : ∀ v c c', R v c → R v c' → c = c'

namespace Settles
variable {γ : Type} {check : α → Validation ε χ β} {R : α → γ → Prop} {Q : β → γ → Prop}
  {B : α → Prop}

/-- What is accepted is related to the one value of the input. -/
theorem related (h : Settles check R Q B) {v : α} {b : β} {c : γ} (hb : check v = .ok b)
    (hc : R v c) : Q b c := by
  obtain ⟨c', hc', hq⟩ := h.sound v b hb
  rw [h.unique v c c' hc hc']
  exact hq

theorem each (h : Settles check R Q B) (place : Nat → ε → ε) (i : Nat) :
    Settles (Validation.each check place i) (List.Forall₂ R) (List.Forall₂ Q)
      (fun xs => ∀ x ∈ xs, B x) where
  raises xs := by
    rw [each_raises]
    simp only [h.raises]
    push Not
    rfl
  sound xs ys hxs := by
    rw [each_eq_ok] at hxs
    induction hxs with
    | nil => exact ⟨[], .nil, .nil⟩
    | cons hx hxs ih =>
      obtain ⟨c, hc, hq⟩ := h.sound _ _ hx
      obtain ⟨cs, hcs, hqs⟩ := ih
      exact ⟨c :: cs, .cons hc hcs, .cons hq hqs⟩
  complete xs cs hcs hb := by
    induction hcs generalizing i with
    | nil => exact ⟨[], rfl⟩
    | cons hc hcs ih =>
      obtain ⟨hhead, htail⟩ := List.forall_mem_cons.mp hb
      obtain ⟨b, hx⟩ := h.complete _ _ hc hhead
      obtain ⟨bs, hxs⟩ := ih (i + 1) htail
      rw [each_eq_ok] at hxs
      exact ⟨b :: bs, (each_eq_ok i).mpr (.cons hx hxs)⟩
  unique xs cs cs' hcs hcs' := by
    induction hcs generalizing cs' with
    | nil =>
      cases hcs'
      rfl
    | cons hc hcs ih =>
      cases hcs' with
      | cons hc' hrest => rw [h.unique _ _ _ hc hc', ih _ hrest]

end Settles

end Validation

end Sediment.Base
