import Mathlib.Data.List.Basic

namespace Sediment.Base.Shapes

variable {α : Type}

/-- Whether a list has one element for each test, and each passes its own. -/
def fits : List (α → Bool) → List α → Bool
  | [], [] => true
  | p :: ps, a :: l => p a && fits ps l
  | _, _ => false

theorem fits_length {ps : List (α → Bool)} {l : List α} (h : fits ps l) :
    l.length = ps.length := by
  induction ps generalizing l with
  | nil =>
    cases l with
    | nil => rfl
    | cons a l => simp [fits] at h
  | cons p ps ih =>
    cases l with
    | nil => simp [fits] at h
    | cons a l =>
      simp only [fits, Bool.and_eq_true] at h
      simp only [List.length_cons, ih h.2]

theorem fits_append {ps qs : List (α → Bool)} {l : List α} (h : fits (ps ++ qs) l) :
    ∃ l₁ l₂, l = l₁ ++ l₂ ∧ fits ps l₁ ∧ fits qs l₂ := by
  induction ps generalizing l with
  | nil => exact ⟨[], l, rfl, rfl, h⟩
  | cons p ps ih =>
    cases l with
    | nil => simp [fits] at h
    | cons a l =>
      simp only [List.cons_append, fits, Bool.and_eq_true] at h
      obtain ⟨l₁, l₂, rfl, h₁, h₂⟩ := ih h.2
      exact ⟨a :: l₁, l₂, rfl, by simp [fits, h.1, h₁], h₂⟩

/-- The last test is about the last element. -/
theorem fits_concat {ps : List (α → Bool)} {p : α → Bool} {l : List α}
    (h : fits (ps ++ [p]) l) : ∃ init a, l = init ++ [a] ∧ p a := by
  obtain ⟨init, rest, rfl, -, hr⟩ := fits_append h
  have hlen := fits_length hr
  obtain ⟨a, rfl⟩ := List.length_eq_one_iff.mp hlen
  exact ⟨init, a, rfl, by simpa [fits] using hr⟩

end Sediment.Base.Shapes
