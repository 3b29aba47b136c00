import Mathlib.MeasureTheory.Measure.Lebesgue.Basic

namespace Sediment.Base.Intervals

section
variable {α : Type*} [LinearOrder α]

/-- Starts ascend from the open interval on, and every interval ends behind its start. -/
structure Ascending (current : α × α) (rest : List (α × α)) : Prop where
  wellFormed : ∀ p ∈ current :: rest, p.1 ≤ p.2
  starts : (current :: rest).Pairwise (fun a b => a.1 ≤ b.1)

theorem Ascending.next {current p : α × α} {rest : List (α × α)}
    (h : Ascending current (p :: rest)) : Ascending p rest where
  wellFormed := fun q hq => h.wellFormed q (List.mem_cons_of_mem _ hq)
  starts := (List.pairwise_cons.mp h.starts).2

end

section
variable {α : Type*} [LinearOrder α] [AddCommGroup α]

def length (p : α × α) : α := p.2 - p.1

/-- The lengths between consecutive intervals. -/
def gaps : List (α × α) → List α
  | a :: b :: rest => (b.1 - a.2) :: gaps (b :: rest)
  | _ => []

end

end Sediment.Base.Intervals
