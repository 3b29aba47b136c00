import Mathlib.Tactic

namespace Sediment.Base.Spans

inductive Mark where
  | opens | closes | passes
  deriving DecidableEq, Repr

section
variable {α σ : Type*} (mark : α → Mark)

/-- The spans of a sequence behind the open element `last`. -/
def spans (last : Option α) : List α → List (α × α)
  | [] => []
  | x :: rest =>
    match mark x with
    | .opens => spans (some x) rest
    | .passes => spans last rest
    | .closes => (last.map (fun o => (o, x))).toList ++ spans none rest

/-- `c` closes `o`: nothing but passing elements between them. -/
def Closes (xs : List α) (o c : α) : Prop :=
  ∃ front mid back, xs = front ++ o :: mid ++ c :: back ∧ mark o = .opens ∧ mark c = .closes ∧
    ∀ x ∈ mid, mark x = .passes

/-- Both elements of a span, span after span, stand in the sequence in this order: no place
is used twice. -/
theorem spans_sublist (last : Option α) (xs : List α) :
    ((spans mark last xs).flatMap (fun p => [p.1, p.2])).Sublist (last.toList ++ xs) := by
  induction xs generalizing last with
  | nil => simp [spans]
  | cons x rest ih =>
    rw [spans]
    split
    · have hrest := ih (some x)
      exact hrest.trans (List.sublist_append_right _ _)
    · exact (ih last).trans ((List.sublist_cons_self x rest).append_left _)
    · cases last with
      | none =>
        have hrest := ih none
        exact hrest.trans (List.sublist_cons_self x rest)
      | some o =>
        have hrest := ih none
        exact (hrest.cons_cons x).cons_cons o

/-- The open element a sequence leaves. -/
def lastOpen (last : Option α) : List α → Option α
  | [] => last
  | x :: rest =>
    match mark x with
    | .opens => lastOpen (some x) rest
    | .passes => lastOpen last rest
    | .closes => lastOpen none rest

theorem spans_append (last : Option α) (xs ys : List α) :
    spans mark last (xs ++ ys) = spans mark last xs ++ spans mark (lastOpen mark last xs) ys := by
  induction xs generalizing last with
  | nil => rfl
  | cons x rest ih =>
    rw [List.cons_append, spans, spans, lastOpen]
    cases hx : mark x with
    | opens => exact ih _
    | passes => exact ih _
    | closes => simp only [ih, List.append_assoc]

theorem lastOpen_append (last : Option α) (xs ys : List α) :
    lastOpen mark last (xs ++ ys) = lastOpen mark (lastOpen mark last xs) ys := by
  induction xs generalizing last with
  | nil => rfl
  | cons x rest ih =>
    rw [List.cons_append, lastOpen, lastOpen]
    cases mark x <;> exact ih _

variable {mark}

theorem lastOpen_passes {last : Option α} {xs : List α} (h : ∀ x ∈ xs, mark x = .passes) :
    lastOpen mark last xs = last := by
  induction xs with
  | nil => rfl
  | cons x rest ih =>
    obtain ⟨hx, hrest⟩ := List.forall_mem_cons.mp h
    rw [lastOpen, hx]
    exact ih hrest

/-- What is left open is behind it closed by nothing yet. -/
theorem lastOpen_eq_some {last : Option α} {xs : List α} {o : α}
    (h : lastOpen mark last xs = some o) :
    (last = some o ∧ ∀ x ∈ xs, mark x = .passes) ∨
      ∃ front mid, xs = front ++ o :: mid ∧ mark o = .opens ∧ ∀ x ∈ mid, mark x = .passes := by
  induction xs generalizing last with
  | nil => exact Or.inl ⟨h, by simp⟩
  | cons x rest ih =>
    rw [lastOpen] at h
    cases hx : mark x with
    | opens =>
      rw [hx] at h
      rcases ih h with ⟨heq, hall⟩ | ⟨front, mid, hsplit, ho, hmid⟩
      · cases heq
        exact Or.inr ⟨[], rest, rfl, hx, hall⟩
      · exact Or.inr ⟨x :: front, mid, by rw [hsplit]; rfl, ho, hmid⟩
    | passes =>
      rw [hx] at h
      rcases ih h with ⟨heq, hall⟩ | ⟨front, mid, hsplit, ho, hmid⟩
      · exact Or.inl ⟨heq, List.forall_mem_cons.mpr ⟨hx, hall⟩⟩
      · exact Or.inr ⟨x :: front, mid, by rw [hsplit]; rfl, ho, hmid⟩
    | closes =>
      rw [hx] at h
      rcases ih h with ⟨heq, -⟩ | ⟨front, mid, hsplit, ho, hmid⟩
      · cases heq
      · exact Or.inr ⟨x :: front, mid, by rw [hsplit]; rfl, ho, hmid⟩

/-- The span that an element ends. -/
theorem mem_spans_split {last : Option α} {xs : List α} {o c : α}
    (h : (o, c) ∈ spans mark last xs) :
    ∃ front back, xs = front ++ c :: back ∧ mark c = .closes ∧
      lastOpen mark last front = some o := by
  induction xs generalizing last with
  | nil => cases h
  | cons x rest ih =>
    rw [spans] at h
    cases hx : mark x with
    | opens =>
      rw [hx] at h
      obtain ⟨front, back, hsplit, hc, ho⟩ := ih h
      exact ⟨x :: front, back, by rw [hsplit]; rfl, hc, by rw [lastOpen, hx]; exact ho⟩
    | passes =>
      rw [hx] at h
      obtain ⟨front, back, hsplit, hc, ho⟩ := ih h
      exact ⟨x :: front, back, by rw [hsplit]; rfl, hc, by rw [lastOpen, hx]; exact ho⟩
    | closes =>
      rw [hx] at h
      have hrest : (o, c) ∈ spans mark none rest →
          ∃ front back, x :: rest = front ++ c :: back ∧ mark c = .closes ∧
            lastOpen mark last front = some o := by
        intro hmem
        obtain ⟨front, back, hsplit, hc, ho⟩ := ih hmem
        exact ⟨x :: front, back, by rw [hsplit]; rfl, hc, by rw [lastOpen, hx]; exact ho⟩
      rcases List.mem_append.mp h with hlast | hmem
      · rw [Option.mem_toList, Option.map_eq_some_iff] at hlast
        obtain ⟨p, hp, heq⟩ := hlast
        cases heq
        exact ⟨[], rest, rfl, hx, hp⟩
      · exact hrest hmem

/-- The spans are exactly the pairs of which the second closes the first. -/
theorem mem_spans {xs : List α} {o c : α} : (o, c) ∈ spans mark none xs ↔ Closes mark xs o c := by
  constructor
  · intro h
    obtain ⟨front, back, hsplit, hc, ho⟩ := mem_spans_split h
    rcases lastOpen_eq_some ho with ⟨hnone, -⟩ | ⟨before, mid, hfront, hopen, hmid⟩
    · cases hnone
    · exact ⟨before, mid, back, by rw [hsplit, hfront], hopen, hc, hmid⟩
  · intro h
    obtain ⟨front, mid, back, hsplit, ho, hc, hmid⟩ := h
    have hlast : lastOpen mark none (front ++ o :: mid) = some o := by
      rw [lastOpen_append, lastOpen, ho]
      exact lastOpen_passes hmid
    rw [hsplit, spans_append, hlast, spans, hc, List.mem_append]
    exact Or.inr (List.mem_append_left _ (List.mem_singleton.mpr rfl))

variable (mark) in
/-- A loop that keeps the open element and evaluates each span as it closes. -/
def visit (evaluate : σ → α → α → σ) (s : Option α × σ) (x : α) : Option α × σ :=
  match mark x with
  | .opens => (some x, s.2)
  | .passes => s
  | .closes =>
    match s.1 with
    | none => s
    | some o => (none, evaluate s.2 o x)

theorem foldl_visit (evaluate : σ → α → α → σ) (last : Option α) (s : σ) (xs : List α) :
    (xs.foldl (visit mark evaluate) (last, s)).2 =
      (spans mark last xs).foldl (fun s p => evaluate s p.1 p.2) s := by
  induction xs generalizing last s with
  | nil => rfl
  | cons x rest ih =>
    rw [List.foldl_cons, spans, visit]
    cases mark x with
    | opens => exact ih _ _
    | passes => exact ih _ _
    | closes =>
      cases last with
      | none => exact ih _ _
      | some o => exact ih _ _

end

end Sediment.Base.Spans
