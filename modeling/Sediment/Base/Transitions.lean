import Mathlib.Logic.Function.Basic
import Mathlib.Logic.Relation

namespace Sediment.Base.Transitions

structure System (σ ε : Type*) where
  start : σ → Prop
  step : σ → ε → σ → Prop

structure Move (σ ε : Type*) where
  before : σ
  label : ε
  after : σ

section
variable {σ ε : Type*} {M : System σ ε}

/-- The moves made since a start state, and the state they lead to. -/
inductive System.Run (M : System σ ε) : List (Move σ ε) → σ → Prop where
  | start {s : σ} (h : M.start s) : M.Run [] s
  | move {ms : List (Move σ ε)} {s t : σ} {e : ε} (h : M.Run ms s) (hs : M.step s e t) :
      M.Run (ms ++ [⟨s, e, t⟩]) t

/-- What holds at the start, and after every admitted move before which it held, holds in
whatever state a run of admitted moves reaches. -/
theorem System.Run.invariant_where {I : σ → Prop} {A : Move σ ε → Prop}
    (hstart : ∀ s, M.start s → I s)
    (hstep : ∀ m, A m → M.step m.before m.label m.after → I m.before → I m.after)
    {ms : List (Move σ ε)} {s : σ} (h : M.Run ms s) (hok : ∀ m ∈ ms, A m) : I s := by
  induction h with
  | start h => exact hstart _ h
  | @move ms s t e h hs ih =>
    have hbefore : I s := ih (fun m hm => hok m (List.mem_append_left _ hm))
    exact hstep ⟨s, e, t⟩ (hok _ (by simp)) hs hbefore

theorem System.Run.invariant {I : σ → Prop} (hstart : ∀ s, M.start s → I s)
    (hstep : ∀ s e t, M.step s e t → I s → I t)
    {ms : List (Move σ ε)} {s : σ} (h : M.Run ms s) : I s :=
  h.invariant_where (A := fun _ => True) hstart (fun m _ hs hi => hstep _ m.label _ hs hi)
    (fun _ _ => trivial)

/-- Every move of a run of admitted moves starts from a state with the invariant. -/
theorem System.Run.moves_where {I : σ → Prop} {A : Move σ ε → Prop}
    (hstart : ∀ s, M.start s → I s)
    (hstep : ∀ m, A m → M.step m.before m.label m.after → I m.before → I m.after)
    {ms : List (Move σ ε)} {s : σ} (h : M.Run ms s) (hok : ∀ m ∈ ms, A m) :
    ∀ m ∈ ms, I m.before ∧ M.step m.before m.label m.after := by
  induction h with
  | start h => simp
  | @move ms s t e h hs ih =>
    have hpast : ∀ m ∈ ms, A m := fun m hm => hok m (List.mem_append_left _ hm)
    intro m hm
    rcases List.mem_append.mp hm with hm | hm
    · exact ih hpast m hm
    · obtain rfl := List.mem_singleton.mp hm
      exact ⟨h.invariant_where hstart hstep hpast, hs⟩

/-- The moves from one state to another. -/
inductive System.Path (M : System σ ε) (s : σ) : List (Move σ ε) → σ → Prop where
  | here : M.Path s [] s
  | move {ms : List (Move σ ε)} {t u : σ} {e : ε} (h : M.Path s ms t) (hs : M.step t e u) :
      M.Path s (ms ++ [⟨t, e, u⟩]) u

theorem System.Path.trans {s t u : σ} {ms ms' : List (Move σ ε)} (h : M.Path s ms t)
    (h' : M.Path t ms' u) : M.Path s (ms ++ ms') u := by
  induction h' with
  | here => rwa [List.append_nil]
  | move _ hs ih =>
    rw [← List.append_assoc]
    exact ih.move hs

/-- A run goes on along a path. -/
theorem System.Run.along {s t : σ} {ms ms' : List (Move σ ε)} (h : M.Run ms s)
    (h' : M.Path s ms' t) : M.Run (ms ++ ms') t := by
  induction h' with
  | here => rwa [List.append_nil]
  | move _ hs ih =>
    rw [← List.append_assoc]
    exact ih.move hs

theorem System.Path.invariant_where {I : σ → Prop} {A : Move σ ε → Prop}
    (hstep : ∀ m, A m → M.step m.before m.label m.after → I m.before → I m.after)
    {s : σ} {ms : List (Move σ ε)} {t : σ} (h : M.Path s ms t) (hs : I s)
    (hok : ∀ m ∈ ms, A m) : I t := by
  induction h with
  | here => exact hs
  | @move ms t u e h hs' ih =>
    have hbefore : I t := ih (fun m hm => hok m (List.mem_append_left _ hm))
    exact hstep ⟨t, e, u⟩ (hok _ (by simp)) hs' hbefore

end

section
variable {ι φ γ : Type*}

/-- A program run by many processes. `act p a g b g'`: process `p` at the point `a`, finding
`g` in what is shared, may go on to `b` and leave `g'`. -/
structure Program (ι φ γ : Type*) where
  boot : γ → Prop
  entry : φ
  act : ι → φ → γ → φ → γ → Prop

structure World (ι φ γ : Type*) where
  shared : γ
  phase : ι → φ

/-- What one process can come to on its own. -/
def Program.Goes (P : Program ι φ γ) (p : ι) : φ × γ → φ × γ → Prop :=
  Relation.ReflTransGen (fun x y => P.act p x.1 x.2 y.1 y.2)

theorem Program.Goes.then {P : Program ι φ γ} {p : ι} {x : φ × γ} {a b : φ} {g g' : γ}
    (h : P.Goes p x (a, g)) (hs : P.act p a g b g') : P.Goes p x (b, g') :=
  Relation.ReflTransGen.tail h hs

theorem Program.Goes.after {P : Program ι φ γ} {p : ι} {y : φ × γ} {a b : φ} {g g' : γ}
    (hs : P.act p a g b g') (h : P.Goes p (b, g') y) : P.Goes p (a, g) y :=
  Relation.ReflTransGen.head (b := (b, g')) hs h

variable [DecidableEq ι]

/-- Any interleaving: each step is one action of one process. -/
def Program.system (P : Program ι φ γ) : System (World ι φ γ) ι where
  start w := P.boot w.shared ∧ ∀ p, w.phase p = P.entry
  step w p w' := ∃ b, P.act p (w.phase p) w.shared b w'.shared ∧
    w'.phase = Function.update w.phase p b

/-- What one process does on its own is a path. -/
theorem Program.Goes.path {P : Program ι φ γ} {p : ι} {x y : φ × γ} (h : P.Goes p x y)
    {w : World ι φ γ} (hx : x = (w.phase p, w.shared)) :
    ∃ ms, P.system.Path w ms ⟨y.2, Function.update w.phase p y.1⟩ := by
  induction h with
  | refl =>
    subst hx
    exact ⟨[], by rw [Function.update_eq_self]; exact .here⟩
  | @tail y z hxy hyz ih =>
    obtain ⟨ms, hpath⟩ := ih
    refine ⟨_, hpath.move (e := p) ⟨z.1, ?_, ?_⟩⟩
    · simpa only [Function.update_self] using hyz
    · simp only [Function.update_idem]

/-- A run can be continued by what one process does on its own. -/
theorem Program.Goes.run {P : Program ι φ γ} {p : ι} {x y : φ × γ} (h : P.Goes p x y)
    {ms : List (Move (World ι φ γ) ι)} {w : World ι φ γ} (hr : P.system.Run ms w)
    (hx : x = (w.phase p, w.shared)) :
    ∃ ms', P.system.Run ms' ⟨y.2, Function.update w.phase p y.1⟩ := by
  obtain ⟨ms', hpath⟩ := h.path hx
  exact ⟨_, hr.along hpath⟩

/-- A lock: whoever comes to hold it found it free, and nobody else lets go of it. -/
structure Program.Locked (P : Program ι φ γ) (holds : φ → Prop) (locked : γ → Prop) : Prop where
  entry : ¬ holds P.entry
  take : ∀ p a g b g', P.act p a g b g' → ¬ holds a → holds b → ¬ locked g ∧ locked g'
  keep : ∀ p a g b g', P.act p a g b g' → holds a → holds b → locked g → locked g'
  others : ∀ p a g b g', P.act p a g b g' → ¬ holds a → locked g → locked g'

/-- At most one process is inside, and the lock is taken while one is. -/
structure Exclusive (holds : φ → Prop) (locked : γ → Prop) (w : World ι φ γ) : Prop where
  locked : ∀ p, holds (w.phase p) → locked w.shared
  unique : ∀ p q, holds (w.phase p) → holds (w.phase q) → p = q

variable {P : Program ι φ γ} {holds : φ → Prop} {locked : γ → Prop}

theorem Program.Locked.exclusive_start (h : P.Locked holds locked) (w : World ι φ γ)
    (hw : P.system.start w) : Exclusive holds locked w := by
  have hnone : ∀ p, ¬ holds (w.phase p) := fun p => hw.2 p ▸ h.entry
  exact ⟨fun p hp => absurd hp (hnone p), fun p _ hp => absurd hp (hnone p)⟩

theorem Program.Locked.exclusive_step (h : P.Locked holds locked) (w : World ι φ γ) (p : ι)
    (w' : World ι φ γ) (hs : P.system.step w p w') (hw : Exclusive holds locked w) :
    Exclusive holds locked w' := by
  obtain ⟨b, hact, hphase⟩ := hs
  have hself : w'.phase p = b := by rw [hphase, Function.update_self]
  have hother : ∀ q, q ≠ p → w'.phase q = w.phase q := fun q hq => by
    rw [hphase, Function.update_of_ne hq]
  -- another process that is inside keeps the one that moves outside, with the lock taken
  have hframe : ∀ q, q ≠ p → holds (w'.phase q) → ¬ holds b ∧ locked w'.shared := by
    intro q hq hin
    rw [hother q hq] at hin
    have hout : ¬ holds (w.phase p) := fun hp => hq (hw.unique q p hin hp)
    have htaken := hw.locked q hin
    exact ⟨fun hb => (h.take p _ _ _ _ hact hout hb).1 htaken, h.others p _ _ _ _ hact hout htaken⟩
  constructor
  · intro q hin
    by_cases hq : q = p
    · subst hq
      rw [hself] at hin
      by_cases hout : holds (w.phase q)
      · exact h.keep q _ _ _ _ hact hout hin (hw.locked q hout)
      · exact (h.take q _ _ _ _ hact hout hin).2
    · exact (hframe q hq hin).2
  · intro q r hin hin'
    by_cases hq : q = p
    · by_cases hr : r = p
      · exact hq.trans hr.symm
      · rw [hq, hself] at hin
        exact absurd hin (hframe r hr hin').1
    · by_cases hr : r = p
      · rw [hr, hself] at hin'
        exact absurd hin' (hframe q hq hin).1
      · rw [hother q hq] at hin
        rw [hother r hr] at hin'
        exact hw.unique q r hin hin'

/-- One lock guards all that is shared: outside it a process changes nothing but to take it,
which it can do only while it is free. -/
structure Program.Guarded (P : Program ι φ γ) (holds : φ → Prop) (locked : γ → Prop) : Prop where
  entry : ¬ holds P.entry
  outside : ∀ p a g b g', P.act p a g b g' → ¬ holds a →
    (¬ holds b ∧ g' = g) ∨ (¬ locked g ∧ locked g')
  inside : ∀ p a g b g', P.act p a g b g' → holds a → holds b → locked g → locked g'

omit [DecidableEq ι] in
theorem Program.Guarded.lock (h : P.Guarded holds locked) : P.Locked holds locked where
  entry := h.entry
  take := by
    intro p a g b g' hact ha hb
    rcases h.outside p a g b g' hact ha with hstay | hfree
    · exact absurd hb hstay.1
    · exact hfree
  keep := h.inside
  others := by
    intro p a g b g' hact ha hg
    rcases h.outside p a g b g' hact ha with hstay | hfree
    · exact hstay.2 ▸ hg
    · exact absurd hg hfree.1

/-- The critical-section rule: to keep `G` of what is shared and `K` of whoever is inside, it is
enough that each action keeps them as if its process were alone. -/
theorem Program.Guarded.invariant (h : P.Guarded holds locked) {G : γ → Prop}
    {K : ι → φ → γ → Prop} (hboot : ∀ g, P.boot g → G g)
    (hact : ∀ p a g b g', P.act p a g b g' → G g → (holds a → K p a g) →
      G g' ∧ (holds b → K p b g'))
    {ms : List (Move (World ι φ γ) ι)} {w : World ι φ γ} (hr : P.system.Run ms w) :
    G w.shared ∧ ∀ p, holds (w.phase p) → K p (w.phase p) w.shared := by
  have hboth := hr.invariant (I := fun w => Exclusive holds locked w ∧
      G w.shared ∧ ∀ p, holds (w.phase p) → K p (w.phase p) w.shared) ?_ ?_
  · exact hboth.2
  · intro w hw
    refine ⟨h.lock.exclusive_start w hw, hboot _ hw.1, ?_⟩
    intro p hp
    rw [hw.2 p] at hp
    exact absurd hp h.entry
  · intro w p w' hs hw
    obtain ⟨hexcl, hG, hK⟩ := hw
    have hexcl' := h.lock.exclusive_step w p w' hs hexcl
    obtain ⟨b, ha, hphase⟩ := hs
    obtain ⟨hG', hK'⟩ := hact p _ _ _ _ ha hG (hK p)
    refine ⟨hexcl', hG', ?_⟩
    intro q hin
    by_cases hq : q = p
    · subst hq
      rw [hphase, Function.update_self] at hin ⊢
      exact hK' hin
    · rw [hphase, Function.update_of_ne hq] at hin ⊢
      have hout : ¬ holds (w.phase p) := fun hp => hq (hexcl.unique q p hin hp)
      rcases h.outside p _ _ _ _ ha hout with hstay | hfree
      · rw [hstay.2]
        exact hK q hin
      · exact absurd (hexcl.locked q hin) hfree.1

/-- The program whose processes act only where `L` holds of them. -/
def Program.within (P : Program ι φ γ) (L : ι → φ → Prop) : Program ι φ γ where
  boot := P.boot
  entry := P.entry
  act p a g b g' := L p a ∧ P.act p a g b g'

/-- What each process keeps on its own holds of all of them, wherever they act. -/
theorem Program.run_within {L : ι → φ → Prop} (hentry : ∀ p, L p P.entry)
    (hact : ∀ p a g b g', P.act p a g b g' → L p a → L p b)
    {ms : List (Move (World ι φ γ) ι)} {w : World ι φ γ} (hr : P.system.Run ms w) :
    (P.within L).system.Run ms w ∧ ∀ p, L p (w.phase p) := by
  induction hr with
  | start h => exact ⟨.start h, fun p => h.2 p ▸ hentry p⟩
  | @move ms w w' p hr hs ih =>
    obtain ⟨hrun, hL⟩ := ih
    obtain ⟨b, ha, hphase⟩ := hs
    refine ⟨hrun.move ⟨b, ⟨hL p, ha⟩, hphase⟩, ?_⟩
    intro q
    rw [hphase]
    by_cases hq : q = p
    · subst hq
      rw [Function.update_self]
      exact hact q _ _ _ _ ha (hL q)
    · rw [Function.update_of_ne hq]
      exact hL q

/-- The critical-section rule, with what each process keeps on its own. -/
theorem Program.Guarded.invariant_within (h : P.Guarded holds locked) {L : ι → φ → Prop}
    (hentry : ∀ p, L p P.entry) (hown : ∀ p a g b g', P.act p a g b g' → L p a → L p b)
    {G : γ → Prop} {K : ι → φ → γ → Prop} (hboot : ∀ g, P.boot g → G g)
    (hact : ∀ p a g b g', P.act p a g b g' → L p a → G g → (holds a → K p a g) →
      G g' ∧ (holds b → K p b g'))
    {ms : List (Move (World ι φ γ) ι)} {w : World ι φ γ} (hr : P.system.Run ms w) :
    G w.shared ∧ ∀ p, holds (w.phase p) → K p (w.phase p) w.shared := by
  have hwithin : (P.within L).Guarded holds locked :=
    ⟨h.entry, fun p a g b g' ha => h.outside p a g b g' ha.2,
      fun p a g b g' ha => h.inside p a g b g' ha.2⟩
  exact hwithin.invariant hboot (fun p a g b g' ha => hact p a g b g' ha.2 ha.1)
    (P.run_within hentry hown hr).1

end

end Sediment.Base.Transitions
