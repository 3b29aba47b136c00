import Sediment.Proofs.StageSteps

namespace Sediment.Proofs.StageSweep
open Base.Transitions Export.RecordStorage StageSteps

variable {ι : Type*}

abbrev Stores (ι : Type*) := World ι (Phase ι) (Parent ι)

/-- No directory has this name, and no stage lock of this name is there or open in a sweep. -/
def Untouched (w : Stores ι) (destination : String) : Prop :=
  w.shared.dirs destination = none ∧ w.shared.files (stageLock destination) = none ∧
    ∀ q file, opened (w.phase q) ≠ some (stageLock destination, file)

/-- A move that renames a bundle to its destination finds the destination untouched. -/
def PublishesApart (runs : ι → StageRun) (m : Move (Stores ι) ι) : Prop :=
  ∀ stage lock destination, m.before.phase m.label = .staged stage (.renaming lock) →
    m.after.phase m.label = .staged stage (.renamed lock) →
    (runs m.label).destination = some destination → Untouched m.before destination

structure Sound (w : Stores ι) : Prop where
  used : ∀ q S, (w.phase q).stage = some S → S ∈ w.shared.used
  unique : ∀ q r S, (w.phase q).stage = some S → (w.phase r).stage = some S → q = r
  entry : ∀ S d, w.shared.dirs S = some d → d.published = false →
    (w.phase d.owner).stage = some S
  fresh : ∀ q S, unsealed (w.phase q) = some S →
    ∃ d, w.shared.dirs S = some d ∧ d.owner = q ∧ d.published = false
  file : ∀ name f, w.shared.files name = some f → ∃ S, (w.phase f).stage = some S ∧
    ((name = stageLock S ∧ sealed (w.phase f) = true) ∨ name = pendingLock S)
  visit : ∀ q name, name ∈ toVisit (w.phase q) → isStageLock name = true
  opened : ∀ q name f, opened (w.phase q) = some (name, f) →
    ∃ S, name = stageLock S ∧ (w.phase f).stage = some S ∧ sealed (w.phase f) = true
  grip : ∀ q, gripping (w.phase q) = true → w.shared.held q = some q
  take : ∀ q f, taken (w.phase q) = some f → w.shared.held f = some q
  clear : ∀ q S, cleared (w.phase q) = some S → Gone w.shared S ∧ S ∈ w.shared.used
  apart : ∀ D d, w.shared.dirs D = some d → d.published = true →
    w.shared.files (stageLock D) = none ∧ (∀ q, unsealed (w.phase q) ≠ some D) ∧
      ∀ q f, StageSteps.opened (w.phase q) ≠ some (stageLock D, f)

variable [DecidableEq ι] {runs : ι → StageRun}

theorem sound_start (w : Stores ι) (h : (stores runs).system.start w) : Sound w := by
  obtain ⟨⟨hdirs, hfiles, -, -⟩, hphase⟩ := h
  have hentered : ∀ q, w.phase q = .entered := hphase
  constructor
  case entry | apart =>
    intro S d hd
    rw [hdirs S] at hd
    cases hd
  case file =>
    intro name f hf
    rw [hfiles name] at hf
    cases hf
  case unique =>
    intro q r S h _
    rw [hentered q] at h
    cases h
  case opened =>
    intro q name f h
    rw [hentered q] at h
    cases h
  case grip =>
    intro q h
    rw [hentered q] at h
    cases h
  all_goals
    intro q S h
    rw [hentered q] at h
    cases h

section
variable {w w' : Stores ι} {p : ι} {b : Phase ι}

theorem other_phase (hphase : w'.phase = Function.update w.phase p b) {q : ι} (hq : q ≠ p) :
    w'.phase q = w.phase q := by
  rw [hphase, Function.update_of_ne hq]

theorem self_phase (hphase : w'.phase = Function.update w.phase p b) : w'.phase p = b := by
  rw [hphase, Function.update_self]

theorem stage_keeps (hact : StageAct runs p (w.phase p) w.shared b w'.shared)
    (hphase : w'.phase = Function.update w.phase p b) {q : ι} {S : String}
    (h : (w.phase q).stage = some S) : (w'.phase q).stage = some S := by
  by_cases hq : q = p
  · subst hq
    rw [self_phase hphase]
    rcases act_stage hact with ⟨he, -⟩ | ⟨-, hnone, -⟩
    · rw [he, h]
    · rw [hnone] at h
      cases h
  · rw [other_phase hphase hq, h]

theorem used_keeps (hact : StageAct runs p (w.phase p) w.shared b w'.shared) {S : String}
    (h : S ∈ w.shared.used) : S ∈ w'.shared.used := by
  rcases act_stage hact with ⟨-, he⟩ | ⟨stage, -, -, -, -, he⟩
  · rw [he]
    exact h
  · rw [he]
    exact Set.mem_insert_of_mem _ h

/-- A stage's name is old, or the acting store has just drawn it. -/
theorem stage_from (hact : StageAct runs p (w.phase p) w.shared b w'.shared)
    (hphase : w'.phase = Function.update w.phase p b) {q : ι} {S : String}
    (h : (w'.phase q).stage = some S) :
    (w.phase q).stage = some S ∨ (q = p ∧ S ∉ w.shared.used ∧ S ∈ w'.shared.used) := by
  by_cases hq : q = p
  · subst hq
    rw [self_phase hphase] at h
    rcases act_stage hact with ⟨he, -⟩ | ⟨stage, -, hb, hnew, -, he⟩
    · exact Or.inl (he ▸ h)
    · rw [hb] at h
      obtain rfl := Option.some.inj h
      exact Or.inr ⟨rfl, hnew, by rw [he]; exact Set.mem_insert ..⟩
  · rw [other_phase hphase hq] at h
    exact Or.inl h

theorem sealed_keeps (hact : StageAct runs p (w.phase p) w.shared b w'.shared)
    (hphase : w'.phase = Function.update w.phase p b) {q : ι} (h : sealed (w.phase q) = true) :
    sealed (w'.phase q) = true := by
  by_cases hq : q = p
  · subst hq
    rw [self_phase hphase]
    exact act_sealed hact h
  · rw [other_phase hphase hq, h]

/-- A name once cleared of unpublished directories stays so, for it is never drawn again. -/
theorem gone_keeps (hact : StageAct runs p (w.phase p) w.shared b w'.shared) {S : String}
    (h : Gone w.shared S) (hused : S ∈ w.shared.used) : Gone w'.shared S := by
  intro d hd
  obtain he | ⟨-, -, hnew, -⟩ | ⟨-, -, he⟩ | ⟨_, _, -, -, -, he⟩ | ⟨_, _, -, -, -, d', he, hp⟩ :=
    act_dirs hact S
  · exact h d (he ▸ hd)
  · exact absurd hused hnew
  · rcases he with he | ⟨d₀, c, hd₀, he⟩
    · rw [he] at hd
      cases hd
    · rw [he] at hd
      obtain rfl := Option.some.inj hd
      exact h d₀ hd₀
  · rcases he with ⟨he, -⟩ | ⟨d₀, c, hd₀, he⟩
    · rw [he] at hd
      cases hd
    · rw [he] at hd
      obtain rfl := Option.some.inj hd
      exact h d₀ hd₀
  · rw [he] at hd
    obtain rfl := Option.some.inj hd
    exact hp

/-- An unpublished directory that a step leaves was there before with the same owner, or has
just been made by the acting store. -/
theorem unpublished_from (hact : StageAct runs p (w.phase p) w.shared b w'.shared) {S : String}
    {d : StageDir ι} (hd : w'.shared.dirs S = some d) (hp : d.published = false) :
    (∃ d₀, w.shared.dirs S = some d₀ ∧ d₀.owner = d.owner ∧ d₀.published = false) ∨
      (d.owner = p ∧ b.stage = some S) := by
  obtain he | ⟨-, hb, -, -, he⟩ | ⟨-, -, he⟩ | ⟨_, _, -, -, -, he⟩ |
    ⟨_, _, -, -, -, d', he, hpub⟩ := act_dirs hact S
  · exact Or.inl ⟨d, he ▸ hd, rfl, hp⟩
  · rw [he] at hd
    obtain rfl := Option.some.inj hd
    exact Or.inr ⟨rfl, by rw [hb]; rfl⟩
  · rcases he with he | ⟨d₀, c, hd₀, he⟩
    · rw [he] at hd
      cases hd
    · rw [he] at hd
      obtain rfl := Option.some.inj hd
      exact Or.inl ⟨d₀, hd₀, rfl, hp⟩
  · rcases he with ⟨he, -⟩ | ⟨d₀, c, hd₀, he⟩
    · rw [he] at hd
      cases hd
    · rw [he] at hd
      obtain rfl := Option.some.inj hd
      exact Or.inl ⟨d₀, hd₀, rfl, hp⟩
  · rw [he] at hd
    obtain rfl := Option.some.inj hd
    rw [hp] at hpub
    cases hpub

/-- A store without a lock file was one before, or has just made its directory. -/
theorem unsealed_from (hact : StageAct runs p (w.phase p) w.shared b w'.shared)
    (hphase : w'.phase = Function.update w.phase p b) {q : ι} {S : String}
    (h : unsealed (w'.phase q) = some S) :
    (unsealed (w.phase q) = some S ∧ (q = p → w'.shared.dirs = w.shared.dirs)) ∨
      (q = p ∧ w.shared.dirs S = none ∧ w'.shared.dirs S = some ⟨p, .empty, false⟩) := by
  by_cases hq : q = p
  · subst hq
    rw [self_phase hphase] at h
    rcases act_stage hact with ⟨he, -⟩ | ⟨stage, -, hb, -, hd, hg⟩
    · have hne : (w.phase q).stage ≠ none := by
        rw [← he, unsealed_stage h]
        simp
      obtain ⟨hold, hdirs⟩ := act_unsealed hact h hne
      exact Or.inl ⟨hold, fun _ => hdirs⟩
    · rw [hb] at h
      obtain rfl := Option.some.inj h
      exact Or.inr ⟨rfl, hd, by rw [hg]; exact Parent.setDir_self ..⟩
  · rw [other_phase hphase hq] at h
    exact Or.inl ⟨h, fun he => absurd he hq⟩

theorem Sound.opened_from (hw : Sound w) (hact : StageAct runs p (w.phase p) w.shared b w'.shared)
    (hphase : w'.phase = Function.update w.phase p b) {q : ι} {name : String} {f : ι}
    (h : StageSteps.opened (w'.phase q) = some (name, f)) :
    StageSteps.opened (w.phase q) = some (name, f) ∨
      (w.shared.files name = some f ∧ isStageLock name = true) := by
  by_cases hq : q = p
  · subst hq
    rw [self_phase hphase] at h
    exact (act_opened hact h).imp id (fun h => ⟨h.2, hw.visit q name h.1⟩)
  · rw [other_phase hphase hq] at h
    exact Or.inl h

omit [DecidableEq ι] in
/-- The file that a sweep opens under a lock's name is that of the store with the stage. -/
theorem Sound.lock_owner (hw : Sound w) {name : String} {f : ι}
    (hf : w.shared.files name = some f) (hl : isStageLock name = true) :
    ∃ S, name = stageLock S ∧ (w.phase f).stage = some S ∧ sealed (w.phase f) = true := by
  obtain ⟨S, hS, ⟨hname, hsealed⟩ | hname⟩ := hw.file name f hf
  · exact ⟨S, hname, hS, hsealed⟩
  · rw [hname, pending_not_stage_lock] at hl
    cases hl

theorem Sound.step_file (hw : Sound w) (hact : StageAct runs p (w.phase p) w.shared b w'.shared)
    (hphase : w'.phase = Function.update w.phase p b) {name : String} {f : ι}
    (hf : w'.shared.files name = some f) :
    ∃ S, (w'.phase f).stage = some S ∧
      ((name = stageLock S ∧ sealed (w'.phase f) = true) ∨ name = pendingLock S) := by
  rcases act_files hact hf with hold | ⟨rfl, stage, -, hst, hname⟩
  · obtain ⟨S, hS, hname⟩ := hw.file name f hold
    refine ⟨S, stage_keeps hact hphase hS, ?_⟩
    exact hname.imp (fun h => ⟨h.1, sealed_keeps hact hphase h.2⟩) id
  · rw [self_phase hphase]
    exact ⟨stage, hst, hname.symm⟩

/-- The directory of a store without a lock file is its own until it acts itself: a sweep
removes only what belongs to a lock file, and a bundle is not published onto it. -/
theorem Sound.step_fresh (hw : Sound w) (hact : StageAct runs p (w.phase p) w.shared b w'.shared)
    (hphase : w'.phase = Function.update w.phase p b) (hok : PublishesApart runs ⟨w, p, w'⟩)
    {q : ι} {S : String} (h : unsealed (w'.phase q) = some S) :
    ∃ d, w'.shared.dirs S = some d ∧ d.owner = q ∧ d.published = false := by
  rcases unsealed_from hact hphase h with ⟨hold, hdirs⟩ | ⟨rfl, -, hd⟩
  · obtain ⟨d, hd, howner, hpub⟩ := hw.fresh q S hold
    by_cases hq : q = p
    · exact ⟨d, by rw [hdirs hq, hd], howner, hpub⟩
    · obtain he | ⟨-, -, -, hnone, -⟩ | ⟨hst, -, -⟩ | ⟨name, f, hop, -, hname, -⟩ |
        ⟨stage, lock, ha, hb, hdest, -⟩ := act_dirs hact S
      · exact ⟨d, by rw [he, hd], howner, hpub⟩
      · rw [hnone] at hd
        cases hd
      · exact absurd (hw.unique q p S (unsealed_stage hold) hst) hq
      · obtain ⟨S', rfl, hst, hsealed⟩ := hw.opened p name f hop
        rw [stage_of_lock] at hname
        subst hname
        obtain rfl := hw.unique q f S (unsealed_stage hold) hst
        rw [unsealed_not_sealed hold] at hsealed
        cases hsealed
      · obtain ⟨hnone, -⟩ := hok stage lock S ha ((self_phase hphase).trans hb) hdest
        rw [hnone] at hd
        cases hd
  · exact ⟨_, hd, rfl, rfl⟩

/-- A published bundle has no stage lock of its name, and none can come to be. -/
theorem Sound.step_apart (hw : Sound w) (hact : StageAct runs p (w.phase p) w.shared b w'.shared)
    (hphase : w'.phase = Function.update w.phase p b) (hok : PublishesApart runs ⟨w, p, w'⟩)
    {D : String} {d : StageDir ι} (hd : w'.shared.dirs D = some d) (hp : d.published = true) :
    w'.shared.files (stageLock D) = none ∧ (∀ q, unsealed (w'.phase q) ≠ some D) ∧
      ∀ q f, StageSteps.opened (w'.phase q) ≠ some (stageLock D, f) := by
  -- it is enough that the three held before
  have hbefore : (w.shared.files (stageLock D) = none ∧ (∀ q, unsealed (w.phase q) ≠ some D) ∧
      ∀ q f, StageSteps.opened (w.phase q) ≠ some (stageLock D, f)) ∧
      (w.shared.dirs D = none → unsealed b ≠ some D) := by
    obtain he | ⟨-, -, -, -, he⟩ | ⟨-, -, he⟩ | ⟨name, f, -, -, -, he⟩ |
      ⟨stage, lock, ha, hb, hdest, -⟩ := act_dirs hact D
    · rw [he] at hd
      exact ⟨hw.apart D d hd hp, fun hnone => by rw [hnone] at hd; cases hd⟩
    · rw [he] at hd
      obtain rfl := Option.some.inj hd
      cases hp
    · rcases he with he | ⟨d₀, c, hd₀, he⟩
      · rw [he] at hd
        cases hd
      · rw [he] at hd
        obtain rfl := Option.some.inj hd
        exact ⟨hw.apart D d₀ hd₀ hp, fun hnone => by rw [hnone] at hd₀; cases hd₀⟩
    · rcases he with ⟨he, -⟩ | ⟨d₀, c, hd₀, he⟩
      · rw [he] at hd
        cases hd
      · rw [he] at hd
        obtain rfl := Option.some.inj hd
        exact ⟨hw.apart D d₀ hd₀ hp, fun hnone => by rw [hnone] at hd₀; cases hd₀⟩
    · obtain ⟨hnone, hfiles, hop⟩ := hok stage lock D ha ((self_phase hphase).trans hb) hdest
      refine ⟨⟨hfiles, ?_, hop⟩, fun _ => by rw [hb]; simp [unsealed]⟩
      intro q hq
      obtain ⟨d₀, hd₀, -⟩ := hw.fresh q D hq
      rw [hnone] at hd₀
      cases hd₀
  obtain ⟨⟨hfiles, huns, hop⟩, hnew⟩ := hbefore
  refine ⟨?_, ?_, ?_⟩
  · rw [Option.eq_none_iff_forall_ne_some]
    intro f hf
    rcases act_files hact hf with hold | ⟨-, stage, ha, -, hname | ⟨hname, -⟩⟩
    · rw [hfiles] at hold
      cases hold
    · exact stage_lock_ne_pending D stage hname
    · rw [stage_lock_inj hname] at huns
      exact huns p ha
  · intro q hq
    rcases unsealed_from hact hphase hq with ⟨hold, -⟩ | ⟨rfl, hnone, -⟩
    · exact huns q hold
    · rw [self_phase hphase] at hq
      exact hnew hnone hq
  · intro q f hq
    rcases hw.opened_from hact hphase hq with hold | ⟨hf, -⟩
    · exact hop q f hold
    · rw [hfiles] at hf
      cases hf

theorem Sound.step_clear (hw : Sound w) (hact : StageAct runs p (w.phase p) w.shared b w'.shared)
    (hphase : w'.phase = Function.update w.phase p b) {q : ι} {S : String}
    (h : cleared (w'.phase q) = some S) : Gone w'.shared S ∧ S ∈ w'.shared.used := by
  have hold : cleared (w.phase q) = some S → Gone w'.shared S ∧ S ∈ w'.shared.used := by
    intro hc
    obtain ⟨hgone, hused⟩ := hw.clear q S hc
    exact ⟨gone_keeps hact hgone hused, used_keeps hact hused⟩
  by_cases hq : q = p
  · subst hq
    rw [self_phase hphase] at h
    rcases act_cleared hact h with hc | ⟨name, f, hop, hname, hd⟩
    · exact hold hc
    · obtain ⟨S', rfl, hst, -⟩ := hw.opened q name f hop
      rw [stage_of_lock] at hname
      subst hname
      refine ⟨fun d hd' => ?_, used_keeps hact (hw.used f S hst)⟩
      rw [hd] at hd'
      cases hd'
  · rw [other_phase hphase hq] at h
    exact hold h

theorem sound_step (hw : Sound w) (hact : StageAct runs p (w.phase p) w.shared b w'.shared)
    (hphase : w'.phase = Function.update w.phase p b) (hok : PublishesApart runs ⟨w, p, w'⟩) :
    Sound w' where
  used := by
    intro q S h
    rcases stage_from hact hphase h with hold | ⟨-, -, hnew⟩
    · exact used_keeps hact (hw.used q S hold)
    · exact hnew
  unique := by
    intro q r S hq hr
    rcases stage_from hact hphase hq with hq | ⟨hqp, hnew, -⟩
    · rcases stage_from hact hphase hr with hr | ⟨-, hnew, -⟩
      · exact hw.unique q r S hq hr
      · exact absurd (hw.used q S hq) hnew
    · rcases stage_from hact hphase hr with hr | ⟨hrp, -, -⟩
      · exact absurd (hw.used r S hr) hnew
      · exact hqp.trans hrp.symm
  entry := by
    intro S d hd hp
    rcases unpublished_from hact hd hp with ⟨d₀, hd₀, howner, hp₀⟩ | ⟨howner, hst⟩
    · rw [← howner]
      exact stage_keeps hact hphase (hw.entry S d₀ hd₀ hp₀)
    · rw [howner, self_phase hphase]
      exact hst
  fresh _ _ := hw.step_fresh hact hphase hok
  file _ _ := hw.step_file hact hphase
  visit := by
    intro q name h
    by_cases hq : q = p
    · subst hq
      rw [self_phase hphase] at h
      exact (act_to_visit hact h).elim (hw.visit q name) id
    · rw [other_phase hphase hq] at h
      exact hw.visit q name h
  opened := by
    intro q name f h
    have hbefore : ∃ S, name = stageLock S ∧ (w.phase f).stage = some S ∧
        sealed (w.phase f) = true := by
      rcases hw.opened_from hact hphase h with hold | ⟨hf, hl⟩
      · exact hw.opened q name f hold
      · exact hw.lock_owner hf hl
    obtain ⟨S, hname, hst, hsealed⟩ := hbefore
    exact ⟨S, hname, stage_keeps hact hphase hst, sealed_keeps hact hphase hsealed⟩
  grip := by
    intro q h
    by_cases hq : q = p
    · subst hq
      rw [self_phase hphase] at h
      exact act_gripping hact h (hw.grip q)
    · rw [other_phase hphase hq] at h
      exact act_held_other hact hq (hw.grip q h)
  take := by
    intro q f h
    by_cases hq : q = p
    · subst hq
      rw [self_phase hphase] at h
      exact act_taken hact h (hw.take q f)
    · rw [other_phase hphase hq] at h
      exact act_held_other hact hq (hw.take q f h)
  clear _ _ := hw.step_clear hact hphase
  apart _ _ := hw.step_apart hact hphase hok

/-- What a sweep changes is the unpublished directory of a store that is no longer live. -/
theorem Sound.sweep_spares (hw : Sound w)
    (hact : StageAct runs p (w.phase p) w.shared b w'.shared)
    (hnone : (w.phase p).stage = none) {S : String} {d : StageDir ι}
    (hd : w.shared.dirs S = some d) (hne : w'.shared.dirs S ≠ some d) :
    d.published = false ∧ (w.phase d.owner).live = false := by
  obtain he | ⟨-, -, -, hfree, -⟩ | ⟨hst, -, -⟩ | ⟨name, f, hop, htaken, hname, -⟩ |
    ⟨stage, lock, ha, -, -, -⟩ := act_dirs hact S
  · rw [he] at hne
    exact absurd hd hne
  · rw [hfree] at hd
    cases hd
  · rw [hnone] at hst
    cases hst
  · obtain ⟨S', rfl, hst, hsealed⟩ := hw.opened p name f hop
    rw [stage_of_lock] at hname
    subst hname
    have hpub : d.published = false := by
      cases hp : d.published with
      | false => rfl
      | true => exact absurd hop ((hw.apart S d hd hp).2.2 p f)
    refine ⟨hpub, ?_⟩
    -- the owner made the lock file, on which a live owner would still have its lock
    obtain rfl := hw.unique d.owner f S (hw.entry S d hd hpub) hst
    cases hl : (w.phase d.owner).live with
    | false => rfl
    | true =>
      have hheld := hw.grip _ (live_sealed_gripping hl hsealed)
      rw [hw.take p _ htaken] at hheld
      obtain rfl := Option.some.inj hheld
      obtain ⟨name, hop⟩ := taken_opened htaken
      rw [hst] at hnone
      cases hnone
  · rw [ha] at hnone
    cases hnone

/-- The lock file of a live stage loses its name to no other process. -/
theorem Sound.lock_kept (hw : Sound w)
    (hact : StageAct runs p (w.phase p) w.shared b w'.shared) {q : ι} {S : String}
    (hlive : (w.phase q).live = true) (hst : (w.phase q).stage = some S) {f : ι}
    (hf : w.shared.files (stageLock S) = some f)
    (hlost : w'.shared.files (stageLock S) ≠ some f) : p = q := by
  rcases act_files_lost hact hf hlost with ⟨f', hop, htaken, -⟩ | ⟨stage, hst', -, hname | hname⟩
  · obtain ⟨S', hname, hst', hsealed⟩ := hw.opened p _ f' hop
    rw [← stage_lock_inj hname] at hst'
    obtain rfl := hw.unique q f' S hst hst'
    have hheld := hw.grip q (live_sealed_gripping hlive hsealed)
    rw [hw.take p q htaken] at hheld
    exact Option.some.inj hheld
  · rw [← stage_lock_inj hname] at hst'
    exact hw.unique p q S hst' hst
  · exact absurd hname (stage_lock_ne_pending S stage)

end

/-- The sweep has this lock before it, or left it behind, or is not yet at it. -/
def covers (name : String) : Phase ι → Prop
  | .entered => True
  | .sweeping point todo skips => name ∈ todo ∨ name ∈ skips ∨
    match point with
    | .opened n _ | .holding n _ | .removing n _ => n = name
    | _ => False
  | .swept (some skips) => name ∈ skips
  | _ => True

/-- A sweep goes past a lock only by removing its stage or by leaving it behind. -/
theorem act_covers {p : ι} {a b : Phase ι} {g g' : Parent ι} {name : String}
    (h : StageAct runs p a g b g') (hl : isStageLock name = true) (hf : g.files name ≠ none)
    (hc : covers name a) : covers name b ∨ g'.dirs (stageOf name) = none := by
  cases h
  case list names hcl hn => exact Or.inl (Or.inl ((hn name).mpr ⟨hl, Or.inl hf⟩))
  case sweepEnds skips =>
    rcases hc with h | h | h
    · cases h
    · exact Or.inl h
    · cases h
  case opens n todo skips file hfile =>
    rcases hc with h | h | h
    · rcases List.mem_cons.mp h with rfl | h
      · exact Or.inl (Or.inr (Or.inr rfl))
      · exact Or.inl (Or.inl h)
    · exact Or.inl (Or.inr (Or.inl h))
    · cases h
  case noDirectory n todo skips file hd =>
    rcases hc with h | h | h
    · exact Or.inl (Or.inl h)
    · exact Or.inl (Or.inr (Or.inl h))
    · exact Or.inr (h ▸ hd)
  case removes n todo skips file d hd =>
    rcases hc with h | h | h
    · exact Or.inl (Or.inl h)
    · exact Or.inl (Or.inr (Or.inl h))
    · subst h
      exact Or.inr (g.setDir_self _ _)
  case removesOwn stage lock => cases lock <;> exact Or.inl trivial
  all_goals
    left
    simp only [covers, List.mem_cons] at hc ⊢ <;> tauto

theorem act_crashed {p : ι} {stage : Option String} {b : Phase ι} {g g' : Parent ι}
    (h : StageAct runs p (.crashed stage) g b g') : b = .crashed stage := by
  cases h
  rfl

/-- The stage of a store that died with its claim is gone, or its lock is still in place and
the sweep has not passed it by. -/
def Awaiting (p q : ι) (S : String) (w : Stores ι) : Prop :=
  (Gone w.shared S ∧ S ∈ w.shared.used) ∨
    (w.phase p = .crashed (some S) ∧ w.shared.files (stageLock S) = some p ∧
      covers (stageLock S) (w.phase q))

theorem awaiting_step {w w' : Stores ι} {r : ι} {b : Phase ι} {p q : ι} {S : String}
    (hw : Sound w) (hact : StageAct runs r (w.phase r) w.shared b w'.shared)
    (hphase : w'.phase = Function.update w.phase r b) (h : Awaiting p q S w) :
    Awaiting p q S w' := by
  rcases h with ⟨hgone, hused⟩ | ⟨hcrash, hf, hc⟩
  · exact Or.inl ⟨gone_keeps hact hgone hused, used_keeps hact hused⟩
  · have hst : (w.phase p).stage = some S := by rw [hcrash]; rfl
    have hused : S ∈ w.shared.used := hw.used p S hst
    by_cases hf' : w'.shared.files (stageLock S) = some p
    · have hcrash' : w'.phase p = .crashed (some S) := by
        by_cases hp : p = r
        · subst hp
          rw [self_phase hphase]
          exact act_crashed (hcrash ▸ hact)
        · rw [other_phase hphase hp, hcrash]
      by_cases hq : q = r
      · subst hq
        rcases act_covers hact (is_stage_lock S) (by simp [hf]) hc with hc' | hd
        · exact Or.inr ⟨hcrash', hf', by rw [self_phase hphase]; exact hc'⟩
        · rw [stage_of_lock] at hd
          refine Or.inl ⟨fun d hd' => ?_, used_keeps hact hused⟩
          rw [hd] at hd'
          cases hd'
      · exact Or.inr ⟨hcrash', hf', by rw [other_phase hphase hq]; exact hc⟩
    · rcases act_files_lost hact hf hf' with ⟨f, hop, -, hcl⟩ | ⟨stage, hst', hlive, hname | hname⟩
      · rw [stage_of_lock] at hcl
        obtain ⟨hgone, -⟩ := hw.clear r S hcl
        exact Or.inl ⟨gone_keeps hact hgone hused, used_keeps hact hused⟩
      · rw [← stage_lock_inj hname] at hst'
        obtain rfl := hw.unique p r S hst hst'
        rw [hcrash] at hlive
        cases hlive
      · exact absurd hname (stage_lock_ne_pending S stage)

theorem sound_run {ms : List (Move (Stores ι) ι)} {w : Stores ι}
    (h : (stores runs).system.Run ms w) (hok : ∀ m ∈ ms, PublishesApart runs m) : Sound w := by
  refine h.invariant_where sound_start ?_ hok
  intro m hm hs hw
  obtain ⟨b, hact, hphase⟩ := hs
  exact sound_step hw hact hphase hm

/-- In every interleaving in which each bundle is renamed to an untouched destination: a sweep
changes no directory of a live store and no published bundle; once a store has died with its
claim, a sweep that begins later and ends without leaving the lock behind ends with the stage
gone; and the lock file of a live stage is removed by no other process. -/
theorem sweeps_spare_live_stages (runs : ι → StageRun) {ms : List (Move (Stores ι) ι)}
    {w : Stores ι} (h : (stores runs).system.Run ms w)
    (hok : ∀ m ∈ ms, PublishesApart runs m) :
    (∀ m ∈ ms, (m.before.phase m.label).stage = none → ∀ S d,
      m.before.shared.dirs S = some d → m.after.shared.dirs S ≠ some d →
        d.published = false ∧ (m.before.phase d.owner).live = false) ∧
    (∀ p S q, w.phase p = .crashed (some S) → w.shared.files (stageLock S) = some p →
      w.phase q = .entered → ∀ ms' w', (stores runs).system.Path w ms' w' →
      (∀ m ∈ ms', PublishesApart runs m) → ∀ skips, w'.phase q = .swept (some skips) →
      stageLock S ∉ skips → ∀ d, w'.shared.dirs S = some d → d.published = true) ∧
    (∀ m ∈ ms, ∀ q S f, (m.before.phase q).live = true → (m.before.phase q).stage = some S →
      m.before.shared.files (stageLock S) = some f →
      m.after.shared.files (stageLock S) ≠ some f → m.label = q) := by
  have hstep : ∀ m : Move (Stores ι) ι, PublishesApart runs m →
      (stores runs).system.step m.before m.label m.after → Sound m.before → Sound m.after := by
    intro m hm hs hw
    obtain ⟨b, hact, hphase⟩ := hs
    exact sound_step hw hact hphase hm
  have hmoves := h.moves_where sound_start hstep hok
  refine ⟨?_, ?_, ?_⟩
  · intro m hm hnone S d hd hne
    obtain ⟨hw, b, hact, -⟩ := hmoves m hm
    exact hw.sweep_spares hact hnone hd hne
  · intro p S q hcrash hf hq ms' w' hpath hok' skips hskips hleft
    have hstart : Sound w ∧ Awaiting p q S w :=
      ⟨sound_run h hok, Or.inr ⟨hcrash, hf, by rw [hq]; trivial⟩⟩
    have hend := hpath.invariant_where (I := fun w => Sound w ∧ Awaiting p q S w) (fun m hm hs hw =>
      ⟨hstep m hm hs hw.1, by
        obtain ⟨b, hact, hphase⟩ := hs
        exact awaiting_step hw.1 hact hphase hw.2⟩) hstart hok'
    rcases hend.2 with ⟨hgone, -⟩ | ⟨-, -, hc⟩
    · exact hgone
    · rw [hskips] at hc
      exact absurd hc hleft
  · intro m hm q S f hlive hst hf hlost
    obtain ⟨hw, b, hact, -⟩ := hmoves m hm
    exact hw.lock_kept hact hlive hst hf hlost

def reusedStage : String := ".sediment-bundle-" ++ "abcdefgh"

def publicationStage : String := ("." ++ reusedStage ++ ".") ++ "ijklmnop"

/-- A store whose process dies while it closes, a publication to the name of its stage, and a
store that sweeps the directory. -/
def reusedName : Fin 3 → StageRun
  | 0 => ⟨1000, ".sediment-bundle-", none⟩
  | 1 => writeDerivedBundle 1000 reusedStage
  | 2 => ⟨1000, ".sediment-bundle-", none⟩

def emptyParent : Parent (Fin 3) := ⟨fun _ => none, fun _ => none, fun _ => none, ∅⟩

/-- The stage with its lock file, which its owner has locked. -/
def claimedStage : Parent (Fin 3) :=
  ⟨fun name => if name = reusedStage then some ⟨0, .empty, false⟩ else none,
    fun name => if name = stageLock reusedStage then some 0 else none,
    fun file => if file = 0 then some 0 else none, insert reusedStage ∅⟩

/-- The stage is removed, its lock file is still there, and its owner is dead. -/
def orphanedLock : Parent (Fin 3) :=
  ⟨fun _ => none, claimedStage.files, fun _ => none, insert reusedStage ∅⟩

def bundleAtStageName : Parent (Fin 3) :=
  ⟨fun name => if name = reusedStage then some ⟨1, .full, true⟩ else none,
    orphanedLock.files, fun _ => none, insert publicationStage (insert reusedStage ∅)⟩

theorem stage_lock_ne_self (S : String) : stageLock S ≠ S := by
  intro h
  have hlen := congrArg String.length h
  rw [stageLock, String.length_append] at hlen
  have hsuffix : stageLockSuffix.length = 20 := by decide
  omega

theorem pending_ne_self (S : String) : pendingLock S ≠ S := by
  intro h
  have hlen := congrArg String.length h
  rw [pendingLock, stageLock, String.length_append, String.length_append] at hlen
  have hsuffix : stageLockSuffix.length = 20 := by decide
  omega

/-- A store makes its stage and claims it. -/
theorem claims_stage {runs : Fin 3 → StageRun} (h : runs 0 = ⟨1000, ".sediment-bundle-", none⟩) :
    (stores runs).Goes 0 (.entered, emptyParent)
      (.staged reusedStage (.live true), claimedStage) := by
  have hclaims : (runs 0).claims = true := by rw [h]; decide
  have hstem : (runs 0).stem ++ "abcdefgh" = reusedStage := by rw [h]; rfl
  have hlist : (stores runs).act 0 .entered emptyParent (.sweeping .next [] []) emptyParent :=
    .list hclaims (by simp [emptyParent])
  have hswept := (Program.Goes.after hlist .refl).then .sweepEnds
  have hcreated : (stores runs).Goes 0 (.entered, emptyParent) (.staged reusedStage .created,
      { emptyParent.setDir reusedStage (some ⟨0, .empty, false⟩) with
        used := insert reusedStage ∅ }) := by
    have hact := @StageAct.mkdtemp _ _ runs 0 emptyParent (some []) "abcdefgh"
      (Set.notMem_empty _) rfl rfl
    rw [hstem] at hact
    exact Program.Goes.then hswept hact
  have hpending := hcreated.then (.openPending hclaims rfl
    (emptyParent.setDir_of_ne (pending_ne_self reusedStage) (some ⟨0, .empty, false⟩)))
  have hlocked := Program.Goes.then hpending (.lockPending rfl)
  have hlive := Program.Goes.then hlocked (.renamePending
    (emptyParent.setDir_of_ne (stage_lock_ne_self reusedStage) (some ⟨0, .empty, false⟩)))
  convert hlive using 2
  refine Parent.ext ?_ ?_ ?_ rfl
  · funext name
    by_cases he : name = reusedStage <;>
      simp [claimedStage, Parent.setDir, Parent.setFile, Parent.lockFile, emptyParent, he]
  · funext name
    by_cases he : name = stageLock reusedStage
    · simp [claimedStage, Parent.setFile, he]
    · by_cases hp : name = pendingLock reusedStage <;>
        simp [claimedStage, Parent.setDir, Parent.setFile, Parent.lockFile, emptyParent, he, hp,
          (stage_lock_ne_pending reusedStage reusedStage).symm]
  · funext file
    by_cases he : file = 0 <;>
      simp [claimedStage, Parent.setDir, Parent.setFile, Parent.lockFile, emptyParent, he]

/-- Nothing has been renamed to its destination yet. -/
def unrenamed : Phase ι → Bool
  | .entered | .sweeping _ _ _ | .swept _ => true
  | .staged _ .created | .staged _ .pending | .staged _ .locked => true
  | .staged _ (.live _) | .staged _ (.renaming _) => true
  | _ => false

theorem act_unrenamed {p : ι} {a b : Phase ι} {g g' : Parent ι} (h : StageAct runs p a g b g')
    (hb : unrenamed b = true) : unrenamed a = true := by
  cases h
  case claimFails stage point hpoint => rcases hpoint with rfl | rfl | rfl <;> rfl
  case removesOwn stage lock => cases lock <;> cases hb
  all_goals first | rfl | cases hb

/-- A path on which each bundle is renamed to an untouched destination. -/
def PathApart (runs : ι → StageRun) (w w' : Stores ι) : Prop :=
  ∃ ms, (stores runs).system.Path w ms w' ∧ ∀ m ∈ ms, PublishesApart runs m

theorem PathApart.here (w : Stores ι) : PathApart runs w w := ⟨[], .here, by simp⟩

theorem PathApart.trans {w w' w'' : Stores ι} (h : PathApart runs w w')
    (h' : PathApart runs w' w'') : PathApart runs w w'' := by
  obtain ⟨ms, hpath, hok⟩ := h
  obtain ⟨ms', hpath', hok'⟩ := h'
  exact ⟨ms ++ ms', hpath.trans hpath',
    fun m hm => (List.mem_append.mp hm).elim (hok m) (hok' m)⟩

theorem PathApart.act {w w' : Stores ι} (h : PathApart runs w w') {p : ι} {b : Phase ι}
    {g : Parent ι} (hact : StageAct runs p (w'.phase p) w'.shared b g)
    (hapart : (runs p).destination = none ∨ unrenamed b = true ∨
      ∀ destination, (runs p).destination = some destination → Untouched w' destination) :
    PathApart runs w ⟨g, Function.update w'.phase p b⟩ := by
  obtain ⟨ms, hpath, hok⟩ := h
  refine ⟨_, hpath.move (e := p) ⟨b, hact, rfl⟩, fun m hm => ?_⟩
  rcases List.mem_append.mp hm with hm | hm
  · exact hok m hm
  · obtain rfl := List.mem_singleton.mp hm
    intro stage lock destination _ hrenamed hdestination
    rcases hapart with hnone | hearly | huntouched
    · rw [hnone] at hdestination
      cases hdestination
    · rw [self_phase (p := p) rfl] at hrenamed
      rw [hrenamed] at hearly
      cases hearly
    · exact huntouched destination hdestination

/-- What a process does on its own before it renames anything. -/
theorem PathApart.goes {w w' : Stores ι} (h : PathApart runs w w') {p : ι}
    {x y : Phase ι × Parent ι} (hgoes : (stores runs).Goes p x y)
    (hx : x = (w'.phase p, w'.shared))
    (hapart : (runs p).destination = none ∨ unrenamed y.1 = true) :
    PathApart runs w ⟨y.2, Function.update w'.phase p y.1⟩ := by
  induction hgoes with
  | refl =>
    subst hx
    rwa [Function.update_eq_self]
  | @tail y z hxy hyz ih =>
    have hback := ih (hapart.imp_right (act_unrenamed hyz))
    have hstep : StageAct runs p (Function.update w'.phase p y.1 p) y.2 z.1 z.2 := by
      rw [Function.update_self]
      exact hyz
    have hnext := hback.act hstep (hapart.imp_right Or.inl)
    rwa [Function.update_idem] at hnext

/-- A publication that finds nothing in its way comes to its rename. -/
theorem prepares_bundle {runs : Fin 3 → StageRun} {destination random : String}
    (hruns : runs 1 = writeDerivedBundle 1000 destination) (hclaims : (runs 1).claims = false)
    {g : Parent (Fin 3)} {stage : String} (hstage : stage = "." ++ destination ++ "." ++ random)
    (hused : stage ∉ g.used) (hdir : g.dirs stage = none) (hfile : g.files stage = none)
    (hne : stage ≠ destination) (hfree : g.dirs destination = none)
    (hnofile : g.files destination = none) :
    (stores runs).Goes 1 (.entered, g) (.staged stage (.renaming false),
      { g.setDir stage (some ⟨1, .empty, false⟩) with used := insert stage g.used }) := by
  have hunlisted : (stores runs).act 1 .entered g (.swept none) g := .unlisted
  have hcreated : (stores runs).Goes 1 (.entered, g) (.staged stage .created,
      { g.setDir stage (some ⟨1, .empty, false⟩) with used := insert stage g.used }) := by
    have hact := @StageAct.mkdtemp _ _ runs 1 g none random
    have hstem : (runs 1).stem ++ random = stage := by rw [hruns, hstage]; rfl
    rw [hstem] at hact
    exact (Program.Goes.after hunlisted .refl).then (hact hused hdir hfile)
  have hlive := Program.Goes.then hcreated (.withoutClaim hclaims)
  exact Program.Goes.then hlive (.destinationFree (by rw [hruns]; rfl)
    ((g.setDir_of_ne hne.symm _).trans hfree) hnofile)

/-- A sweep of a directory whose only lock is the dead store's comes to remove its stage. -/
theorem takes_lock {runs : Fin 3 → StageRun} (hruns : runs 2 = ⟨1000, ".sediment-bundle-", none⟩)
    (huser : (runs 0).user = 1000) {g : Parent (Fin 3)}
    (hlock : g.files (stageLock reusedStage) = some 0)
    (hfiles : ∀ name, name ≠ stageLock reusedStage → g.files name = none)
    (hdirs : ∀ name, isStageLock name = true → g.dirs name = none) (hheld : g.held 0 = none)
    (hstage : g.dirs reusedStage ≠ none) :
    (stores runs).Goes 2 (.entered, g)
      (.sweeping (.removing (stageLock reusedStage) 0) [] [], g.lockFile 0 2) := by
  have hlist : (stores runs).act 2 .entered g (.sweeping .next [stageLock reusedStage] []) g := by
    refine .list (by rw [hruns]; decide) (fun name => ?_)
    rw [List.mem_singleton]
    constructor
    · rintro rfl
      exact ⟨is_stage_lock _, Or.inl (by rw [hlock]; simp)⟩
    · rintro ⟨hl, hf | hd⟩
      · by_contra hne
        exact hf (hfiles name hne)
      · exact absurd (hdirs name hl) hd
  have hopened := (Program.Goes.after hlist .refl).then (.opens hlock)
  have htaken := Program.Goes.then hopened (.takes (by rw [huser, hruns]) hheld)
  exact Program.Goes.then htaken (.isDirectory (by rw [stage_of_lock]; exact hstage))

/-- A store, a publication to another name, and a store that sweeps the directory. -/
def otherName : Fin 3 → StageRun
  | 0 => ⟨1000, ".sediment-bundle-", none⟩
  | 1 => writeDerivedBundle 1000 "evals"
  | 2 => ⟨1000, ".sediment-bundle-", none⟩

def begun : Stores (Fin 3) := ⟨emptyParent, fun _ => .entered⟩

/-- The store has died with its claim. -/
def died : Stores (Fin 3) :=
  ⟨claimedStage.releaseAll 0, Function.update begun.phase 0 (.crashed (some reusedStage))⟩

def evalsStage : String := "." ++ "evals" ++ "." ++ "ijklmnop"

def evalsPrepared : Parent (Fin 3) :=
  { died.shared.setDir evalsStage (some ⟨1, .empty, false⟩) with
    used := insert evalsStage died.shared.used }

/-- The bundle stands beside the dead store's stage. -/
def evalsPublished : Stores (Fin 3) :=
  ⟨(evalsPrepared.setDir evalsStage none).setDir "evals" (some ⟨1, .full, true⟩),
    Function.update died.phase 1 (.staged evalsStage (.renamed false))⟩

theorem died_files {name : String} (h : name ≠ stageLock reusedStage) :
    died.shared.files name = none := if_neg h

theorem died_dirs {name : String} (h : name ≠ reusedStage) : died.shared.dirs name = none :=
  if_neg h

theorem died_stage : died.shared.dirs reusedStage = some ⟨0, .empty, false⟩ := by
  simp [died, claimedStage, Parent.releaseAll]

theorem died_lock : died.shared.files (stageLock reusedStage) = some 0 := by
  simp [died, claimedStage, Parent.releaseAll]

theorem store_dies : PathApart otherName begun died := by
  have hdead : (stores otherName).Goes 0 (.entered, emptyParent)
      (.crashed (some reusedStage), claimedStage.releaseAll 0) :=
    (@claims_stage otherName rfl).then (.crash (by simp))
  exact (PathApart.here begun).goes hdead rfl (Or.inl rfl)

theorem evals_published : PathApart otherName died evalsPublished := by
  have hunused : evalsStage ∉ died.shared.used := by
    rintro (h | h)
    · exact absurd h (by decide +kernel)
    · exact h
  have hstage : evalsStage ≠ stageLock reusedStage := by decide +kernel
  have hprepared : (stores otherName).Goes 1 (.entered, died.shared)
      (.staged evalsStage (.renaming false), evalsPrepared) :=
    prepares_bundle rfl (by decide +kernel) rfl hunused (died_dirs (by decide +kernel))
      (died_files hstage) (by decide +kernel) (died_dirs (by decide +kernel))
      (died_files (by decide +kernel))
  have hother : "evals" ≠ evalsStage := by decide +kernel
  have hfree : evalsPrepared.dirs "evals" = none :=
    (died.shared.setDir_of_ne hother (some ⟨1, .empty, false⟩)).trans
      (died_dirs (by decide +kernel))
  have hrenaming := (PathApart.here died).goes hprepared rfl (Or.inr rfl)
  have hrename : StageAct otherName 1 (.staged evalsStage (.renaming false)) evalsPrepared
      (.staged evalsStage (.renamed false)) evalsPublished.shared :=
    @StageAct.renames _ _ otherName 1 evalsPrepared evalsStage false "evals" ⟨1, .empty, false⟩
      rfl (died.shared.setDir_self evalsStage _) (fun d hd => by rw [hfree] at hd; cases hd)
      (@died_files "evals" (by decide +kernel))
  have hpublished := hrenaming.act hrename (Or.inr (Or.inr fun destination hd => by
    cases hd
    refine ⟨hfree, @died_files (stageLock "evals") (by decide +kernel), fun q file => ?_⟩
    fin_cases q <;> simp [died, begun, StageSteps.opened]))
  rwa [Function.update_idem] at hpublished

theorem evalsPublished_dirs {name : String} (h : name ≠ "evals") (hs : name ≠ evalsStage) :
    evalsPublished.shared.dirs name = died.shared.dirs name :=
  ((Parent.setDir_of_ne _ h _).trans (evalsPrepared.setDir_of_ne hs none)).trans
    (died.shared.setDir_of_ne hs (some ⟨1, .empty, false⟩))

theorem stage_swept : ∃ g, PathApart otherName evalsPublished
    ⟨g, Function.update evalsPublished.phase 2 (.swept (some []))⟩ ∧
    g.dirs "evals" = some ⟨1, .full, true⟩ := by
  have hbundle : evalsPublished.shared.dirs "evals" = some ⟨1, .full, true⟩ :=
    Parent.setDir_self ..
  have hne : "evals" ≠ reusedStage := by decide +kernel
  have hstage : evalsPublished.shared.dirs reusedStage = some ⟨0, .empty, false⟩ :=
    (evalsPublished_dirs hne.symm (by decide +kernel)).trans died_stage
  have hother : ∀ name, isStageLock name = true → evalsPublished.shared.dirs name = none := by
    intro name hl
    have hbad : ∀ other, isStageLock other = false → name ≠ other := by
      intro other hno h
      rw [h, hno] at hl
      cases hl
    by_cases hs : name = evalsStage
    · exact absurd hs (hbad _ (by decide +kernel))
    · rw [evalsPublished_dirs (hbad _ (by decide +kernel)) hs]
      exact died_dirs (hbad _ (by decide +kernel))
  have hfree : evalsPublished.shared.held 0 = none := by
    simp [evalsPublished, evalsPrepared, died, claimedStage, Parent.releaseAll, Parent.setDir]
  have htaken := @takes_lock otherName rfl rfl evalsPublished.shared died_lock
    (fun name => died_files) hother hfree (by rw [hstage]; simp)
  have hremoved := Program.Goes.then htaken (.removes (by rw [stage_of_lock]; exact hstage))
  have hleft := Program.Goes.then (Program.Goes.then hremoved .unlinks) .leaves
  have hends := Program.Goes.then hleft .sweepEnds
  refine ⟨_, (PathApart.here evalsPublished).goes hends rfl (Or.inl rfl), ?_⟩
  rw [stage_of_lock]
  exact (Parent.setDir_of_ne _ hne none).trans hbundle

/-- One store dies with its claim, a bundle is published beside its stage, and a sweep that then
runs to its end removes the stage and leaves the bundle. -/
theorem dead_claim_removed : ∃ ms w ms' w', (stores otherName).system.Run ms w ∧
    w.phase 0 = .crashed (some reusedStage) ∧
    w.shared.dirs reusedStage = some ⟨0, .empty, false⟩ ∧
    (stores otherName).system.Path w ms' w' ∧ w'.shared.dirs "evals" = some ⟨1, .full, true⟩ ∧
    w'.phase 2 = .swept (some []) ∧
    ∀ d, w'.shared.dirs reusedStage = some d → d.published = true := by
  obtain ⟨ms, hdies, hok⟩ := store_dies
  obtain ⟨g, hswept, hevals⟩ := stage_swept
  obtain ⟨ms', hpath, hok'⟩ := evals_published.trans hswept
  have hstart : (stores otherName).system.start begun :=
    ⟨⟨fun _ => rfl, fun _ => rfl, fun _ => rfl, rfl⟩, fun _ => rfl⟩
  have hrun := System.Run.along (.start hstart) hdies
  refine ⟨ms, died, ms', _, hrun, rfl, died_stage, hpath, hevals, rfl, ?_⟩
  exact (sweeps_spare_live_stages otherName hrun hok).2.1 0 reusedStage 2 rfl died_lock rfl
    ms' _ hpath hok' [] rfl List.not_mem_nil

theorem owner_dies_closing : (stores reusedName).Goes 0 (.entered, emptyParent)
    (.crashed (some reusedStage), orphanedLock) := by
  have hclosing := (@claims_stage reusedName rfl).then (.closes (Or.inl rfl))
  have hdead : (stores reusedName).Goes 0 (.entered, emptyParent)
      (.crashed (some reusedStage), _) :=
    Program.Goes.then (Program.Goes.then hclosing .removesOwn) (.crash (by simp))
  convert hdead using 2
  refine Parent.ext ?_ rfl ?_ rfl
  · funext name
    by_cases he : name = reusedStage <;>
      simp [orphanedLock, claimedStage, Parent.releaseAll, Parent.setDir, he]
  · funext file
    by_cases he : file = 0 <;>
      simp [orphanedLock, claimedStage, Parent.releaseAll, Parent.setDir, he]

theorem orphanedLock_files {name : String} (h : name ≠ stageLock reusedStage) :
    orphanedLock.files name = none := if_neg h

theorem orphanedLock_there : orphanedLock.files (stageLock reusedStage) = some 0 := by
  simp [orphanedLock, claimedStage]

theorem bundle_at_stage : bundleAtStageName.dirs reusedStage = some ⟨1, .full, true⟩ := by
  simp [bundleAtStageName]

theorem publication_ne_reused : publicationStage ≠ reusedStage := by
  intro h
  have hlen := congrArg String.length h
  exact absurd hlen (by decide)

/-- `write_derived_bundle` finds nothing at the destination and renames its stage to it. -/
theorem published_at_stage_name : (stores reusedName).Goes 1 (.entered, orphanedLock)
    (.staged publicationStage (.renamed false), bundleAtStageName) := by
  have hunused : publicationStage ∉ orphanedLock.used := by
    rintro (h | h)
    · exact publication_ne_reused h
    · exact h
  have hnotLock : publicationStage ≠ stageLock reusedStage := by
    intro h
    have hlen := congrArg String.length h
    exact absurd hlen (by decide)
  have hfree := @prepares_bundle reusedName reusedStage "ijklmnop" rfl (by decide) orphanedLock
    publicationStage rfl hunused rfl (orphanedLock_files hnotLock) publication_ne_reused rfl
    (orphanedLock_files (stage_lock_ne_self reusedStage).symm)
  have hrenamed := Program.Goes.then hfree (.renames (d := ⟨1, .empty, false⟩) rfl
    (orphanedLock.setDir_self publicationStage (some ⟨1, .empty, false⟩)) (by
      intro d' hd'
      have hnone := orphanedLock.setDir_of_ne publication_ne_reused.symm (some ⟨1, .empty, false⟩)
      rw [hnone] at hd'
      cases hd')
    (orphanedLock_files (stage_lock_ne_self reusedStage).symm))
  convert hrenamed using 2
  refine Parent.ext ?_ rfl rfl rfl
  funext name
  by_cases he : name = reusedStage
  · rw [he, Parent.setDir_self, bundle_at_stage]
  · rw [Parent.setDir_of_ne _ he]
    refine (if_neg he).trans ?_
    by_cases hp : name = publicationStage
    · rw [hp, Parent.setDir_self]
    · rw [Parent.setDir_of_ne _ hp]
      exact (Parent.setDir_of_ne orphanedLock hp _).symm

/-- A bundle published under the name of a stage that is gone is deleted by the next sweep,
because the dead store's lock file still stands for that name. -/
theorem sweep_deletes_published_bundle : ∃ ms w, (stores reusedName).system.Run ms w ∧
    ∃ m ∈ ms, (m.before.phase m.label).stage = none ∧ ∃ S d, m.before.shared.dirs S = some d ∧
      d.published = true ∧ m.after.shared.dirs S = none := by
  have hstart : (stores reusedName).system.Run [] ⟨emptyParent, fun _ => .entered⟩ :=
    .start ⟨⟨fun _ => rfl, fun _ => rfl, fun _ => rfl, rfl⟩, fun _ => rfl⟩
  obtain ⟨ms₀, h₀⟩ := owner_dies_closing.run hstart rfl
  obtain ⟨ms₁, h₁⟩ := published_at_stage_name.run h₀ rfl
  have hdirs : ∀ name, isStageLock name = true → bundleAtStageName.dirs name = none := by
    intro name hl
    refine if_neg ?_
    rintro rfl
    exact absurd hl (by decide)
  have hremoving := @takes_lock reusedName rfl rfl bundleAtStageName orphanedLock_there
    (fun name => orphanedLock_files) hdirs rfl (by rw [bundle_at_stage]; simp)
  have hthere : (bundleAtStageName.lockFile 0 2).dirs (stageOf (stageLock reusedStage)) =
      some ⟨1, .full, true⟩ := by
    rw [stage_of_lock]
    exact bundle_at_stage
  have hremoved : (stores reusedName).act 2 (.sweeping (.removing (stageLock reusedStage) 0) [] [])
      (bundleAtStageName.lockFile 0 2) (.sweeping (.unlinking (stageLock reusedStage) 0) [] [])
      ((bundleAtStageName.lockFile 0 2).setDir (stageOf (stageLock reusedStage)) none) :=
    .removes hthere
  obtain ⟨ms₂, h₂⟩ := hremoving.run h₁ rfl
  refine ⟨_, ⟨_, _⟩, h₂.move (e := 2) ⟨_, hremoved, rfl⟩, _, List.mem_append_right _
    (List.mem_singleton_self _), rfl, _, _, hthere, rfl, ?_⟩
  exact Parent.setDir_self ..

end Sediment.Proofs.StageSweep
