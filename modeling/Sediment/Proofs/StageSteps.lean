import Sediment.Export.RecordStorage
import Mathlib.Tactic

namespace Sediment.Proofs.StageSteps
open Base.Transitions Export.RecordStorage

theorem is_stage_lock (directory : String) : isStageLock (stageLock directory) = true := by
  unfold isStageLock stageLock
  rw [List.isSuffixOf_iff_suffix, String.toList_append]
  exact List.suffix_append _ _

theorem pending_not_stage_lock (directory : String) :
    isStageLock (pendingLock directory) = false := by
  apply Bool.eq_false_iff.mpr
  unfold isStageLock pendingLock
  rw [Ne, List.isSuffixOf_iff_suffix, String.toList_append]
  intro h
  obtain ⟨front, h⟩ := h
  -- the last character of the two suffixes differs
  have hlast := congrArg List.getLast? h
  have hlock : stageLockSuffix.toList.getLast? = some 'k' := by decide
  have hpending : ".pending".toList.getLast? = some 'g' := by decide
  rw [List.getLast?_append, List.getLast?_append, hlock, hpending] at hlast
  cases hlast

theorem stage_of_lock (directory : String) : stageOf (stageLock directory) = directory := by
  unfold stageOf
  rw [if_pos (is_stage_lock directory)]
  unfold stageLock
  rw [String.toList_append, List.length_append, Nat.add_sub_cancel, List.take_left,
    String.ofList_toList]

theorem stage_lock_inj {a b : String} (h : stageLock a = stageLock b) : a = b := by
  rw [← stage_of_lock a, h, stage_of_lock]

theorem stage_lock_ne_pending (a b : String) : stageLock a ≠ pendingLock b := by
  intro h
  have hlock := is_stage_lock a
  rw [h, pending_not_stage_lock] at hlock
  cases hlock

variable {ι : Type*}

/-- The stage of a store that has not yet put its lock file in place. -/
def unsealed : Phase ι → Option String
  | .staged stage .created => some stage
  | .staged stage .pending => some stage
  | .staged stage .locked => some stage
  | _ => none

/-- A store that has claimed its stage, or one that has closed or died. -/
def sealed : Phase ι → Bool
  | .staged _ (.live lock) | .staged _ (.renaming lock) => lock
  | .staged _ (.renamed lock) | .staged _ (.closing lock) => lock
  | .staged _ .unlinking | .staged _ .releasing => true
  | .closed _ | .crashed _ => true
  | _ => false

/-- The lock file that a sweep has open, with its name. -/
def opened : Phase ι → Option (String × ι)
  | .sweeping (.opened name file) _ _ => some (name, file)
  | .sweeping (.holding name file) _ _ => some (name, file)
  | .sweeping (.removing name file) _ _ => some (name, file)
  | .sweeping (.unlinking name file) _ _ => some (name, file)
  | _ => none

/-- The lock file on which a sweep has the kernel's lock. -/
def taken : Phase ι → Option ι
  | .sweeping (.holding _ file) _ _ => some file
  | .sweeping (.removing _ file) _ _ => some file
  | .sweeping (.unlinking _ file) _ _ => some file
  | _ => none

def cleared : Phase ι → Option String
  | .sweeping (.unlinking name _) _ _ => some (stageOf name)
  | _ => none

def toVisit : Phase ι → List String
  | .sweeping _ todo _ => todo
  | _ => []

/-- The store has the kernel's lock on its own lock file. -/
def gripping : Phase ι → Bool
  | .staged _ .locked => true
  | .staged _ (.live lock) | .staged _ (.renaming lock) => lock
  | .staged _ (.renamed lock) | .staged _ (.closing lock) => lock
  | .staged _ .unlinking | .staged _ .releasing => true
  | _ => false

/-- No unpublished directory is left under this name. -/
def Gone (g : Parent ι) (stage : String) : Prop :=
  ∀ d, g.dirs stage = some d → d.published = true

section
variable [DecidableEq ι] {runs : ι → StageRun} {p : ι} {a b : Phase ι} {g g' : Parent ι}

/-- A store takes its stage's name once, fresh, and keeps it. -/
theorem act_stage (h : StageAct runs p a g b g') :
    (b.stage = a.stage ∧ g'.used = g.used) ∨
      ∃ stage, a.stage = none ∧ b = .staged stage .created ∧ stage ∉ g.used ∧
        g.dirs stage = none ∧ g' = { g.setDir stage (some ⟨p, .empty, false⟩) with
          used := insert stage g.used } := by
  cases h
  case mkdtemp random hf hd hn => exact Or.inr ⟨_, rfl, rfl, hf, hd, rfl⟩
  case removesOwn stage lock => exact Or.inl ⟨by cases lock <;> rfl, rfl⟩
  all_goals exact Or.inl ⟨rfl, rfl⟩

theorem act_unsealed {stage : String} (h : StageAct runs p a g b g')
    (hb : unsealed b = some stage) (ha : a.stage ≠ none) :
    unsealed a = some stage ∧ g'.dirs = g.dirs := by
  cases h
  case mkdtemp => exact absurd rfl ha
  case removesOwn stage lock => cases lock <;> cases hb
  all_goals first | exact ⟨hb, rfl⟩ | cases hb

theorem act_sealed (h : StageAct runs p a g b g') (ha : sealed a = true) : sealed b = true := by
  cases h
  case claimFails point h => obtain rfl | rfl | rfl := h <;> cases ha
  case closes point lock h =>
    obtain rfl | rfl | rfl := h <;> exact ha
  case removesOwn stage lock => cases lock <;> rfl
  all_goals first | rfl | exact ha

/-- A store that grips its lock has just locked it, or did so before. -/
theorem act_gripping (h : StageAct runs p a g b g') (hb : gripping b = true)
    (ha : gripping a = true → g.held p = some p) : g'.held p = some p := by
  cases h
  case lockPending => exact g.lockFile_self p p
  case closes point lock h => obtain rfl | rfl | rfl := h <;> exact ha hb
  case removesOwn stage lock =>
    cases lock
    · cases hb
    · exact ha rfl
  all_goals first | exact ha rfl | exact ha hb | cases hb

theorem act_taken {file : ι} (h : StageAct runs p a g b g') (hb : taken b = some file)
    (ha : taken a = some file → g.held file = some p) : g'.held file = some p := by
  cases h
  case takes =>
    obtain rfl := Option.some.inj hb
    exact g.lockFile_self _ p
  case removesOwn stage lock => cases lock <;> cases hb
  all_goals first | exact ha hb | cases hb

/-- Nobody takes a lock from the process that has it. -/
theorem act_held_other {file q : ι} (h : StageAct runs p a g b g') (hq : q ≠ p)
    (hh : g.held file = some q) : g'.held file = some q := by
  have hne : g.held file ≠ some p := by
    rw [hh]
    exact fun he => hq (Option.some.inj he)
  cases h
  case takes name todo skips taken hu hl =>
    have hother : file ≠ taken := fun he => by rw [he, hl] at hh; cases hh
    exact (g.lockFile_of_ne hother p).trans hh
  case lockPending stage hl =>
    have hother : file ≠ p := fun he => by rw [he, hl] at hh; cases hh
    exact (g.lockFile_of_ne hother p).trans hh
  case leaves => exact (if_neg (fun h => hne h.2)).trans hh
  case closesLock => exact (if_neg (fun h => hne h.2)).trans hh
  case crash => exact (if_neg hne).trans hh
  all_goals exact hh

/-- A lock file appears when its store opens it, and takes its lasting name by a rename. -/
theorem act_files {name : String} {file : ι} (h : StageAct runs p a g b g')
    (hf : g'.files name = some file) :
    g.files name = some file ∨
      (file = p ∧ ∃ stage, unsealed a = some stage ∧ b.stage = some stage ∧
        (name = pendingLock stage ∨ (name = stageLock stage ∧ sealed b = true))) := by
  cases h
  case unlinks name' todo skips file' =>
    by_cases he : name = name'
    · rw [he, Parent.setFile_self] at hf
      cases hf
    · exact Or.inl (g.setFile_of_ne he _ ▸ hf)
  case unlinksOwn stage =>
    by_cases he : name = stageLock stage
    · rw [he, Parent.setFile_self] at hf
      cases hf
    · exact Or.inl (g.setFile_of_ne he _ ▸ hf)
  case openPending stage hc hfree hd =>
    by_cases he : name = pendingLock stage
    · rw [he, Parent.setFile_self] at hf
      exact Or.inr ⟨(Option.some.inj hf).symm, stage, rfl, rfl, Or.inl he⟩
    · exact Or.inl (g.setFile_of_ne he _ ▸ hf)
  case renamePending stage hd =>
    by_cases he : name = stageLock stage
    · rw [he, Parent.setFile_self] at hf
      exact Or.inr ⟨(Option.some.inj hf).symm, stage, rfl, rfl, Or.inr ⟨he, rfl⟩⟩
    · rw [Parent.setFile_of_ne _ he] at hf
      by_cases hp : name = pendingLock stage
      · rw [hp, Parent.setFile_self] at hf
        cases hf
      · exact Or.inl (g.setFile_of_ne hp _ ▸ hf)
  all_goals exact Or.inl hf

theorem act_opened {name : String} {file : ι} (h : StageAct runs p a g b g')
    (hb : opened b = some (name, file)) :
    opened a = some (name, file) ∨ (name ∈ toVisit a ∧ g.files name = some file) := by
  cases h
  case opens name' todo skips file' hf =>
    obtain ⟨rfl, rfl⟩ := Prod.mk.inj (Option.some.inj hb)
    exact Or.inr ⟨List.mem_cons_self .., hf⟩
  case removesOwn stage lock => cases lock <;> cases hb
  all_goals first | exact Or.inl hb | cases hb

theorem act_to_visit {name : String} (h : StageAct runs p a g b g') (hb : name ∈ toVisit b) :
    name ∈ toVisit a ∨ isStageLock name = true := by
  cases h
  case list names hc hn => exact Or.inr ((hn name).mp hb).1
  case removesOwn stage lock => cases lock <;> cases hb
  all_goals first | exact Or.inl hb | exact Or.inl (List.mem_cons_of_mem _ hb) | cases hb

/-- What a step can do to the directory of one name. -/
theorem act_dirs (h : StageAct runs p a g b g') (name : String) :
    g'.dirs name = g.dirs name ∨
    (a.stage = none ∧ b = .staged name .created ∧ name ∉ g.used ∧ g.dirs name = none ∧
      g'.dirs name = some ⟨p, .empty, false⟩) ∨
    (a.stage = some name ∧ unsealed a = none ∧
      (g'.dirs name = none ∨ ∃ d c, g.dirs name = some d ∧
        g'.dirs name = some { d with content := c })) ∨
    (∃ lockName file, opened a = some (lockName, file) ∧ taken a = some file ∧
      name = stageOf lockName ∧ (g'.dirs name = none ∧ cleared b = some name ∨
        ∃ d c, g.dirs name = some d ∧ g'.dirs name = some { d with content := c })) ∨
    (∃ stage lock, a = .staged stage (.renaming lock) ∧ b = .staged stage (.renamed lock) ∧
      (runs p).destination = some name ∧ ∃ d, g'.dirs name = some d ∧ d.published = true) := by
  cases h
  case damages lockName todo skips file d hd =>
    by_cases he : name = stageOf lockName
    · subst he
      exact Or.inr (Or.inr (Or.inr (Or.inl ⟨lockName, file, rfl, rfl, rfl,
        Or.inr ⟨d, .damaged, hd, g.setDir_self _ _⟩⟩)))
    · exact Or.inl (g.setDir_of_ne he _)
  case removes lockName todo skips file d hd =>
    by_cases he : name = stageOf lockName
    · subst he
      exact Or.inr (Or.inr (Or.inr (Or.inl ⟨lockName, file, rfl, rfl, rfl,
        Or.inl ⟨g.setDir_self _ _, rfl⟩⟩)))
    · exact Or.inl (g.setDir_of_ne he _)
  case mkdtemp skips random hf hd hn =>
    by_cases he : name = (runs p).stem ++ random
    · subst he
      exact Or.inr (Or.inl ⟨rfl, rfl, hf, hd, g.setDir_self _ _⟩)
    · exact Or.inl (g.setDir_of_ne he _)
  case writes stage lock d hd =>
    by_cases he : name = stage
    · subst he
      exact Or.inr (Or.inr (Or.inl ⟨rfl, rfl, Or.inr ⟨d, .full, hd, g.setDir_self _ _⟩⟩))
    · exact Or.inl (g.setDir_of_ne he _)
  case renames stage lock destination d hdest hs hd hf =>
    by_cases he : name = destination
    · subst he
      exact Or.inr (Or.inr (Or.inr (Or.inr ⟨stage, lock, rfl, rfl, hdest,
        _, Parent.setDir_self _ _ _, rfl⟩)))
    · by_cases hst : name = stage
      · subst hst
        refine Or.inr (Or.inr (Or.inl ⟨rfl, rfl, Or.inl ?_⟩))
        exact (Parent.setDir_of_ne _ he _).trans (g.setDir_self _ _)
      · exact Or.inl ((Parent.setDir_of_ne _ he _).trans (g.setDir_of_ne hst _))
  case damagesOwn stage lock d hd =>
    by_cases he : name = stage
    · subst he
      exact Or.inr (Or.inr (Or.inl ⟨rfl, rfl, Or.inr ⟨d, .damaged, hd, g.setDir_self _ _⟩⟩))
    · exact Or.inl (g.setDir_of_ne he _)
  case removesOwn stage lock =>
    by_cases he : name = stage
    · subst he
      exact Or.inr (Or.inr (Or.inl ⟨rfl, rfl, Or.inl (g.setDir_self _ _)⟩))
    · exact Or.inl (g.setDir_of_ne he _)
  all_goals exact Or.inl rfl

/-- A lock file loses its name to a sweep that has cleared its stage, or to its own store. -/
theorem act_files_lost {name : String} {file : ι} (h : StageAct runs p a g b g')
    (hf : g.files name = some file) (hlost : g'.files name ≠ some file) :
    (∃ f, opened a = some (name, f) ∧ taken a = some f ∧ cleared a = some (stageOf name)) ∨
      ∃ stage, a.stage = some stage ∧ a.live = true ∧
        (name = stageLock stage ∨ name = pendingLock stage) := by
  cases h
  case unlinks name' todo skips file' =>
    by_cases he : name = name'
    · subst he
      exact Or.inl ⟨file', rfl, rfl, rfl⟩
    · exact absurd ((g.setFile_of_ne he _).trans hf) hlost
  case unlinksOwn stage =>
    by_cases he : name = stageLock stage
    · exact Or.inr ⟨stage, rfl, rfl, Or.inl he⟩
    · exact absurd ((g.setFile_of_ne he _).trans hf) hlost
  case openPending stage hc hfree hd =>
    by_cases he : name = pendingLock stage
    · exact Or.inr ⟨stage, rfl, rfl, Or.inr he⟩
    · exact absurd ((g.setFile_of_ne he _).trans hf) hlost
  case renamePending stage hd =>
    by_cases he : name = stageLock stage
    · exact Or.inr ⟨stage, rfl, rfl, Or.inl he⟩
    · by_cases hp : name = pendingLock stage
      · exact Or.inr ⟨stage, rfl, rfl, Or.inr hp⟩
      · exact absurd ((Parent.setFile_of_ne _ he _).trans
          ((g.setFile_of_ne hp _).trans hf)) hlost
  all_goals exact absurd hf hlost

/-- A sweep is about to unlink a lock only when it has found or made its stage's name free. -/
theorem act_cleared {stage : String} (h : StageAct runs p a g b g')
    (hb : cleared b = some stage) :
    cleared a = some stage ∨
      ∃ name file, opened a = some (name, file) ∧ stage = stageOf name ∧ g'.dirs stage = none := by
  cases h
  case noDirectory name todo skips file hd =>
    obtain rfl := Option.some.inj hb
    exact Or.inr ⟨name, file, rfl, rfl, hd⟩
  case removes name todo skips file d hd =>
    obtain rfl := Option.some.inj hb
    exact Or.inr ⟨name, file, rfl, rfl, g.setDir_self _ _⟩
  case removesOwn stage' lock => cases lock <;> cases hb
  all_goals first | exact Or.inl hb | cases hb

end

theorem unsealed_stage {a : Phase ι} {stage : String} (h : unsealed a = some stage) :
    a.stage = some stage := by
  unfold unsealed at h
  split at h <;> first | exact h | cases h

theorem unsealed_not_sealed {a : Phase ι} {stage : String} (h : unsealed a = some stage) :
    sealed a = false := by
  unfold unsealed at h
  split at h <;> first | rfl | cases h

theorem live_sealed_gripping {a : Phase ι} (hl : a.live = true) (hs : sealed a = true) :
    gripping a = true := by
  cases a with
  | staged stage point => cases point <;> first | exact hs | rfl
  | _ => cases hl

theorem taken_opened {a : Phase ι} {file : ι} (h : taken a = some file) :
    ∃ name, opened a = some (name, file) := by
  unfold taken at h
  split at h <;> first | (obtain rfl := Option.some.inj h; exact ⟨_, rfl⟩) | cases h

end Sediment.Proofs.StageSteps
