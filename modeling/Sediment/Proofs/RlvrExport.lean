import Sediment.Export.Rlvr

namespace Sediment.Proofs.RlvrExport
open Base.Transitions Sediment.Core Export

variable {ι : Type*}

theorem write_jsonl_tasks (split_enabled : Bool) (rows : List Split) :
    ∀ name ∈ writeJsonl "tasks" split_enabled rows, name ∈ rlvrArtifactFilenames := by
  intro name hn
  unfold writeJsonl at hn
  split at hn
  · obtain ⟨side, -, rfl⟩ := List.mem_map.mp hn
    cases side <;> simp [splitPath, Split.value, rlvrArtifactFilenames]
  · split at hn
    · cases hn
    · obtain rfl := List.mem_singleton.mp hn
      simp [rlvrArtifactFilenames]

theorem write_jsonl_rollouts (split_enabled : Bool) (rows : List Split) :
    ∀ name ∈ writeJsonl "rollouts" split_enabled rows, name ∈ rlvrArtifactFilenames := by
  intro name hn
  unfold writeJsonl at hn
  split at hn
  · obtain ⟨side, -, rfl⟩ := List.mem_map.mp hn
    cases side <;> simp [splitPath, Split.value, rlvrArtifactFilenames]
  · split at hn
    · cases hn
    · obtain rfl := List.mem_singleton.mp hn
      simp [rlvrArtifactFilenames]

/-- Every file that an export publishes is one that the next export looks for. -/
theorem prepared_are_artifacts (run : ExportRun) :
    ∀ name ∈ run.preparedFiles, name ∈ rlvrArtifactFilenames := by
  intro name hn
  simp only [ExportRun.preparedFiles, List.mem_append] at hn
  obtain (hn | hn) | hn := hn
  · split at hn
    · exact write_jsonl_tasks _ _ name hn
    · cases hn
  · split at hn
    · exact write_jsonl_rollouts _ _ name hn
    · cases hn
  · split at hn
    · obtain rfl := List.mem_singleton.mp hn
      simp [rlvrArtifactFilenames]
    · cases hn

/-- The marker file names the target. -/
def Named (g : OutputDir ι) (target : RLVRTarget) : Prop :=
  ∃ text, g.marker = some text ∧ strip text = target.value

def Clear (g : OutputDir ι) : Prop := ∀ name ∈ rlvrArtifactFilenames, g.artifacts name = none

/-- One run produced all that is there, and the marker names its target. -/
structure OneGeneration (runs : ι → ExportRun) (g : OutputDir ι) : Prop where
  known : ∀ name p, g.artifacts name = some p → name ∈ rlvrArtifactFilenames
  single : ∀ name p, g.artifacts name = some p → ∀ name' q, g.artifacts name' = some q → q = p
  named : ∀ name p, g.artifacts name = some p → Named g (runs p).target

/-- What a run that holds the lock may rely on at each point. -/
def Claim (runs : ι → ExportRun) (p : ι) : Phase → OutputDir ι → Prop
  | .listing claimed names found, g =>
    (found = [] → ∀ name ∈ rlvrArtifactFilenames, name ∉ names → g.artifacts name = none) ∧
      (claimed = true → Named g (runs p).target)
  | .linking, g => Clear g
  | .working, g => Clear g ∧ Named g (runs p).target
  | .publishing files, g =>
    (∀ name q, g.artifacts name = some q → q = p) ∧ Named g (runs p).target ∧
      ∀ file ∈ files, file ∈ rlvrArtifactFilenames
  | _, _ => True

theorem target_marker_named (target : RLVRTarget) : strip (target.value ++ "\n") = target.value := by
  cases target <;> decide

theorem Clear.no_artifact {runs : ι → ExportRun} {g : OutputDir ι} (h : Clear g)
    (hg : OneGeneration runs g) (name : String) : g.artifacts name = none := by
  cases he : g.artifacts name with
  | none => rfl
  | some p => exact absurd (h name (hg.known name p he)) (by simp [he])

theorem one_generation_of_clear {runs : ι → ExportRun} {g : OutputDir ι}
    (h : ∀ name, g.artifacts name = none) : OneGeneration runs g := by
  constructor <;> intro name p hp <;> rw [h name] at hp <;> cases hp

/-- Replacing one more file leaves a directory that the publishing run alone has filled. -/
theorem OneGeneration.replace {runs : ι → ExportRun} {g : OutputDir ι} {p : ι} {file : String}
    (hfile : file ∈ rlvrArtifactFilenames)
    (hg : OneGeneration runs g) (hown : ∀ name q, g.artifacts name = some q → q = p)
    (hn : Named g (runs p).target) :
    OneGeneration runs { g with artifacts := Function.update g.artifacts file (some p) } ∧
      ∀ name q, Function.update g.artifacts file (some p) name = some q → q = p := by
  have hall : ∀ name q, Function.update g.artifacts file (some p) name = some q → q = p := by
    intro name q hq
    by_cases he : name = file
    · subst he
      rw [Function.update_self] at hq
      exact (Option.some.inj hq).symm
    · rw [Function.update_of_ne he] at hq
      exact hown name q hq
  refine ⟨⟨?_, ?_, ?_⟩, hall⟩
  · intro name q hq
    by_cases he : name = file
    · exact he ▸ hfile
    · change Function.update g.artifacts file (some p) name = some q at hq
      rw [Function.update_of_ne he] at hq
      exact hg.known name q hq
  · intro name q hq name' r hr
    rw [hall name q hq, hall name' r hr]
  · intro name q hq
    rw [hall name q hq]
    exact hn

theorem exports_guarded (runs : ι → ExportRun) :
    (exports runs).Guarded (fun a => a.inside = true) (fun g => g.lock = true) where
  entry := by simp [exports, Phase.inside]
  outside := by
    intro p a g b g' h hout
    cases h
    case invalid => exact Or.inl ⟨hout, rfl⟩
    case mkdir h => exact Or.inr ⟨by simp [h], rfl⟩
    case inProgress => exact Or.inl ⟨hout, rfl⟩
    case raises h => exact absurd h hout
    case crash => exact Or.inl ⟨by simp [Phase.inside], rfl⟩
    all_goals exact absurd rfl hout
  inside := by
    intro p a g b g' h hin hin' hl
    cases h
    case mkdir => cases hin
    case rmdir => cases hin'
    all_goals exact hl

/-- Each step keeps the directory to one generation, and the run to what it relies on. -/
theorem act_keeps (runs : ι → ExportRun) (p : ι) (a : Phase) (g : OutputDir ι) (b : Phase)
    (g' : OutputDir ι) (h : ExportAct p (runs p) a g b g') (hg : OneGeneration runs g)
    (hc : a.inside = true → Claim runs p a g) :
    OneGeneration runs g' ∧ (b.inside = true → Claim runs p b g') := by
  cases h
  case invalid => exact ⟨hg, fun hb => by cases hb⟩
  case mkdir => exact ⟨⟨hg.known, hg.single, hg.named⟩, fun _ => trivial⟩
  case inProgress => exact ⟨hg, fun hb => by cases hb⟩
  case markerExists => exact ⟨hg, fun _ => trivial⟩
  case markerAbsent =>
    exact ⟨hg, fun _ => ⟨fun _ name hn hnot => absurd hn hnot, fun hf => by cases hf⟩⟩
  case claimed text ht h =>
    exact ⟨hg, fun _ => ⟨fun _ name hn hnot => absurd hn hnot, fun _ => ⟨text, h, ht⟩⟩⟩
  case foreign => exact ⟨hg, fun _ => trivial⟩
  case present claimed name names found h =>
    refine ⟨hg, fun _ => ⟨fun he => ?_, (hc rfl).2⟩⟩
    exact absurd he (by simp)
  case absent claimed name names found h =>
    refine ⟨hg, fun _ => ⟨fun he name' hn hnot => ?_, (hc rfl).2⟩⟩
    by_cases hsame : name' = name
    · exact hsame ▸ h
    · exact (hc rfl).1 he name' hn (by simp [hsame, hnot])
  case existing => exact ⟨hg, fun _ => trivial⟩
  case unused =>
    exact ⟨hg, fun _ => ⟨fun name hn => (hc rfl).1 rfl name hn (by simp), (hc rfl).2 rfl⟩⟩
  case notStale => exact ⟨hg, fun _ name hn => (hc rfl).1 rfl name hn (by simp)⟩
  case link h =>
    have hclear : Clear g := hc rfl
    refine ⟨one_generation_of_clear (hclear.no_artifact hg), fun _ => ⟨hclear, ?_⟩⟩
    exact ⟨_, rfl, target_marker_named _⟩
  case linkExists => exact ⟨hg, fun _ => trivial⟩
  case prepared =>
    obtain ⟨hclear, hn⟩ : Clear g ∧ Named g (runs p).target := hc rfl
    refine ⟨hg, fun _ => ⟨?_, hn, prepared_are_artifacts _⟩⟩
    intro name q hq
    rw [hclear.no_artifact hg] at hq
    cases hq
  case replace file files =>
    obtain ⟨hown, hn, hfiles⟩ : (∀ name q, g.artifacts name = some q → q = p) ∧
      Named g (runs p).target ∧ ∀ f ∈ file :: files, f ∈ rlvrArtifactFilenames := hc rfl
    obtain ⟨hg', hown'⟩ := hg.replace (hfiles file (by simp)) hown hn
    exact ⟨hg', fun _ => ⟨hown', hn, fun f hf => hfiles f (List.mem_cons_of_mem _ hf)⟩⟩
  case published => exact ⟨hg, fun _ => trivial⟩
  case raises => exact ⟨hg, fun _ => trivial⟩
  case rmdir => exact ⟨⟨hg.known, hg.single, hg.named⟩, fun hb => by cases hb⟩
  case cleanupFailed => exact ⟨hg, fun hb => by cases hb⟩
  case crash => exact ⟨hg, fun hb => by cases hb⟩

/-- Only a publishing step touches an artifact file. -/
theorem act_frame {p : ι} {run : ExportRun} {a b : Phase} {g g' : OutputDir ι}
    (h : ExportAct p run a g b g') (ha : ∀ files, a ≠ .publishing files) :
    g'.artifacts = g.artifacts := by
  cases h
  case replace file files => exact absurd rfl (ha (file :: files))
  all_goals rfl

variable [DecidableEq ι]

/-- In every interleaving of exports into one directory, crashes and failures included, the
artifact files present are all from one run, whose target the marker file names; and no step of
a run that never came to publishing changed an artifact file. -/
theorem directory_holds_one_export (runs : ι → ExportRun)
    {ms : List (Move (World ι Phase (OutputDir ι)) ι)} {w : World ι Phase (OutputDir ι)}
    (h : (exports runs).system.Run ms w) :
    (∀ name p, w.shared.artifacts name = some p →
      (∀ name' q, w.shared.artifacts name' = some q → q = p) ∧
        ∃ text, w.shared.marker = some text ∧ strip text = (runs p).target.value) ∧
    ∀ p, (∀ m ∈ ms, m.label = p → ∀ files, m.before.phase p ≠ .publishing files) →
      ∀ m ∈ ms, m.label = p → m.after.shared.artifacts = m.before.shared.artifacts := by
  constructor
  · obtain ⟨hg, -⟩ := (exports_guarded runs).invariant (K := Claim runs) (G := OneGeneration runs)
      (fun g hg => one_generation_of_clear hg) (act_keeps runs) h
    intro name p hp
    exact ⟨hg.single name p hp, hg.named name p hp⟩
  · intro p hp m hm hl
    obtain ⟨-, b, hact, -⟩ := h.moves_where (I := fun _ => True) (A := fun _ => True)
      (fun _ _ => trivial) (fun _ _ _ _ => trivial) (fun _ _ => trivial) m hm
    rw [hl] at hact
    exact act_frame hact (hp m hm hl)

omit [DecidableEq ι] in
/-- A search that finds no artifact file goes on to its end. -/
theorem listing_goes (runs : ι → ExportRun) (p : ι) (claimed : Bool) {g : OutputDir ι}
    (names : List String) (h : ∀ name ∈ names, g.artifacts name = none) :
    (exports runs).Goes p (.listing claimed names [], g) (.listing claimed [] [], g) := by
  induction names with
  | nil => exact .refl
  | cons name names ih =>
    have hfirst : (exports runs).act p (.listing claimed (name :: names) []) g
        (.listing claimed names []) g := .absent (h name (by simp))
    exact .after hfirst (ih (fun n hn => h n (List.mem_cons_of_mem _ hn)))

omit [DecidableEq ι] in
/-- Publishing to the end leaves the run's own file at each of its names. -/
theorem publishing_goes (runs : ι → ExportRun) (p : ι) (files : List String) (g : OutputDir ι) :
    (exports runs).Goes p (.publishing files, g)
      (.publishing [], { g with
        artifacts := fun name => if name ∈ files then some p else g.artifacts name }) := by
  induction files generalizing g with
  | nil =>
    simp only [List.not_mem_nil, if_false]
    exact .refl
  | cons file files ih =>
    have hfirst : (exports runs).act p (.publishing (file :: files)) g (.publishing files)
        { g with artifacts := Function.update g.artifacts file (some p) } := .replace
    refine .after hfirst ?_
    have hrest := ih { g with artifacts := Function.update g.artifacts file (some p) }
    convert hrest using 4 with name
    by_cases hn : name = file
    · simp [hn, Function.update]
    · simp [hn, Function.update]

/-- An export alone in an empty directory publishes what it has prepared, and frees the lock. -/
theorem lone_export_publishes (runs : ι → ExportRun) (p : ι) :
    ∃ ms, (exports runs).system.Run ms
      ⟨⟨false, some ((runs p).target.value ++ "\n"),
        fun name => if name ∈ (runs p).preparedFiles then some p else none⟩,
        Function.update (fun _ => .entered) p (.ended .returned)⟩ := by
  let empty : OutputDir ι := ⟨false, none, fun _ => none⟩
  let marked : OutputDir ι := ⟨true, some ((runs p).target.value ++ "\n"), fun _ => none⟩
  have hstart : (exports runs).system.Run [] ⟨empty, fun _ => .entered⟩ :=
    .start ⟨fun _ => rfl, fun _ => rfl⟩
  have hlocked : (exports runs).Goes p (.entered, empty) (.checking, { empty with lock := true }) :=
    .after (.mkdir rfl) .refl
  have hlisted := (hlocked.then (.markerAbsent rfl)).trans
    (listing_goes runs p false rlvrArtifactFilenames (fun _ _ => rfl))
  have hlinked : (exports runs).Goes p (.entered, empty) (.working, marked) :=
    Program.Goes.then (Program.Goes.then hlisted .notStale) (.link rfl)
  have hpublished := (hlinked.then .prepared).trans (publishing_goes runs p _ marked)
  have hdone := Program.Goes.then (Program.Goes.then hpublished .published) .rmdir
  exact hdone.run hstart rfl

/-- One export for SWE-bench, then one for NeMo Gym into the same directory. -/
def twoTargets : Bool → ExportRun
  | false => ⟨.sweBench, false, [.train], [], false⟩
  | true => ⟨.nemoGym, false, [], [.train], false⟩

theorem second_target_refused : ∃ ms w, (exports twoTargets).system.Run ms w ∧
    w.phase true = .ended .raised ∧ w.shared.artifacts "tasks.jsonl" = some false ∧
    ∀ name q, w.shared.artifacts name = some q → q = false := by
  obtain ⟨ms, hr⟩ := lone_export_publishes twoTargets false
  let done : OutputDir Bool := ⟨false, some "swe-bench\n",
    fun name => if name ∈ (twoTargets false).preparedFiles then some false else none⟩
  have hlocked : (exports twoTargets).Goes true (.entered, done)
      (.checking, { done with lock := true }) := .after (.mkdir rfl) .refl
  have hread := hlocked.then (.markerExists (by simp [done]))
  have hstays : (exports twoTargets).act true .reading { done with lock := true }
      (.releasing .raised) { done with lock := true } :=
    .foreign rfl (show strip "swe-bench\n" ≠ "nemo-gym" by decide)
  have hforeign := Program.Goes.then hread hstays
  obtain ⟨ms', hr'⟩ := (Program.Goes.then hforeign .rmdir).run hr rfl
  have hprepared : "tasks.jsonl" ∈ (twoTargets false).preparedFiles := by decide
  have htasks : done.artifacts "tasks.jsonl" = some false := by simp only [done, if_pos hprepared]
  exact ⟨ms', _, hr', rfl, htasks,
    ((directory_holds_one_export twoTargets hr').1 _ _ htasks).1⟩

end Sediment.Proofs.RlvrExport
