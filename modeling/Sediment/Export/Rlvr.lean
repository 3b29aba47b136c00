import Sediment.Base.Transitions
import Sediment.Core.Models

namespace Sediment.Export
open Base.Transitions Sediment.Core

inductive Split where
  | train | eval
  deriving DecidableEq, Repr

def Split.value : Split → String
  | .train => "train"
  | .eval => "eval"

/-- `tasks` and `"train"` give `tasks.train.jsonl`. -/
def splitPath (stem : String) (side : Split) : String := stem ++ "." ++ side.value ++ ".jsonl"

/-- The files `write_jsonl` leaves for rows of these sides; a file without rows is not written. -/
def writeJsonl (stem : String) (split_enabled : Bool) (rows : List Split) : List String :=
  if split_enabled then
    ([.train, .eval] : List Split).filter (· ∈ rows) |>.map (splitPath stem)
  else if rows = [] then [] else [stem ++ ".jsonl"]

inductive RLVRTarget where
  | sediment | sweBench | nemoGym
  deriving DecidableEq, Repr

def RLVRTarget.value : RLVRTarget → String
  | .sediment => "sediment"
  | .sweBench => "swe-bench"
  | .nemoGym => "nemo-gym"

def rlvrArtifactFilenames : List String :=
  ["tasks.jsonl", "tasks.train.jsonl", "tasks.eval.jsonl", "rollouts.jsonl",
    "rollouts.train.jsonl", "rollouts.eval.jsonl", "environment.yaml"]

/-- What one export was asked for, and the rows and manifest that it projects. -/
structure ExportRun where
  target : RLVRTarget
  split_enabled : Bool
  tasks : List Split
  trajectories : List Split
  manifest : Bool
  deriving DecidableEq, Repr

/-- The prepared files in the order in which they replace those of the output directory. -/
def ExportRun.preparedFiles (run : ExportRun) : List String :=
  (if run.target ≠ .nemoGym then writeJsonl "tasks" run.split_enabled run.tasks else []) ++
  (if run.target ≠ .sweBench then writeJsonl "rollouts" run.split_enabled run.trajectories
    else []) ++
  (if run.target = .sediment ∧ run.manifest then ["environment.yaml"] else [])

/-- The output directory: its lock directory, the text of its target marker, and for each file
name the run whose file is there. -/
structure OutputDir (ι : Type*) where
  lock : Bool
  marker : Option String
  artifacts : String → Option ι

inductive Result where
  | returned | raised
  deriving DecidableEq, Repr

/-- Where a run stands. `listing claimed names found` is in the midst of collecting the present
artifact files, under a marker of its own target or under none. -/
inductive Phase where
  | entered
  | checking
  | reading
  | listing (claimed : Bool) (names found : List String)
  | linking
  | working
  | publishing (files : List String)
  | releasing (result : Result)
  | ended (result : Result)
  | crashed
  deriving DecidableEq, Repr

/-- The run has made the lock directory and not yet come to its end. -/
def Phase.inside : Phase → Bool
  | .entered | .ended _ | .crashed => false
  | _ => true

/-- One step of `export_rlvr_from_rollouts` in its output directory. -/
inductive ExportAct {ι : Type*} (p : ι) (run : ExportRun) :
    Phase → OutputDir ι → Phase → OutputDir ι → Prop where
  | invalid {g} : ExportAct p run .entered g (.ended .raised) g
  | mkdir {g} (h : g.lock = false) : ExportAct p run .entered g .checking { g with lock := true }
  | inProgress {g} (h : g.lock = true) : ExportAct p run .entered g (.ended .raised) g
  | markerExists {g} (h : g.marker ≠ none) : ExportAct p run .checking g .reading g
  | markerAbsent {g} (h : g.marker = none) :
      ExportAct p run .checking g (.listing false rlvrArtifactFilenames []) g
  | claimed {g text} (h : g.marker = some text) (ht : strip text = run.target.value) :
      ExportAct p run .reading g (.listing true rlvrArtifactFilenames []) g
  | foreign {g text} (h : g.marker = some text) (ht : strip text ≠ run.target.value) :
      ExportAct p run .reading g (.releasing .raised) g
  | present {g claimed name names found} (h : g.artifacts name ≠ none) :
      ExportAct p run (.listing claimed (name :: names) found) g
        (.listing claimed names (found ++ [name])) g
  | absent {g claimed name names found} (h : g.artifacts name = none) :
      ExportAct p run (.listing claimed (name :: names) found) g (.listing claimed names found) g
  | existing {g claimed found} (h : found ≠ []) :
      ExportAct p run (.listing claimed [] found) g (.releasing .raised) g
  | unused {g} : ExportAct p run (.listing true [] []) g .working g
  | notStale {g} : ExportAct p run (.listing false [] []) g .linking g
  | link {g} (h : g.marker = none) :
      ExportAct p run .linking g .working { g with marker := some (run.target.value ++ "\n") }
  | linkExists {g} (h : g.marker ≠ none) : ExportAct p run .linking g .checking g
  | prepared {g} : ExportAct p run .working g (.publishing run.preparedFiles) g
  | replace {g file files} :
      ExportAct p run (.publishing (file :: files)) g (.publishing files)
        { g with artifacts := Function.update g.artifacts file (some p) }
  | published {g} : ExportAct p run (.publishing []) g (.releasing .returned) g
  | raises {a g} (h : a.inside = true) : ExportAct p run a g (.releasing .raised) g
  | rmdir {g result} :
      ExportAct p run (.releasing result) g (.ended result) { g with lock := false }
  | cleanupFailed {g result} : ExportAct p run (.releasing result) g (.ended result) g
  | crash {a g} : ExportAct p run a g .crashed g

/-- Any number of exports into one directory in which no artifact file is yet; a lock directory
or a marker may already be there. -/
def exports {ι : Type*} (runs : ι → ExportRun) : Program ι Phase (OutputDir ι) where
  boot g := ∀ name, g.artifacts name = none
  entry := .entered
  act p := ExportAct p (runs p)

end Sediment.Export
