import Sediment.Base.Transitions

namespace Sediment.Export.RecordStorage
open Base.Transitions

def stageLockSuffix : String := ".sediment-stage-lock"

def stageLock (directory : String) : String := directory ++ stageLockSuffix

def pendingLock (directory : String) : String := stageLock directory ++ ".pending"

def isStageLock (name : String) : Bool := stageLockSuffix.toList.isSuffixOf name.toList

/-- `name.removesuffix(_STAGE_LOCK_SUFFIX)`. -/
def stageOf (name : String) : String :=
  if isStageLock name then
    String.ofList (name.toList.take (name.toList.length - stageLockSuffix.toList.length))
  else name

/-- The arguments of one `RecordStore`, and where `write_derived_bundle` renames its stage. -/
structure StageRun where
  user : Nat
  stem : String
  destination : Option String
  deriving DecidableEq, Repr

def StageRun.claims (run : StageRun) : Bool := ".sediment-".toList.isPrefixOf run.stem.toList

/-- The stage in which `write_derived_bundle` prepares the bundle. -/
def writeDerivedBundle (user : Nat) (destination : String) : StageRun :=
  ⟨user, "." ++ destination ++ ".", some destination⟩

/-- What is in a directory: nothing yet, its records, or what a removal has left so far. -/
inductive Content where
  | empty | full | damaged
  deriving DecidableEq, Repr

/-- A directory with the run that made it; `published` once it is at its destination. -/
structure StageDir (ι : Type*) where
  owner : ι
  content : Content
  published : Bool
  deriving DecidableEq, Repr

/-- The parent directory. A lock file is the file its run created, under whichever name; `held`
says who holds the kernel's lock on it, and `used` which temporary names have been given out. -/
@[ext]
structure Parent (ι : Type*) where
  dirs : String → Option (StageDir ι)
  files : String → Option ι
  held : ι → Option ι
  used : Set String

section
variable {ι : Type*}

def Parent.setDir (g : Parent ι) (name : String) (d : Option (StageDir ι)) : Parent ι :=
  { g with dirs := Function.update g.dirs name d }

@[simp]
theorem Parent.setDir_self (g : Parent ι) (name : String) (d : Option (StageDir ι)) :
    (g.setDir name d).dirs name = d := Function.update_self ..

theorem Parent.setDir_of_ne (g : Parent ι) {name other : String} (h : other ≠ name)
    (d : Option (StageDir ι)) : (g.setDir name d).dirs other = g.dirs other :=
  Function.update_of_ne h ..

def Parent.setFile (g : Parent ι) (name : String) (file : Option ι) : Parent ι :=
  { g with files := Function.update g.files name file }

@[simp]
theorem Parent.setFile_self (g : Parent ι) (name : String) (file : Option ι) :
    (g.setFile name file).files name = file := Function.update_self ..

theorem Parent.setFile_of_ne (g : Parent ι) {name other : String} (h : other ≠ name)
    (file : Option ι) : (g.setFile name file).files other = g.files other :=
  Function.update_of_ne h ..

variable [DecidableEq ι]

def Parent.lockFile (g : Parent ι) (file p : ι) : Parent ι :=
  { g with held := Function.update g.held file (some p) }

@[simp]
theorem Parent.lockFile_self (g : Parent ι) (file p : ι) :
    (g.lockFile file p).held file = some p := Function.update_self ..

theorem Parent.lockFile_of_ne (g : Parent ι) {file other : ι} (h : other ≠ file) (p : ι) :
    (g.lockFile file p).held other = g.held other := Function.update_of_ne h ..

/-- Closing a descriptor gives up the lock it had. -/
def Parent.closeFile (g : Parent ι) (file p : ι) : Parent ι :=
  { g with held := fun i => if i = file ∧ g.held i = some p then none else g.held i }

/-- The kernel gives up every lock of a process that dies. -/
def Parent.releaseAll (g : Parent ι) (p : ι) : Parent ι :=
  { g with held := fun i => if g.held i = some p then none else g.held i }

end

/-- Where a sweep stands with the lock file at hand. -/
inductive SweepPoint (ι : Type*) where
  | next
  | opened (name : String) (file : ι)
  | holding (name : String) (file : ι)
  | removing (name : String) (file : ι)
  | unlinking (name : String) (file : ι)
  | leaving (file : ι)

/-- Where a store with a stage stands; `lock` tells whether it has claimed its stage. -/
inductive StagePoint where
  | created | pending | locked
  | live (lock : Bool)
  | renaming (lock : Bool)
  | renamed (lock : Bool)
  | closing (lock : Bool)
  | unlinking | releasing
  deriving DecidableEq, Repr

/-- `sweeping point todo skips`: the names still to look at, and those left behind because the lock
could not be opened or taken or the stage not removed. A sweep that came to its end leaves
`swept (some skips)`. -/
inductive Phase (ι : Type*) where
  | entered
  | sweeping (point : SweepPoint ι) (todo skips : List String)
  | swept (skips : Option (List String))
  | staged (stage : String) (point : StagePoint)
  | closed (stage : String)
  | crashed (stage : Option String)

def Phase.stage {ι : Type*} : Phase ι → Option String
  | .staged stage _ => some stage
  | .closed stage => some stage
  | .crashed stage => stage
  | _ => none

/-- The directory is its process's own: created or claimed, and not yet closed. -/
def Phase.live {ι : Type*} : Phase ι → Bool
  | .staged _ _ => true
  | _ => false

def Phase.dead {ι : Type*} : Phase ι → Bool
  | .crashed _ => true
  | _ => false

variable {ι : Type*} [DecidableEq ι]

/-- One step of a `RecordStore`, its sweep and its publication included. -/
inductive StageAct (runs : ι → StageRun) (p : ι) :
    Phase ι → Parent ι → Phase ι → Parent ι → Prop where
  -- `_remove_abandoned_stages`
  | unclaimed {g} (h : (runs p).claims = false) : StageAct runs p .entered g (.swept none) g
  | unlisted {g} : StageAct runs p .entered g (.swept none) g
  | list {g names} (h : (runs p).claims = true)
      (hn : ∀ name, name ∈ names ↔
        isStageLock name = true ∧ (g.files name ≠ none ∨ g.dirs name ≠ none)) :
      StageAct runs p .entered g (.sweeping .next names []) g
  | opens {g name todo skips file} (h : g.files name = some file) :
      StageAct runs p (.sweeping .next (name :: todo) skips) g
        (.sweeping (.opened name file) todo skips) g
  | openFails {g name todo skips} :
      StageAct runs p (.sweeping .next (name :: todo) skips) g
        (.sweeping .next todo (name :: skips)) g
  | notRegular {g name todo skips} (h : g.dirs name ≠ none) :
      StageAct runs p (.sweeping .next (name :: todo) skips) g
        (.sweeping .next todo (name :: skips)) g
  | foreign {g name todo skips file} (h : (runs file).user ≠ (runs p).user) :
      StageAct runs p (.sweeping (.opened name file) todo skips) g
        (.sweeping (.leaving file) todo (name :: skips)) g
  | takes {g name todo skips file} (h : (runs file).user = (runs p).user)
      (hl : g.held file = none) :
      StageAct runs p (.sweeping (.opened name file) todo skips) g
        (.sweeping (.holding name file) todo skips) (g.lockFile file p)
  | busy {g name todo skips file} (h : (runs file).user = (runs p).user)
      (hl : g.held file ≠ none) :
      StageAct runs p (.sweeping (.opened name file) todo skips) g
        (.sweeping (.leaving file) todo (name :: skips)) g
  | isDirectory {g name todo skips file} (h : g.dirs (stageOf name) ≠ none) :
      StageAct runs p (.sweeping (.holding name file) todo skips) g
        (.sweeping (.removing name file) todo skips) g
  | noDirectory {g name todo skips file} (h : g.dirs (stageOf name) = none) :
      StageAct runs p (.sweeping (.holding name file) todo skips) g
        (.sweeping (.unlinking name file) todo skips) g
  | statFails {g name todo skips file} :
      StageAct runs p (.sweeping (.holding name file) todo skips) g
        (.sweeping (.leaving file) todo (name :: skips)) g
  | damages {g name todo skips file d} (h : g.dirs (stageOf name) = some d) :
      StageAct runs p (.sweeping (.removing name file) todo skips) g
        (.sweeping (.removing name file) todo skips)
        (g.setDir (stageOf name) (some { d with content := .damaged }))
  | removes {g name todo skips file d} (h : g.dirs (stageOf name) = some d) :
      StageAct runs p (.sweeping (.removing name file) todo skips) g
        (.sweeping (.unlinking name file) todo skips) (g.setDir (stageOf name) none)
  | removeFails {g name todo skips file} :
      StageAct runs p (.sweeping (.removing name file) todo skips) g
        (.sweeping (.leaving file) todo (name :: skips)) g
  | unlinks {g name todo skips file} :
      StageAct runs p (.sweeping (.unlinking name file) todo skips) g
        (.sweeping (.leaving file) todo skips) (g.setFile name none)
  | unlinkFails {g name todo skips file} :
      StageAct runs p (.sweeping (.unlinking name file) todo skips) g
        (.sweeping (.leaving file) todo (name :: skips)) g
  | leaves {g todo skips file} :
      StageAct runs p (.sweeping (.leaving file) todo skips) g
        (.sweeping .next todo skips) (g.closeFile file p)
  | sweepEnds {g skips} :
      StageAct runs p (.sweeping .next [] skips) g (.swept (some skips)) g
  -- the stage and its claim
  | mkdtemp {g skips random} (hf : (runs p).stem ++ random ∉ g.used)
      (hd : g.dirs ((runs p).stem ++ random) = none)
      (hn : g.files ((runs p).stem ++ random) = none) :
      StageAct runs p (.swept skips) g (.staged ((runs p).stem ++ random) .created)
        { g.setDir ((runs p).stem ++ random) (some ⟨p, .empty, false⟩) with
          used := insert ((runs p).stem ++ random) g.used }
  | withoutClaim {g stage} (h : (runs p).claims = false) :
      StageAct runs p (.staged stage .created) g (.staged stage (.live false)) g
  | openPending {g stage} (h : (runs p).claims = true) (hf : g.files (pendingLock stage) = none)
      (hd : g.dirs (pendingLock stage) = none) :
      StageAct runs p (.staged stage .created) g (.staged stage .pending)
        (g.setFile (pendingLock stage) (some p))
  | lockPending {g stage} (h : g.held p = none) :
      StageAct runs p (.staged stage .pending) g (.staged stage .locked) (g.lockFile p p)
  | renamePending {g stage} (h : g.dirs (stageLock stage) = none) :
      StageAct runs p (.staged stage .locked) g (.staged stage (.live true))
        ((g.setFile (pendingLock stage) none).setFile (stageLock stage) (some p))
  | claimFails {g stage point} (h : point = .created ∨ point = .pending ∨ point = .locked) :
      StageAct runs p (.staged stage point) g (.staged stage (.closing false)) g
  -- records, and the publication of a bundle
  | writes {g stage lock d} (h : g.dirs stage = some d) :
      StageAct runs p (.staged stage (.live lock)) g (.staged stage (.live lock))
        (g.setDir stage (some { d with content := .full }))
  | destinationFree {g stage lock destination} (h : (runs p).destination = some destination)
      (hd : g.dirs destination = none) (hf : g.files destination = none) :
      StageAct runs p (.staged stage (.live lock)) g (.staged stage (.renaming lock)) g
  | renames {g stage lock destination d} (h : (runs p).destination = some destination)
      (hs : g.dirs stage = some d)
      (hd : ∀ d', g.dirs destination = some d' → d'.content ≠ .full)
      (hf : g.files destination = none) :
      StageAct runs p (.staged stage (.renaming lock)) g (.staged stage (.renamed lock))
        ((g.setDir stage none).setDir destination
          (some { d with content := .full, published := true }))
  -- `close`
  | closes {g stage point lock} (h : point = .live lock ∨ point = .renaming lock ∨
      point = .renamed lock) :
      StageAct runs p (.staged stage point) g (.staged stage (.closing lock)) g
  | damagesOwn {g stage lock d} (h : g.dirs stage = some d) :
      StageAct runs p (.staged stage (.closing lock)) g (.staged stage (.closing lock))
        (g.setDir stage (some { d with content := .damaged }))
  | removesOwn {g stage lock} :
      StageAct runs p (.staged stage (.closing lock)) g
        (if lock then .staged stage .unlinking else .closed stage) (g.setDir stage none)
  | unlinksOwn {g stage} :
      StageAct runs p (.staged stage .unlinking) g (.staged stage .releasing)
        (g.setFile (stageLock stage) none)
  | closesLock {g stage} :
      StageAct runs p (.staged stage .releasing) g (.closed stage) (g.closeFile p p)
  | crash {a g} (h : ∀ stage, a ≠ .closed stage) :
      StageAct runs p a g (.crashed a.stage) (g.releaseAll p)

/-- Any number of stores, publications among them, in one parent directory. -/
def stores (runs : ι → StageRun) : Program ι (Phase ι) (Parent ι) where
  boot g := (∀ name, g.dirs name = none) ∧ (∀ name, g.files name = none) ∧
    (∀ file, g.held file = none) ∧ g.used = ∅
  entry := .entered
  act := StageAct runs

end Sediment.Export.RecordStorage
