import Sediment.Derive.Attribution

namespace Sediment.Derive.AttributionShare
open Base Sediment.Core Attributions
open Base.JsonScan (codePoints)
open Sediment.Export (AttributionSource)

/-- The Wilson score interval of a proportion, in floats. -/
class WilsonScore where
  interval : Nat → Nat → ℚ × ℚ

structure AttributionSharePolicy where
  attribution : AttributionPolicy := {}
  windowDays : Int := 7
  baselineWindowDays : Int := 28
  minCasesForDeclineVerdict : Int
  policyVersion : String := "2"
  window : 0 < windowDays := by norm_num
  baseline : 0 < baselineWindowDays := by norm_num
  minCases : 0 ≤ minCasesForDeclineVerdict

/-- One repository's notes-attribution share over one window. -/
structure RepoAttributionShare where
  orgId : String
  repo : String
  windowStart : Int
  windowEnd : Int
  agentPlausibleCommits : Nat
  gitNotesAttributed : Nat
  jaccardAttributed : Nat
  unattributed : Nat
  gitNotesShare : ℚ
  gitNotesShareCi : ℚ × ℚ
  provenance : Attributions.Provenance
  repositoryIdentity : Option RepositoryIdentity
  deriving DecidableEq

structure AttributionShareResult where
  rows : List RepoAttributionShare := []
  skipped : Multiset SkipReason := 0

/-- What `derive_attribution_share` may be given beside the store. -/
structure ShareScope where
  pushes : Option (List Push) := none
  candidateLimit : Option Nat := none
  noteSessionsByCommit : Option (Dict (String × String) (Finset String)) := none
  noteSessionIdsByCommit : Option NoteMap := none
  repositoryContext : Option RepositoryContext := none
  asOf : Option Int := none

def ShareScope.attribution (scope : ShareScope) : Scope where
  pushes := scope.pushes
  repositoryContext := scope.repositoryContext
  asOf := scope.asOf

/-- The commits counted so far, by class. -/
structure ShareTally where
  seen : Finset String := ∅
  agentPlausible : Nat := 0
  gitNotes : Nat := 0
  jaccard : Nat := 0
  unattributed : Nat := 0

def ShareTally.count (t : ShareTally) (sources : Finset AttributionSource) : ShareTally :=
  if .gitNotes ∈ sources then
    { t with agentPlausible := t.agentPlausible + 1, gitNotes := t.gitNotes + 1 }
  else if .jaccard ∈ sources then
    { t with agentPlausible := t.agentPlausible + 1, jaccard := t.jaccard + 1 }
  else { t with agentPlausible := t.agentPlausible + 1, unattributed := t.unattributed + 1 }

/-- The notes that a commit of a repository is read with. -/
def suppliedSessions (notes : Option NoteMap) (key : RepositoryKey) (sha : String) :
    Option (Finset String) :=
  notes.map (fun map => (map.get? ⟨key, sha⟩).getD ∅)

section
variable (mirror : RepoMirror) (policy : AttributionPolicy) (candidates : List Candidate)
  (notes : Option NoteMap) (key : RepositoryKey) (sources : Dict String (Finset AttributionSource))

/-- A call in the organization's window of the push, or one of a named Session in the window
of the notes. -/
def agentPlausible (push : Push) (sha : String) : Bool :=
  !(window candidates push policy.jaccard.lookbackWindowMinutes policy).isEmpty ||
    (window candidates push policy.gitNotes.lookbackWindowMinutes policy).any (fun candidate =>
      decide (codePoints candidate.call.sessionId ∈
        commitSessions mirror sha (suppliedSessions notes key sha)))

def tallyCommit (push : Push) (t : ShareTally) (sha : String) : ShareTally :=
  if sha ∈ t.seen then t
  else
    let t := { t with seen := insert sha t.seen }
    if agentPlausible mirror policy candidates notes key push sha then t.count (sources.members sha)
    else t

def tallyPush (t : ShareTally) (push : Push) : ShareTally :=
  (mirror.listPushCommits push policy.maxCommitsPerPush).foldl
    (tallyCommit mirror policy candidates notes key sources push) t

end

/-- The pushes of a repository in the days before its last one. -/
def windowPushes (windowEnd days : Int) (pushes : List Push) : List Push :=
  pushes.filter (fun push =>
    windowEnd - days * dayMicros ≤ push.capturedAt.utc && push.capturedAt.utc ≤ windowEnd)

section
variable [Interpreter]

/-- The group of a push, or why it has none. Every resolution has a key or a reason. -/
def groupPush (context : RepositoryContext) (preloadedWithoutContext : Bool) (push : Push) :
    Except (Option RepositorySkipReason) (RepositoryKey × Push) :=
  let resolved := context.resolveFact push.project
  let reason :=
    if preloadedWithoutContext && push.repositoryId.isSome then some .identityUnresolved
    else resolved.reason
  match reason, resolved.key with
  | none, some key => .ok (key, push)
  | _, _ => .error reason

/-- `by_repo`: the pushes of each repository, in order. -/
def shareGroups (context : RepositoryContext) (preloadedWithoutContext : Bool)
    (pushes : List Push) : Dict RepositoryKey (List Push) :=
  Dict.empty.gather (pushes.filterMap (fun push =>
    (groupPush context preloadedWithoutContext push).toOption))

def declinedGroup (context : RepositoryContext) (preloadedWithoutContext : Bool) (push : Push) :
    Option SkipReason :=
  match groupPush context preloadedWithoutContext push with
  | .error reason => some (.repository reason)
  | .ok _ => none

variable [Collation] [StoredBytes] [WilsonScore] (s : Snapshot) (mirrors : Mirrors)
  (orgId : String) (policy : AttributionSharePolicy) (scorer : Scorer)

/-- The boundary of the share and its context. An implicit boundary reaches to the last call
of the windows, and the context is read again up to there. -/
def shareBoundary (scope : ShareScope) (context : RepositoryContext)
    (candidates : List Candidate) :
    Except AttributionError (RepositoryContext × Int) :=
  match scope.asOf.or (scope.repositoryContext.map (·.asOf)) with
  | some asOf => pure (context, asOf)
  | none => do
    let asOf := max (((candidates.map (·.call.observedAt.utc)).max?).getD context.asOf) context.asOf
    if asOf ≤ context.asOf then pure (context, asOf)
    else
      let context ← (readRepositoryContext s.repositories orgId (some asOf)
        (legacySupplements scope.pushes)).mapError .context
      pure (context, asOf)

/-- The explicit notes, the captured ones, and what was declined of either. -/
def shareNotes (scope : ShareScope) (context : RepositoryContext) (keys : List RepositoryKey) :
    Except AttributionError (Option NoteMap × NoteMap × Multiset SkipReason) := do
  match scope.noteSessionsByCommit, scope.noteSessionIdsByCommit with
  | some notes, _ =>
    let qualified := qualifyLegacyNoteSessions notes context orgId
    pure (some qualified.1, Dict.empty, qualified.2)
  | none, some notes => pure (some notes, Dict.empty, 0)
  | none, none =>
    if keys.any isIdentified then
      let bindings ← (bindSessionCommitKeysResult context
        (s.readSessionCommitObservations orgId context.asOf) orgId context.asOf).mapError .bindings
      pure (none, capturedNotes bindings, bindings.skipped.map .repository)
    else pure (none, Dict.empty, 0)

/-- The notes of one repository. -/
def repositoryNotes (explicit : Option NoteMap) (captured : NoteMap) (key : RepositoryKey) :
    Option NoteMap :=
  explicit.or (if isIdentified key then some captured else none)

def shareSources (attributed : AttributionResult) : Dict String (Finset AttributionSource) :=
  Dict.empty.collect (attributed.attributions.map (fun a => (a.commitSha, a.attributionSource)))

/-- The row of a repository, unless none of its commits is agent-plausible. -/
def shareRow (provenance : Attributions.Provenance) (key : RepositoryKey) (repo : String)
    (windowEnd : Int) (tally : ShareTally) : List RepoAttributionShare :=
  if tally.agentPlausible = 0 then []
  else [{
    orgId
    repo
    windowStart := windowEnd - policy.windowDays * dayMicros
    windowEnd
    agentPlausibleCommits := tally.agentPlausible
    gitNotesAttributed := tally.gitNotes
    jaccardAttributed := tally.jaccard
    unattributed := tally.unattributed
    gitNotesShare := trueDivide tally.gitNotes tally.agentPlausible
    gitNotesShareCi := WilsonScore.interval tally.gitNotes tally.agentPlausible
    provenance
    repositoryIdentity := identityOf key }]

/-- The scope of the attributions that the share of one repository counts. -/
def repositoryScope (context : RepositoryContext) (asOf : Int) (candidates : List Candidate)
    (notes : Option NoteMap) (repoPushes : List Push) : Scope where
  pushes := some repoPushes
  candidates := some candidates
  noteSessionIdsByCommit := notes
  repositoryContext := some context
  asOf := some asOf

/-- One repository of the loop over `by_repo`. -/
def shareRepository (provenance : Attributions.Provenance) (context : RepositoryContext)
    (asOf : Int) (candidates : List Candidate) (explicit : Option NoteMap) (captured : NoteMap)
    (result : AttributionShareResult) (group : RepositoryKey × List Push) :
    Except AttributionError AttributionShareResult := do
  let key := group.1
  let repo ← (context.repoFor key).mapError .label
  let windowEnd := (group.2.map (·.capturedAt.utc)).getLast?.getD 0
  let repoPushes := windowPushes windowEnd policy.windowDays group.2
  if repoPushes = [] then pure result
  else
    match mirrors key with
    | none => pure { result with
        skipped := result.skipped + Multiset.replicate repoPushes.length .mirrorAbsent }
    | some mirror => do
      let notes := repositoryNotes explicit captured key
      let attributed ← deriveAttributionResult s mirrors orgId policy.attribution scorer
        (repositoryScope context asOf candidates notes repoPushes)
      let tally := repoPushes.foldl
        (tallyPush mirror policy.attribution candidates notes key (shareSources attributed)) {}
      pure {
        rows := result.rows ++ shareRow orgId policy provenance key repo windowEnd tally
        skipped := result.skipped + attributed.skipped }

/-- `_derive_attribution_share_result` -/
def deriveAttributionShareResult (scope : ShareScope) :
    Except AttributionError AttributionShareResult := do
  checkNoteMaps scope.noteSessionsByCommit scope.noteSessionIdsByCommit
  let preloadedWithoutContext := scope.pushes.isSome && scope.repositoryContext.isNone
  let context ← scopeContext s orgId scope.attribution
  let provenance ← stampProvenance s orgId policy.policyVersion none
  let pushes := orderedPushes orgId (scope.asOf.or (scope.repositoryContext.map (·.asOf)))
    (scope.pushes.getD (s.readPushes orgId))
  let declined : Multiset SkipReason :=
    (pushes.filterMap (declinedGroup context preloadedWithoutContext) : Multiset _)
  let byRepo := shareGroups context preloadedWithoutContext pushes
  let grouped := byRepo.values.flatten
  if grouped = [] then pure { skipped := declined }
  else do
    let candidates ← (scopeCandidates s orgId grouped policy.attribution
      scope.candidateLimit).mapError .candidates
    let bounded ← shareBoundary s orgId scope context candidates
    let candidates := candidates.filter (fun candidate =>
      candidate.call.observedAt.utc ≤ bounded.2)
    let notes ← shareNotes s orgId scope bounded.1 byRepo.keys
    (sortedBy (fun group => repositorySortKey group.1) byRepo.entries).foldlM
      (shareRepository s mirrors orgId policy scorer provenance bounded.1 bounded.2 candidates
        notes.1 notes.2.1)
      { skipped := declined + notes.2.2 }

end

end Sediment.Derive.AttributionShare
