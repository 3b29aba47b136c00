import Sediment.Base.Argmax
import Sediment.Derive.Diff
import Sediment.Derive.Notes
import Sediment.Derive.Rollout
import Sediment.Derive.SessionCommit
import Sediment.Derive.Similarity

namespace Sediment.Derive.Attributions
open Base Sediment.Core
open Base.JsonScan (Text codePoints)
open Diff (DiffSection DiffSkipReason DiffParseResult parseDiffSections)
open Sediment.Export (AttributionSource SessionCommitObservation)

/-- A threshold and a lookback window. Scores are the exact values of floats. -/
structure SimilarityPolicy where
  minSimilarity : ℚ
  lookbackWindowMinutes : Int
  unit : 0 ≤ minSimilarity ∧ minSimilarity ≤ 1
  positive : 0 < lookbackWindowMinutes

/-- The double nearest to 0.3. -/
def gitNotesPolicy : SimilarityPolicy where
  minSimilarity := 5404319552844595 / 2 ^ 54
  lookbackWindowMinutes := 10080
  unit := by norm_num
  positive := by norm_num

/-- The double nearest to 0.7. -/
def jaccardPolicy : SimilarityPolicy where
  minSimilarity := 3152519739159347 / 2 ^ 52
  lookbackWindowMinutes := 60
  unit := by norm_num
  positive := by norm_num

structure AttributionPolicy where
  postPushGracePeriodMinutes : Int := 10
  maxCommitsPerPush : Nat := 20
  gitNotes : SimilarityPolicy := gitNotesPolicy
  jaccard : SimilarityPolicy := jaccardPolicy
  policyVersion : String := "3"
  grace : 0 ≤ postPushGracePeriodMinutes := by norm_num
  capped : 0 < maxCommitsPerPush := by norm_num

structure Provenance where
  policyVersion : String
  quarantineRevision : Nat
  policyDigest : Option String
  deriving DecidableEq

/-- `Provenance.__post_init__`; `none` stands for `ValueError`. -/
def Provenance.check (p : Provenance) : Option Provenance :=
  if strip p.policyVersion = "" then none
  else if p.policyDigest.any (fun digest => digest.length != 64 ||
      !digest.toList.all (fun c => c.isDigit || ('a' ≤ c && c ≤ 'f'))) then none
  else some p

abbrev Tokens := Finset (List Char)

/-- `Scorer.score`. -/
abbrev Scorer := Tokens → Tokens → ℚ

/-- The double nearest to `n / m` for `n ≤ m`, the even one of two. -/
def trueDivide (n m : Nat) : ℚ :=
  if n = 0 then 0
  else
    let widest := 53 + m.log2 - n.log2
    let e := if 2 ^ 53 ≤ n * 2 ^ widest / m then widest - 1 else widest
    let q := n * 2 ^ e / m
    let rest := 2 * (n * 2 ^ e % m)
    let rounded := if m < rest ∨ (rest = m ∧ q % 2 = 1) then q + 1 else q
    rounded / 2 ^ e

/-- `JaccardScorer.score` -/
def jaccardTokens (a b : Tokens) : ℚ :=
  if a = ∅ ∧ b = ∅ then 0 else trueDivide (a ∩ b).card (a ∪ b).card

/-- An inference call and its token set. -/
structure Candidate where
  call : InferenceCall
  tokens : Tokens

/-- The derived join between a completion and a commit. -/
structure Attribution where
  orgId : String
  repo : Option String
  commitSha : String
  filePath : List Char
  inferenceCallId : String
  sessionId : String
  similarityScore : ℚ
  attributionSource : AttributionSource
  provenance : Provenance
  repositoryIdentity : Option RepositoryIdentity
  sourcePushId : String
  deriving DecidableEq

inductive SkipReason where
  | repository (reason : Option RepositorySkipReason)
  | diff (reason : DiffSkipReason)
  | mirrorAbsent | commitDiffUnavailable | noCodeDiff | noMatch | noInferenceCallCandidates
  deriving DecidableEq

/-- Attributions, and the inputs that could not derive. -/
structure AttributionResult where
  attributions : List Attribution := []
  skipped : Multiset SkipReason := 0

def AttributionResult.skip (result : AttributionResult) (reason : SkipReason) (n : Nat) :
    AttributionResult :=
  { result with skipped := result.skipped + Multiset.replicate n reason }

def AttributionResult.extend (a b : AttributionResult) : AttributionResult :=
  ⟨a.attributions ++ b.attributions, a.skipped + b.skipped⟩

/-- What a bare mirror answers; `none` stands for a `MirrorError`, and for a commit that has
no note. `revList` is newest first. -/
structure RepoMirror where
  revList : Nat → String → String → Option (List String)
  commitDiff : String → Option (List Char)
  commitNote : String → Option AttributionNote

/-- The mirror of each repository that has one. -/
abbrev Mirrors := RepositoryKey → Option RepoMirror

/-- Whether a sha is all zeros, which names no commit. -/
def zeroSha (sha : String) : Bool := sha.toList.all (· == '0')

/-- The commits of a push, oldest first, the newest kept under the cap. -/
def RepoMirror.listPushCommits (mirror : RepoMirror) (push : Push) (maxCommits : Nat) :
    List String :=
  if push.forced || zeroSha push.beforeSha then [push.afterSha]
  else
    match mirror.revList (max 1 maxCommits) push.beforeSha push.afterSha with
    | none => [push.afterSha]
    | some revs => if revs = [] then [push.afterSha] else revs.reverse

def codeExtensions : List String :=
  [".py", ".ts", ".js", ".tsx", ".jsx", ".go", ".rs", ".java", ".kt", ".scala", ".rb", ".php",
    ".cs", ".cpp", ".c", ".h", ".tf", ".hcl", ".sql", ".sh", ".bash"]

def skipPatterns : List String :=
  ["package-lock.json", "yarn.lock", "poetry.lock", "uv.lock", ".min.js", ".min.css"]

def isCodeFile (filePath : List Char) : Bool :=
  !skipPatterns.any (fun p => filePath.tails.any p.toList.isPrefixOf) &&
    codeExtensions.any (fun ext => ext.toList.isSuffixOf filePath)

/-- A changed code file and the tokens of its added lines. -/
structure ScoredFile where
  filePath : List Char
  diffTokens : Tokens

def scoredFiles (parsed : DiffParseResult) : List ScoredFile :=
  (parsed.sections.filter (fun fd =>
    isCodeFile fd.filePath && !fd.addedLines.all isSpace)).map (fun fd =>
      ⟨fd.filePath, tokenize fd.addedLines⟩)

def parseSkips (parsed : DiffParseResult) : Multiset SkipReason :=
  (parsed.skipped.entries.map (fun e => Multiset.replicate e.2 (SkipReason.diff e.1))).sum

def minuteMicros : Int := 60000000

/-- The calls in the `minutes` before a push and the grace period after it. -/
def window (candidates : List Candidate) (push : Push) (minutes : Int)
    (policy : AttributionPolicy) : List Candidate :=
  candidates.filter (fun candidate => observedWithin
    (push.capturedAt.utc - minutes * minuteMicros)
    (push.capturedAt.utc + policy.postPushGracePeriodMinutes * minuteMicros) candidate.call)

/-- One candidate of `_best_match`. Ties resolve by `callOrder`. -/
def scoreCandidate (scorer : Scorer) (diffTokens : Tokens) (floor : ℚ)
    (best : Option (InferenceCall × ℚ)) (candidate : Candidate) : Option (InferenceCall × ℚ) :=
  let score := scorer candidate.tokens diffTokens
  if score ≤ 0 ∨ score < floor then best
  else
    match best with
    | none => some (candidate.call, score)
    | some held =>
      if held.2 < score ∨ (score = held.2 ∧ callOrder candidate.call < callOrder held.1) then
        some (candidate.call, score)
      else some held

/-- `_best_match` -/
def bestMatch (candidates : List Candidate) (diffTokens : Tokens) (floor : ℚ) (scorer : Scorer) :
    Option (InferenceCall × ℚ) :=
  candidates.foldl (scoreCandidate scorer diffTokens floor) none

/-- The Sessions a commit names: those of a supplied map, or else of its note. -/
def commitSessions (mirror : RepoMirror) (sha : String) (supplied : Option (Finset String)) :
    Finset Text :=
  match supplied with
  | some sessionIds => sessionIds.image codePoints
  | none =>
    match mirror.commitNote sha with
    | some note => (note.sessions.map (·.sessionId)).toFinset
    | none => ∅

def identityOf : RepositoryKey → Option RepositoryIdentity
  | .identified _ identity => some identity
  | .legacy _ _ => none

/-- A push with the repository its Fact resolves to. -/
structure ResolvedPush where
  push : Push
  key : RepositoryKey
  repo : Option String

section
variable (mirror : RepoMirror) (scorer : Scorer) (policy : AttributionPolicy)
  (provenance : Provenance)

/-- The best notes match of a file, or else its best match in the organization. -/
def attributeFile (resolved : ResolvedPush) (sha : String)
    (orgCandidates sessionCandidates : List Candidate) (file : ScoredFile) : Option Attribution :=
  let found : Option (AttributionSource × InferenceCall × ℚ) :=
    match bestMatch sessionCandidates file.diffTokens policy.gitNotes.minSimilarity scorer with
    | some best => some (.gitNotes, best)
    | none => (bestMatch orgCandidates file.diffTokens policy.jaccard.minSimilarity scorer).map
        (fun best => (.jaccard, best))
  found.map (fun m => {
    orgId := resolved.push.orgId
    repo := resolved.repo
    commitSha := sha
    filePath := file.filePath
    inferenceCallId := m.2.1.inferenceCallId
    sessionId := m.2.1.sessionId
    similarityScore := m.2.2
    attributionSource := m.1
    provenance
    repositoryIdentity := identityOf resolved.key
    sourcePushId := resolved.push.pushId })

/-- One file of the loop of `_attribute_commit`. -/
def attributeNext (resolved : ResolvedPush) (sha : String)
    (orgCandidates sessionCandidates : List Candidate) (result : AttributionResult)
    (file : ScoredFile) : AttributionResult :=
  match attributeFile scorer policy provenance resolved sha orgCandidates sessionCandidates file with
  | some attribution => { result with attributions := result.attributions ++ [attribution] }
  | none => result.skip .noMatch 1

/-- `_attribute_commit` -/
def attributeCommit (resolved : ResolvedPush) (sha : String)
    (orgCandidates gitNotesCandidates : List Candidate)
    (noteSessionIds : Option (Finset String)) : AttributionResult :=
  match mirror.commitDiff sha with
  | none => { skipped := {.commitDiffUnavailable} }
  | some rawDiff =>
    let parsed := parseDiffSections rawDiff
    let files := scoredFiles parsed
    let start : AttributionResult := { skipped := parseSkips parsed }
    if files = [] then
      if parsed.skipped.entries = [] then start.skip .noCodeDiff 1 else start
    else
      let sessionIds := commitSessions mirror sha noteSessionIds
      let sessionCandidates := gitNotesCandidates.filter (fun candidate =>
        decide (codePoints candidate.call.sessionId ∈ sessionIds))
      files.foldl (attributeNext scorer policy provenance resolved sha orgCandidates
        sessionCandidates) start

end

/-- Session ids by commit. -/
abbrev NoteMap := Dict CommitKey (Finset String)

/-- What `derive_attribution_result` may be given beside the store. -/
structure Scope where
  pushes : Option (List Push) := none
  policyDigest : Option String := none
  candidates : Option (List Candidate) := none
  noteSessionsByCommit : Option (Dict (String × String) (Finset String)) := none
  noteSessionIdsByCommit : Option NoteMap := none
  repositoryContext : Option RepositoryContext := none
  asOf : Option Int := none

inductive AttributionError where
  | twoNoteMaps | contextMismatch | invalidProvenance
  | context (e : ContextReadError)
  | candidates (e : CallReadError)
  | bindings (e : BindingError)
  | label (e : RepositoryContext.LabelError)
  deriving DecidableEq

/-- What the walk claimed so far, and what it derived. -/
structure Walk where
  seen : Finset CommitKey
  result : AttributionResult

section
variable (mirrors : Mirrors) (scorer : Scorer) (policy : AttributionPolicy)
  (provenance : Provenance) (candidates : List Candidate)
  (noteSessionIds : CommitKey → Option (Finset String))

/-- The attributions of one commit under the windows of the push that claims it. -/
def attributeClaim (mirror : RepoMirror) (resolved : ResolvedPush) (sha : String) :
    AttributionResult :=
  attributeCommit mirror scorer policy provenance resolved sha
    (window candidates resolved.push policy.jaccard.lookbackWindowMinutes policy)
    (window candidates resolved.push policy.gitNotes.lookbackWindowMinutes policy)
    (noteSessionIds ⟨resolved.key, sha⟩)

def walkCommit (mirror : RepoMirror) (resolved : ResolvedPush) (w : Walk) (sha : String) : Walk :=
  let commitKey : CommitKey := ⟨resolved.key, sha⟩
  if commitKey ∈ w.seen then w
  else
    { seen := insert commitKey w.seen
      result := w.result.extend
        (attributeClaim scorer policy provenance candidates noteSessionIds mirror resolved sha) }

def walkPush (w : Walk) (resolved : ResolvedPush) : Walk :=
  match mirrors resolved.key with
  | none => { w with result := w.result.skip .mirrorAbsent 1 }
  | some mirror => (mirror.listPushCommits resolved.push policy.maxCommitsPerPush).foldl
      (walkCommit scorer policy provenance candidates noteSessionIds mirror resolved) w

end

section
variable [Interpreter]

/-- The repository of a push. A preloaded identity without its context cannot be trusted. -/
def resolvePush (context : RepositoryContext) (preloadedWithoutContext : Bool) (push : Push) :
    RepositoryResolution :=
  if preloadedWithoutContext && push.repositoryId.isSome then
    { reason := some .identityUnresolved }
  else context.resolveFact push.project

def resolvedPush (context : RepositoryContext) (preloadedWithoutContext : Bool) (push : Push) :
    Option ResolvedPush :=
  (resolvePush context preloadedWithoutContext push).key.map (fun key =>
    ⟨push, key, (resolvePush context preloadedWithoutContext push).repo⟩)

def declinedPush (context : RepositoryContext) (preloadedWithoutContext : Bool) (push : Push) :
    Option SkipReason :=
  match (resolvePush context preloadedWithoutContext push).key with
  | some _ => none
  | none => some (.repository (resolvePush context preloadedWithoutContext push).reason)

/-- The pushes of the organization up to the boundary, by fact identity. -/
def orderedPushes (orgId : String) (asOf : Option Int) (pushes : List Push) : List Push :=
  sortedBy pushOrder (pushes.filter (fun push =>
    push.orgId = orgId ∧ asOf.all (fun boundary => push.capturedAt.utc ≤ boundary)))

def tokenized (call : InferenceCall) : Candidate :=
  ⟨call, tokenize (renderScoringText call).toList⟩

/-- `_scope_candidates`: the calls inside the widest window of the scope. -/
def scopeCandidates [Collation] [StoredBytes] (s : Snapshot) (orgId : String) (pushes : List Push)
    (policy : AttributionPolicy) (limit : Option Nat) : Except CallReadError (List Candidate) := do
  let widest := max policy.jaccard.lookbackWindowMinutes policy.gitNotes.lookbackWindowMinutes
  let captures := pushes.map (·.capturedAt.utc)
  let lower := captures.min?.getD 0 - widest * minuteMicros
  let upper := captures.max?.getD 0 + policy.postPushGracePeriodMinutes * minuteMicros
  let calls ← s.readAttributionCandidates orgId lower upper limit none
  pure (calls.map tokenized)

/-- Candidates of the organization up to the boundary. -/
def eligibleCandidates (orgId : String) (asOf : Option Int) (candidates : List Candidate) :
    List Candidate :=
  candidates.filter (fun candidate => candidate.call.orgId = orgId ∧
    asOf.all (fun boundary => candidate.call.observedAt.utc ≤ boundary))

/-- One entry of a legacy note map, or why it is declined. -/
def qualifyEntry (context : RepositoryContext) (orgId : String)
    (entry : (String × String) × Finset String) :
    Except (Option RepositorySkipReason) (CommitKey × Finset String) :=
  let resolution := context.resolveReference orgId entry.1.1 none
  match resolution.key, normalizeCommitSha entry.1.2 with
  | none, _ => .error resolution.reason
  | some _, none => .error (some .identityUnresolved)
  | some key, some sha => .ok (⟨key, sha⟩, entry.2)

/-- `_qualify_legacy_note_sessions`: aliases of one commit must agree. -/
def qualifyLegacyNoteSessions (notes : Dict (String × String) (Finset String))
    (context : RepositoryContext) (orgId : String) : NoteMap × Multiset SkipReason :=
  let entries := notes.entries.map (qualifyEntry context orgId)
  let grouped := Dict.empty.gather (entries.filterMap Except.toOption)
  let agreeing := fun (sessions : List (Finset String)) =>
    sessions.all (fun ids => sessions.head? == some ids)
  let refused := entries.filterMap (fun e =>
    match e with
    | .error reason => some (SkipReason.repository reason)
    | .ok _ => none)
  let conflicting := grouped.entries.flatMap (fun e =>
    if agreeing e.2 then []
    else e.2.map (fun _ => SkipReason.repository (some .identityConflict)))
  ((grouped.filter (fun _ sessions => agreeing sessions)).mapValues
    (fun _ sessions => sessions.head?.getD ∅),
    ((refused ++ conflicting : List SkipReason) : Multiset _))

def isIdentified : RepositoryKey → Bool
  | .identified _ _ => true
  | .legacy _ _ => false

/-- The Sessions of each commit that captured observations name. -/
def capturedNotes (bindings : SessionCommitBindingResult) : NoteMap :=
  Dict.empty.collect (bindings.bindings.keys.map (fun edge => (edge.commit, edge.sessionId)))

/-- The notes that a commit is read with; `none` is the note in the mirror. -/
def noteSessions (qualified : Option NoteMap) (captured : NoteMap) (commit : CommitKey) :
    Option (Finset String) :=
  match qualified with
  | some notes => some ((notes.get? commit).getD ∅)
  | none => if isIdentified commit.repository then some (captured.members commit) else none

variable [Collation] [StoredBytes] (s : Snapshot) (mirrors : Mirrors) (orgId : String)
  (policy : AttributionPolicy) (scorer : Scorer)

/-- The repository context of a scope, and whether it matches its boundary. -/
def scopeContext (scope : Scope) : Except AttributionError RepositoryContext := do
  let asOf := scope.asOf.or (scope.repositoryContext.map (·.asOf))
  let context ← match scope.repositoryContext with
    | some context => pure context
    | none => (readRepositoryContext s.repositories orgId asOf
        (legacySupplements scope.pushes)).mapError .context
  if context.orgId ≠ orgId ∨ asOf.any (context.asOf ≠ ·) then throw .contextMismatch
  else pure context

/-- The note map of a scope with what was declined: a supplied one, or else the observations
that the store captured of identified repositories. -/
def scopeNotes (scope : Scope) (context : RepositoryContext) (resolved : List ResolvedPush) :
    Except AttributionError ((CommitKey → Option (Finset String)) × Multiset SkipReason) := do
  match scope.noteSessionsByCommit, scope.noteSessionIdsByCommit with
  | some notes, _ =>
    let qualified := qualifyLegacyNoteSessions notes context orgId
    pure (noteSessions (some qualified.1) Dict.empty, qualified.2)
  | none, some notes => pure (noteSessions (some notes) Dict.empty, 0)
  | none, none =>
    if resolved.any (fun r => isIdentified r.key) then
      let bindings ← (bindSessionCommitKeysResult context
        (s.readSessionCommitObservations orgId context.asOf) orgId context.asOf).mapError .bindings
      pure (noteSessions none (capturedNotes bindings), bindings.skipped.map .repository)
    else pure (noteSessions none Dict.empty, 0)

def checkNoteMaps {α β : Type} (legacy : Option α) (qualified : Option β) :
    Except AttributionError Unit :=
  if legacy.isSome ∧ qualified.isSome then throw .twoNoteMaps else pure ()

def stampProvenance (policyVersion : String) (policyDigest : Option String) :
    Except AttributionError Provenance :=
  (Provenance.check ⟨policyVersion, s.quarantineRevision orgId, policyDigest⟩).elim
    (throw .invalidProvenance) pure

/-- The candidates of a scope: supplied ones, or else those its pushes can reach. -/
def foundCandidates (scope : Scope) (resolved : List ResolvedPush) :
    Except AttributionError (List Candidate) :=
  match scope.candidates with
  | some candidates => pure candidates
  | none => (scopeCandidates s orgId (resolved.map (·.push)) policy none).mapError .candidates

/-- `_derive_attribution_result` -/
def deriveAttributionResult (scope : Scope) : Except AttributionError AttributionResult := do
  checkNoteMaps scope.noteSessionsByCommit scope.noteSessionIdsByCommit
  let asOf := scope.asOf.or (scope.repositoryContext.map (·.asOf))
  let preloadedWithoutContext := scope.pushes.isSome && scope.repositoryContext.isNone
  let context ← scopeContext s orgId scope
  let provenance ← stampProvenance s orgId policy.policyVersion scope.policyDigest
  let pushes := orderedPushes orgId asOf (scope.pushes.getD (s.readPushes orgId))
  let declined : AttributionResult :=
    { skipped := (pushes.filterMap (declinedPush context preloadedWithoutContext) : Multiset _) }
  let resolved := pushes.filterMap (resolvedPush context preloadedWithoutContext)
  if resolved = [] then pure declined
  else do
    let found ← foundCandidates s orgId policy scope resolved
    let candidates := eligibleCandidates orgId asOf found
    if candidates = [] then pure (declined.skip .noInferenceCallCandidates resolved.length)
    else do
      let notes ← scopeNotes s orgId scope context resolved
      let start : AttributionResult := { declined with skipped := declined.skipped + notes.2 }
      pure (resolved.foldl (walkPush mirrors scorer policy provenance candidates notes.1)
        ⟨∅, start⟩).result

end

end Sediment.Derive.Attributions
