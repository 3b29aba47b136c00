import Sediment.Derive.Diff
import Sediment.Derive.Recovery
import Sediment.Export.Sft

namespace Sediment.Export
open Sediment.Base Base.JsonScan Sediment.Core Sediment.Derive
open Sediment.Derive.Diff (DiffSkipReason DiffParseResult DiffSection parseDiffSections)

inductive DiffSFTSkipReason where
  | sft (reason : SFTSkipReason)
  | repositoryIdentityUnresolved | splitMismatch | eligibilitySourceMismatch | mirrorAbsent
  | commitDiffUnavailable | emptyPatch | fileDiffUnavailable
  deriving DecidableEq, Repr

/-- What the projection counts: declined groups and abandoned rows, the skips of the CI
resolutions that it asked for, and those of the diffs that it parsed. -/
inductive DiffSFTCount where
  | declined (reason : DiffSFTSkipReason)
  | ci (reason : CIResolutionSkipReason)
  | diff (reason : DiffSkipReason)
  deriving DecidableEq

/-- What is raised: by a key that does not validate, a repository without a label, or the
resolution of a row. -/
inductive DiffSFTError where
  | invalidKey
  | label (e : RepositoryContext.LabelError)
  | resolve (e : ConfidenceError)
  | emptyGroup

structure DiffSFTMetadata where
  orgId : String
  sessionId : String
  repo : String
  commitSha : String
  sourceModel : Text
  completionId : String
  recipe : SFTRecipe
  eligibilitySource : SFTEligibilitySource
  labelConfidence : ℚ
  ciReliability : Option ℚ
  provenance : Provenance
  split : Split
  decisionIds : List String
  ciOutcomeIds : List String
  sessionCommitObservationIds : List String
  repositoryIdentity : Option RepositoryIdentity
  attributionSources : List AttributionSource

/-- One training row; its list of tools is always empty. -/
structure DiffSFTSample (φ : Type) where
  prompt : List (TrainerMessage φ)
  completion : List (TrainerMessage φ)
  metadata : DiffSFTMetadata

/-- A mirror that the projection reads; `none` stands for a `MirrorError`. -/
structure DiffMirror where
  fetchCommitDiff : String → Option (List Char)

abbrev GroupKey := String × CommitKey

def CompletionFields.path (row : CompletionFields) : String := row.filePath.getD ""

section
variable [Interpreter]

/-- `_group_key`. Both halves of a commit's key are validated. -/
def groupKey (row : CompletionFields) : Except DiffSFTError GroupKey :=
  match normalizeOrgId row.orgId, normalizeCommitSha (row.commitSha.getD "") with
  | some orgId, some commitSha =>
    match row.repositoryIdentity with
    | some identity => .ok (row.inferenceCallId, ⟨.identified orgId identity, commitSha⟩)
    | none =>
      match requiredRepoSlug (row.repo.getD "") with
      | some repo => .ok (row.inferenceCallId, ⟨.legacy orgId repo, commitSha⟩)
      | none => .error .invalidKey
  | _, _ => .error .invalidKey

structure Grouping where
  abandoned : Nat := 0
  groups : Dict GroupKey (List CompletionFields) := Dict.empty

def Grouping.add (s : Grouping) (row : CompletionFields) : Except DiffSFTError Grouping :=
  if row.abandonment.isSome then .ok { s with abandoned := s.abandoned + 1 }
  else
    match groupKey row with
    | .error e => .error e
    | .ok key => .ok { s with groups := s.groups.push key row }

/-- Commit by commit, and call by call in a commit. -/
def groupOrder (group : GroupKey × List CompletionFields) : List String ×ₗ String :=
  toLex (commitSortKey group.1.2, group.1.1)

variable (digest : CIResolutionPolicy → String) (repositoryContext : Option RepositoryContext)

/-- Whether a name that a member was supplied with is not one of the commit's. -/
def misnamed (commit : CommitKey) (row : CompletionFields) : Bool :=
  match repositoryContext with
  | none => false
  | some c => c.commitKey row.orgId (row.repo.getD "") (row.commitSha.getD "")
      row.repositoryIdentity ≠ some commit

def groupRepo (commit : CommitKey) (members : List CompletionFields) :
    Except DiffSFTError String :=
  match repositoryContext with
  | some c => (c.repoFor commit.repository).mapError .label
  | none => .ok ((members.map (fun m => m.repo.getD "")).min?.getD "")

/-- The CI evidence of a whole group, each outcome once. -/
def groupCi (policy : SFTPolicy) (first : CompletionFields) (members : List CompletionFields) :
    Except DiffSFTError CIResolutionResult :=
  (deriveCiResolutionResult
    (Recovery.outcomeById (members.flatMap CompletionFields.ciOutcomes)).values
    policy.labelConfidence.ciResolution digest first.provenance.quarantineRevision
    repositoryContext).mapError (fun e => .resolve (.ci e))

/-- The sources of the members, or the reason of the first without one. -/
def memberSources (policy : SFTPolicy) :
    List CompletionFields → Resolve (Except SFTSkipReason (List SFTEligibilitySource))
  | [] => .ok (.ok [])
  | m :: rest =>
    match eligibilitySource digest repositoryContext policy m with
    | .error e => .error e
    | .ok (.error reason) => .ok (.error reason)
    | .ok (.ok source) =>
      match memberSources policy rest with
      | .error e => .error e
      | .ok (.error reason) => .ok (.error reason)
      | .ok (.ok sources) => .ok (.ok (source :: sources))

/-- The one source of all members. -/
def oneSource : List SFTEligibilitySource → Option SFTEligibilitySource
  | [] => none
  | source :: rest => if rest.all (· = source) then some source else none

variable {φ : Type} [Captured.PyFloat φ]

/-- Map only the prompt when a recipe supplies its own completion. -/
def mapInferencePrompt (call : Captured.InferenceCall φ) : Mapped (List (TrainerMessage φ)) :=
  match mapMessages false call.inputMessages Dict.empty with
  | .error reason => .error reason
  | .ok (prompt, _) => (validateMessages prompt).map (fun _ => prompt)

def mappedPrompt (calls : Calls φ) (callId : String) :
    Except SFTSkipReason (Text × List (TrainerMessage φ)) :=
  match calls callId with
  | none => .error .inferenceCallNotFound
  | some call =>
    match call.model with
    | none => .error .modelAbsent
    | some model => (ofMapping (mapInferencePrompt call)).map (fun prompt => (model, prompt))

/-- A group that has passed every gate before its diff is asked for. -/
structure Draft (φ : Type) where
  first : CompletionFields
  members : List CompletionFields
  repo : String
  source : SFTEligibilitySource
  confidence : ℚ
  ciReliability : Option ℚ
  model : Text
  prompt : List (TrainerMessage φ)

/-- What a group comes to before its diff: the CI skips that it counts, and a draft or a reason. -/
structure Drafting (φ : Type) where
  ciSkipped : CIResolutionSkipReason → Nat := fun _ => 0
  outcome : Except DiffSFTSkipReason (Draft φ)

/-- What follows the eligibility of the members. -/
def confidentDraft (policy : SFTPolicy) (calls : Calls φ) (callId repo : String)
    (first : CompletionFields) (members : List CompletionFields) (source : SFTEligibilitySource)
    (ci : CIResolutionResult) : Except DiffSFTError (Except DiffSFTSkipReason (Draft φ)) :=
  match members.mapM (resolveConfidence digest repositoryContext policy.labelConfidence) with
  | .error e => .error (.resolve e)
  | .ok confidences =>
    match confidences.mapM id with
    | none => .ok (.error (.sft .noRewardSignal))
    | some confidences =>
      match confidences.min? with
      | none => .error .emptyGroup
      | some confidence =>
        if confidence < policy.minConfidence then .ok (.error (.sft .belowConfidenceFloor))
        else
          match mappedPrompt calls callId with
          | .error reason => .ok (.error (.sft reason))
          | .ok (model, prompt) => .ok (.ok
              { first
                members
                repo
                source
                confidence
                ciReliability := (ci.resolutions.filterMap CIResolution.reliability).min?
                model
                prompt })

def draft (policy : SFTPolicy) (calls : Calls φ) (key : GroupKey)
    (rows : List CompletionFields) : Except DiffSFTError (Drafting φ) :=
  let members := sortedBy CompletionFields.path rows
  if members.any (misnamed repositoryContext key.2) then
    .ok { outcome := .error .repositoryIdentityUnresolved }
  else
    match groupRepo repositoryContext key.2 members with
    | .error e => .error e
    | .ok repo =>
      match members with
      | [] => .error .emptyGroup
      | first :: _ =>
        if members.any (fun m => m.split ≠ first.split) then
          .ok { outcome := .error .splitMismatch }
        else if members.any explicitReject then
          .ok { outcome := .error (.sft .explicitReject) }
        else
          match groupCi digest repositoryContext policy first members with
          | .error e => .error e
          | .ok ci =>
            match memberSources digest repositoryContext policy members with
            | .error e => .error (.resolve e)
            | .ok (.error reason) =>
              .ok { ciSkipped := ci.skipped, outcome := .error (.sft reason) }
            | .ok (.ok sources) =>
              match oneSource sources with
              | none => .ok { ciSkipped := ci.skipped, outcome := .error .eligibilitySourceMismatch }
              | some source =>
                match confidentDraft digest repositoryContext policy calls key.1 repo first
                    members source ci with
                | .error e => .error e
                | .ok outcome => .ok { ciSkipped := ci.skipped, outcome }

/-- The parsed diff of one commit at most, and what parsing counted. -/
structure Parsing where
  parsedCommits : Dict CommitKey DiffParseResult := Dict.empty
  skipped : DiffSkipReason → Nat := fun _ => 0

/-- The sections of a commit's diff: those held, or else those of the mirror, which take the
place of what is held. -/
def Parsing.sections (s : Parsing) (commit : CommitKey) (mirror : DiffMirror) :
    Parsing × Except DiffSFTSkipReason (List DiffSection) :=
  match s.parsedCommits.get? commit with
  | some parsed => (s, .ok parsed.sections)
  | none =>
    match mirror.fetchCommitDiff commit.commitSha with
    | none => (s, .error .commitDiffUnavailable)
    | some rawDiff =>
      if rawDiff.all Core.isSpace then (s, .error .emptyPatch)
      else
        let parsed := parseDiffSections rawDiff
        ({ parsedCommits := Dict.empty.set commit parsed
           skipped := fun reason => s.skipped reason + (parsed.skipped.get? reason).getD 0 },
          .ok parsed.sections)

def attributedTo (members : List CompletionFields) (path : List Char) : Bool :=
  members.any (fun m => m.path.toList = path)

/-- The sections of the attributed files, in the order of the diff. -/
def selectedPatch (members : List CompletionFields) (sections : List DiffSection) :
    Except DiffSFTSkipReason (List Char) :=
  if members.any (fun m => sections.all (fun s => s.filePath ≠ m.path.toList)) then
    .error .fileDiffUnavailable
  else .ok ((sections.filter (fun s => attributedTo members s.filePath)).flatMap DiffSection.patch)

def attributionSources (members : List CompletionFields) : List AttributionSource :=
  ([.gitNotes, .jaccard] : List AttributionSource).filter (fun source =>
    members.any (fun m => m.attributionSource = some source))

/-- The sample of a draft. The model's name is the one text that training may yet decline. -/
def Draft.sample (d : Draft φ) (policy : SFTPolicy) (key : GroupKey) (patch : List Char) :
    Except DiffSFTSkipReason (DiffSFTSample φ) :=
  match ofMapping (validateText d.model) with
  | .error reason => .error (.sft reason)
  | .ok _ => .ok
    { prompt := d.prompt
      completion := [.assistant none (some (patch.map Char.toNat)) []]
      metadata :=
        { orgId := d.first.orgId
          sessionId := d.first.sessionId
          repo := d.repo
          commitSha := key.2.commitSha
          sourceModel := d.model
          completionId := key.1
          recipe := policy.recipe
          eligibilitySource := d.source
          labelConfidence := d.confidence
          ciReliability := d.ciReliability
          provenance := d.first.provenance
          split := d.first.split
          decisionIds := sortedSet
            (d.members.flatMap (fun m => m.decisions.map DeveloperDecision.decisionId)).toFinset
          ciOutcomeIds := sortedSet
            (d.members.flatMap (fun m => m.ciOutcomes.map CIOutcome.outcomeId)).toFinset
          sessionCommitObservationIds := sortedSet
            (d.members.flatMap (sessionCommitObservationIds repositoryContext)).toFinset
          repositoryIdentity := d.first.repositoryIdentity
          attributionSources := attributionSources d.members } }

structure DiffSFTState (φ : Type) where
  rows : List (DiffSFTSample φ) := []
  declined : DiffSFTSkipReason → Nat
  ciSkipped : CIResolutionSkipReason → Nat := fun _ => 0
  parsing : Parsing := {}

abbrev Mirrors := RepositoryKey → Option DiffMirror

/-- What follows a draft: its patch, and the sample. -/
def patchDraft (policy : SFTPolicy) (mirrors : Mirrors) (key : GroupKey) (parsing : Parsing)
    (d : Draft φ) : Parsing × Except DiffSFTSkipReason (DiffSFTSample φ) :=
  match mirrors key.2.repository with
  | none => (parsing, .error .mirrorAbsent)
  | some mirror =>
    match parsing.sections key.2 mirror with
    | (parsing, .error reason) => (parsing, .error reason)
    | (parsing, .ok sections) =>
      match selectedPatch d.members sections with
      | .error reason => (parsing, .error reason)
      | .ok patch => (parsing, d.sample repositoryContext policy key patch)

def DiffSFTState.settle (s : DiffSFTState φ) (outcome : Except DiffSFTSkipReason (DiffSFTSample φ)) :
    DiffSFTState φ :=
  match outcome with
  | .error reason => { s with declined := bump s.declined reason 1 }
  | .ok sample => { s with rows := s.rows ++ [sample] }

def DiffSFTState.step (policy : SFTPolicy) (calls : Calls φ) (mirrors : Mirrors)
    (s : DiffSFTState φ) (group : GroupKey × List CompletionFields) :
    Except DiffSFTError (DiffSFTState φ) :=
  match draft digest repositoryContext policy calls group.1 group.2 with
  | .error e => .error e
  | .ok drafting =>
    let s := { s with ciSkipped := fun reason => s.ciSkipped reason + drafting.ciSkipped reason }
    match drafting.outcome with
    | .error reason => .ok (s.settle (.error reason))
    | .ok d =>
      let patched := patchDraft repositoryContext policy mirrors group.1 s.parsing d
      .ok ({ s with parsing := patched.1 }.settle patched.2)

structure DiffSFTProjection (φ : Type) where
  rows : List (DiffSFTSample φ)
  skipped : DiffSFTCount → Nat

def rowOrder (row : DiffSFTSample φ) : String ×ₗ String :=
  toLex (row.metadata.completionId, row.metadata.commitSha)

/-- `project_diff_sft` -/
def projectDiffSft (policy : SFTPolicy) (calls : Calls φ) (mirrors : Mirrors)
    (rows : List AttributedCompletion) : Except DiffSFTError (DiffSFTProjection φ) :=
  match (rows.map AttributedCompletion.toCompletionFields).foldlM Grouping.add {} with
  | .error e => .error e
  | .ok grouping =>
    let start : DiffSFTState φ :=
      { declined := fun reason => if reason = .sft .abandoned then grouping.abandoned else 0 }
    match (sortedBy groupOrder grouping.groups.entries).foldlM
        (DiffSFTState.step digest repositoryContext policy calls mirrors) start with
    | .error e => .error e
    | .ok s => .ok
      { rows := sortedBy rowOrder s.rows
        skipped := fun
          | .declined reason => s.declined reason
          | .ci reason => s.ciSkipped reason
          | .diff reason => s.parsing.skipped reason }

end

end Sediment.Export
