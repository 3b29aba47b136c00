import Sediment.Base.Base64
import Sediment.Base.JsonCompact
import Sediment.Base.Keyset
import Sediment.Core.CiOutcome
import Sediment.Core.IsoFormat
import Sediment.Core.Store
import Sediment.Derive.RepositoryContext

namespace Sediment.Api
open Sediment.Base Sediment.Base.JsonScan Sediment.Core Sediment.Derive
open Sediment.Base.Keyset (Page)

/-- What a route raises: a refusal with its status, or an exception that nothing catches. -/
inductive QueryError where
  | unprocessable (detail : String)
  | conflict (reason : String)
  | internal
  deriving DecidableEq, Repr

/-- A row of `ci_outcomes`. Its id passed the model's validator when it was stored. -/
structure StoredOutcome where
  outcomeId : String
  orgId : String
  repo : RepositoryColumns
  result : CIResult
  workflowName : String
  prNumber : Option Nat
  capturedAt : Datetime
  idValid : nonEmptyId outcomeId = some outcomeId

/-- One snapshot: the repository Facts and quarantine records, and the CI outcomes
under their primary key. -/
structure CiStore where
  repository : RepositoryStore
  outcomes : List StoredOutcome
  primaryKey : outcomes.Pairwise (fun a b => a.outcomeId ≠ b.outcomeId)

def CiStore.quarantineRevision (s : CiStore) (orgId : String) : Nat :=
  ((s.repository.quarantine.filter (·.orgId = orgId)).map
    FactQuarantine.quarantineRevision).foldl max 0

/-- The parameters of the route, less the page size and the cursor. -/
structure CiFailuresQuery where
  capturedAfter : Datetime
  capturedBefore : Datetime
  repo : Option String := none
  repositoryProvider : Option ForgeProvider := none
  repositoryHost : Option String := none
  repositoryId : Option String := none
  asOf : Option Datetime := none
  result : CIResult := .failed
  workflowName : Option String := none
  prNumber : Option Nat := none

/-- What `_ci_filter_key` binds a cursor to. The times are in UTC. -/
structure CiFilter where
  repositoryKey : RepositoryKey
  orgId : String
  asOf : Datetime
  quarantineRevision : Nat
  capturedAfter : Datetime
  capturedBefore : Datetime
  result : CIResult
  workflowName : Option String
  prNumber : Option Nat

def invalidCursor : QueryError := .unprocessable "invalid CI outcome cursor"

def foreignCursor : QueryError := .unprocessable "CI outcome cursor doesn't match filters"

def ciFilterValue (f : CiFilter) : Json Text Empty :=
  .arr [.str (codePoints f.orgId),
    .arr ((repositorySortKey f.repositoryKey).map (fun part => .str (codePoints part))),
    .str f.asOf.isoText,
    .int f.quarantineRevision,
    .str f.capturedAfter.isoText,
    .str f.capturedBefore.isoText,
    .str (codePoints f.result.value),
    f.workflowName.elim .null (fun name => .str (codePoints name)),
    f.prNumber.elim .null (fun n => .int n)]

def ciFilterKey (f : CiFilter) : Text := render (compact Empty.elim) (ciFilterValue f)

def encodeCiCursor (capturedAt : Datetime) (outcomeId : String) (filterKey : Text) : List Char :=
  Base64.unpad (Base64.encode (encodeUtf8
    (stringsText [capturedAt.isoText, codePoints outcomeId, filterKey])))

/-- `a, b, c = value`: an array, the characters of a text or the keys of an object. -/
def unpackThree : JsonValue → Option (JsonValue × JsonValue × JsonValue)
  | .arr [a, b, c] => some (a, b, c)
  | .str [a, b, c] => some (.str [a], .str [b], .str [c])
  | .obj [(a, _), (b, _), (c, _)] => some (.str a, .str b, .str c)
  | _ => none

/-- A text that holds no surrogate, as a validator takes it. -/
def scalarText (t : Text) : Option String :=
  if t.all (fun n => n.isValidChar) then some (String.ofList (t.map Char.ofNat)) else none

section
variable [DatetimeReader] (depth : Nat)

def awareText : JsonValue → Option Datetime
  | .str t =>
    match DatetimeReader.fromisoformat t with
    | some (.aware d) => some d
    | _ => none
  | _ => none

def validatedId : JsonValue → Option String
  | .str t => (scalarText t).bind nonEmptyId
  | _ => none

/-- The interpreter nests `depth + 1` containers before it raises `RecursionError`. -/
def decodeCiCursor (cursor : List Char) (filterKey : Text) :
    Except QueryError (Datetime × String) :=
  match (Base64.decode (Base64.repad cursor)).bind decodeUtf8? with
  | none => .error invalidCursor
  | some text =>
    match loads (depth + 1) text with
    | .error .recursionError => .error .internal
    | .error .valueError => .error invalidCursor
    | .ok value =>
      match unpackThree value with
      | none => .error invalidCursor
      | some (capturedAt, outcomeId, cursorFilterKey) =>
        match awareText capturedAt, validatedId outcomeId with
        | some parsed, some outcomeId =>
          match cursorFilterKey with
          | .str t => if t = filterKey then .ok (parsed, outcomeId) else .error foreignCursor
          | _ => .error foreignCursor
        | _, _ => .error invalidCursor

end

section
variable [Interpreter] (s : CiStore) (orgId : String)

def readErrorResponse : ReadError → QueryError
  | .limitExceeded => .conflict "repository_evidence_limit"
  | _ => .internal

def contextErrorResponse : ContextError → QueryError
  | .populationLimit => .conflict "repository_evidence_limit"
  | _ => .internal

def selectErrorResponse : RepositoryContext.SelectError → QueryError
  | .ambiguous => .conflict "repository_selector_ambiguous"
  | _ => .unprocessable "repository selector conflicts with declared evidence"

/-- `_selector_identity`. -/
def selectorIdentity (q : CiFailuresQuery) : Except QueryError (Option RepositoryIdentity) :=
  match q.repositoryProvider, q.repositoryHost, q.repositoryId with
  | some provider, some host, some repositoryId => .ok (some ⟨provider, host, repositoryId⟩)
  | none, none, none => .ok none
  | _, _, _ => .error (.unprocessable "repository identity requires all three components")

def requireUtc (d : Datetime) : Except QueryError Datetime :=
  d.astimezone.elim (.error .internal) .ok

/-- `repository_read_key` and the adapter that `_repository_selector_condition` passes it to. -/
def repositoryReadKey : RepositoryKey → Except QueryError RepositoryKey
  | .legacy orgId repo =>
    (requiredRepoSlug repo).elim (.error .internal) (fun repo => .ok (.legacy orgId repo))
  | .identified orgId identity =>
    match forgeHost identity.host, providerRepositoryId identity.repositoryId with
    | some host, some repositoryId =>
      .ok (.identified orgId ⟨identity.provider, host, repositoryId⟩)
    | _, _ => .error .internal

/-- `_repository_selector_condition`. -/
def selects (key : RepositoryKey) (columns : RepositoryColumns) : Bool :=
  match key with
  | .legacy _ repo => columns.repositoryId = none ∧ columns.repo = repo
  | .identified _ identity => columns.repositoryProvider = some identity.provider ∧
      columns.repositoryHost = some identity.host ∧
      columns.repositoryId = some identity.repositoryId

section
variable [Collation]

/-- `read_repository_context` with a boundary and no supplements. -/
def readRepositoryContext (boundary : Datetime) : Except QueryError RepositoryContext := do
  let evidence ← (s.repository.readRepositoryIdentities orgId boundary.instant
    repositoryIdentityLimit).mapError readErrorResponse
  let renames ← (s.repository.readRepositoryRenames orgId boundary.instant
    repositoryIdentityLimit).mapError readErrorResponse
  let context ← (buildRepositoryContext evidence renames orgId boundary.instant).mapError
    contextErrorResponse
  let _ ← requireUtc boundary
  pure context

/-- Everything a page settles before its cursor; no key is no repository. -/
def ciFilter (q : CiFailuresQuery) : Except QueryError (Option CiFilter) := do
  if q.capturedBefore.instant ≤ q.capturedAfter.instant then
    throw (.unprocessable "captured_after must precede captured_before")
  let identity ← selectorIdentity q
  if q.repo = none ∧ identity = none then
    throw (.unprocessable "CI summaries require a repository selector")
  let boundary := q.asOf.getD q.capturedBefore
  let context ← readRepositoryContext s orgId boundary
  match ← (context.selectRepository orgId q.repo identity).mapError selectErrorResponse with
  | none => pure none
  | some repositoryKey =>
    let asOf ← requireUtc boundary
    let capturedAfter ← requireUtc q.capturedAfter
    let capturedBefore ← requireUtc q.capturedBefore
    pure (some {
      repositoryKey, orgId, asOf, capturedAfter, capturedBefore
      quarantineRevision := s.quarantineRevision orgId
      result := q.result
      workflowName := q.workflowName
      prNumber := q.prNumber })

/-- The conditions of `_read_ci_outcome_summaries`, less the one on the position. -/
def ciMatches (key : RepositoryKey) (f : CiFilter) (o : StoredOutcome) : Bool :=
  o.orgId = f.orgId ∧ s.repository.latestAction o.orgId .ciOutcomes o.outcomeId ≠ some .quarantine ∧
    selects key o.repo ∧ o.result = f.result ∧
    f.capturedAfter.instant ≤ o.capturedAt.instant ∧
    o.capturedAt.instant < f.capturedBefore.instant ∧ o.capturedAt.instant ≤ f.asOf.instant ∧
    f.workflowName.all (o.workflowName = ·) ∧ f.prNumber.all (o.prNumber = some ·)

/-- `(captured_at, outcome_id) < before`. -/
def behind (before : Datetime × String) (o : StoredOutcome) : Bool :=
  o.capturedAt.instant < before.1.instant ||
    (o.capturedAt.instant == before.1.instant && !Collation.le before.2 o.outcomeId)

/-- `ORDER BY captured_at DESC, outcome_id DESC`. -/
def newestFirst (a b : StoredOutcome) : Bool :=
  b.capturedAt.instant < a.capturedAt.instant ||
    (a.capturedAt.instant == b.capturedAt.instant && Collation.le b.outcomeId a.outcomeId)

/-- A pull-request number past the column's type is an error of the database. -/
def readCiOutcomeSummaries (f : CiFilter) (before : Option (Datetime × String)) (limit : Nat) :
    Except QueryError (List StoredOutcome) :=
  if ¬(1 ≤ limit ∧ limit ≤ 101) then .error .internal
  else
    match repositoryReadKey f.repositoryKey with
    | .error e => .error e
    | .ok key =>
      if f.prNumber.any (2 ^ 63 ≤ ·) then .error .internal
      else .ok ((orderBy newestFirst (s.outcomes.filter (fun o =>
        ciMatches s key f o && before.all (behind · o)))).take limit)

def ciPage (filterKey : Text) (limit : Nat) (outcomes : List StoredOutcome) :
    Page StoredOutcome (List Char) where
  rows := outcomes.take limit
  next :=
    if limit < outcomes.length then
      (outcomes.take limit).getLast?.map (fun last =>
        encodeCiCursor last.capturedAt last.outcomeId filterKey)
    else none

variable [DatetimeReader] (depth : Nat)

def queryCiFailures (q : CiFailuresQuery) (limit : Nat) (cursor : Option (List Char)) :
    Except QueryError (Page StoredOutcome (List Char)) :=
  match ciFilter s orgId q with
  | .error e => .error e
  | .ok none => if cursor.isSome then .error foreignCursor else .ok ⟨[], none⟩
  | .ok (some f) =>
    match cursor.mapM (decodeCiCursor depth · (ciFilterKey f)) with
    | .error e => .error e
    | .ok before =>
      match readCiOutcomeSummaries s f before (limit + 1) with
      | .error e => .error e
      | .ok outcomes => .ok (ciPage (ciFilterKey f) limit outcomes)

end

end

end Sediment.Api
