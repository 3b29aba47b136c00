import Sediment.Base.Dict
import Sediment.Core.Evidence
import Sediment.Derive.Similarity

namespace Sediment.Derive
open Sediment.Base Sediment.Core

def contextQueryBytesLimit : Nat := 2048
def contextMinResponseBytes : Int := 4096
def contextMaxResponseBytes : Int := 65536
def contextEnvelopeBytes : Int := 2048
def contextItemLimit : Nat := 8
def contextStateBytesLimit : Nat := 32 * 1024 * 1024
def contextStateEntryBytes : Nat := 512

/-- Version 1 is the only supported policy. -/
structure ContextPolicy where
  policyVersion : Nat := 1
  supported : policyVersion = 1 := by rfl

/-- The reasons of both selections. Each result names its own six. -/
inductive ContextSkipReason where
  | reasoningPart | nonFiniteNumber | noMatch | repeatedContent | itemLimit | responseBudget
  | unmatchedPart | unmatchedSession | candidateLimit
  deriving DecidableEq

abbrev Skipped := ContextSkipReason → Nat

def Skipped.set (skipped : Skipped) (reason : ContextSkipReason) (n : Nat) : Skipped :=
  Function.update skipped reason n

def Skipped.add (skipped : Skipped) (reason : ContextSkipReason) (n : Nat) : Skipped :=
  skipped.set reason (skipped reason + n)

inductive RetrievalError where
  | invalidQuery | invalidBudget | oneFoundSession | sessionMismatch
  | read (e : EvidenceReadError)
  deriving DecidableEq

structure ContextRetrievalItem where
  score : Nat
  evidence : EvidenceReadItem

structure ContextDiscoveryItem where
  sessionId : String
  score : Nat
  matchedParts : Nat
  preview : Option EvidenceReadItem
  commitMatch : Option ContextCommitMatch

inductive ContextStatus where
  | matched | noMatch | budgetExhausted
  deriving DecidableEq

def ContextStatus.value : ContextStatus → String
  | .matched => "matched"
  | .noMatch => "no_match"
  | .budgetExhausted => "budget_exhausted"

structure ContextRetrievalResult where
  policyVersion : Nat
  sourceSessionId : String
  quarantineRevision : Nat
  status : ContextStatus
  visibleInferenceCalls : Nat
  quarantinedInferenceCalls : Nat
  scannedParts : Nat
  skipped : Skipped
  items : List ContextRetrievalItem

structure ContextDiscoveryResult where
  policyVersion : Nat
  quarantineRevision : Nat
  commit : Option ContextCommitAnchor
  status : ContextStatus
  authorizedSessions : Nat
  foundSessions : Nat
  visibleInferenceCalls : Nat
  quarantinedInferenceCalls : Nat
  scannedParts : Nat
  matchedParts : Nat
  skipped : Skipped
  items : List ContextDiscoveryItem

def queryStopwords : List (List Char) :=
  ("a an and are as at be by did do does for from how i in is it of on or that the this to " ++
    "was were what when where which who why with").toList.splitOn ' '

/-- Validate a question without echoing content; return meaningful tokens. -/
def contextQueryTokens (query : String) : Except RetrievalError (Finset (List Char)) :=
  if strip query = "" then .error .invalidQuery
  else if contextQueryBytesLimit < query.utf8ByteSize then .error .invalidQuery
  else
    let tokens := tokenize query.toList \ queryStopwords.toFinset
    if tokens = ∅ then .error .invalidQuery else .ok tokens

def strictJson (value : Value) : Except EvidenceReadError (List Char) := do
  validateEvidenceNumbers value
  pure (value.write sortedWriter)

/-- `none` for reasoning, which has no retrieval text. -/
def searchText : MessagePart → Option (Except EvidenceReadError (List Char))
  | .text content => some (.ok content.toList)
  | .toolCall _ name arguments =>
    some ((strictJson (.obj arguments)).map (fun text => name.toList ++ ' ' :: text))
  | .toolCallResponse _ result => some (strictJson result)
  | .reasoning _ => none

/-- The latest instant a `datetime` can hold. -/
def datetimeMax : Int := 253402300799999999

def sideRank : EvidenceSide → Nat
  | .input => 0
  | .output => 1

def rankKey (item : ContextRetrievalItem) : Int ×ₗ Int ×ₗ String ×ₗ Nat ×ₗ Nat ×ₗ Nat :=
  let reference := item.evidence.reference
  let newestFirst := datetimeMax - item.evidence.observedAt.utc
  toLex (-(item.score : Int), toLex (newestFirst, toLex (reference.inferenceCallId,
    toLex (sideRank reference.side, toLex (reference.messageIndex, reference.partIndex)))))

def contentKey (item : EvidenceReadItem) : Except EvidenceReadError (List Char) :=
  strictJson (.obj [("role", .str item.role), ("finish_reason", optionalStr item.finishReason),
    ("part", item.part.payload)])

def discoveryRankKey (item : ContextDiscoveryItem) : Bool ×ₗ Int ×ₗ String :=
  toLex (item.commitMatch.isNone, toLex (-(item.score : Int), item.sessionId))

/-- A scored candidate, or the reason the part is skipped for. -/
def candidate (item : EvidenceReadItem) (queryTokens : Finset (List Char))
    (unmatchedReason : ContextSkipReason) : Except ContextSkipReason ContextRetrievalItem :=
  match searchText item.part with
  | none => .error .reasoningPart
  | some (.error _) => .error .nonFiniteNumber
  | some (.ok text) =>
    let score := (queryTokens ∩ tokenize text).card
    if score = 0 then .error unmatchedReason else .ok ⟨score, item⟩

section
variable [DatetimeJson]

def ContextRetrievalItem.payload (item : ContextRetrievalItem) : Value :=
  .obj [("score", .int item.score), ("evidence", item.evidence.payload)]

def ContextDiscoveryItem.payload (item : ContextDiscoveryItem) : Value :=
  .obj [("session_id", .str item.sessionId), ("score", .int item.score),
    ("matched_parts", .int item.matchedParts),
    ("preview", (item.preview.map EvidenceReadItem.payload).getD .null),
    ("commit_match", (item.commitMatch.map ContextCommitMatch.payload).getD .null)]

def ContextRetrievalResult.payload (r : ContextRetrievalResult) : Value :=
  .obj [("schema_version", .int 1), ("policy_version", .int r.policyVersion),
    ("source_session_id", .str r.sourceSessionId),
    ("quarantine_revision", .int r.quarantineRevision), ("status", .str r.status.value),
    ("capture_completeness", .str "unknown"),
    ("coverage", .obj [("visible_inference_calls", .int r.visibleInferenceCalls),
      ("quarantined_inference_calls", .int r.quarantinedInferenceCalls),
      ("scanned_parts", .int r.scannedParts), ("complete_visible_scan", .bool true)]),
    ("skipped", .obj [("reasoning_part", .int (r.skipped .reasoningPart)),
      ("non_finite_number", .int (r.skipped .nonFiniteNumber)),
      ("no_match", .int (r.skipped .noMatch)),
      ("repeated_content", .int (r.skipped .repeatedContent)),
      ("item_limit", .int (r.skipped .itemLimit)),
      ("response_budget", .int (r.skipped .responseBudget))]),
    ("items", .arr (r.items.map ContextRetrievalItem.payload))]

def ContextDiscoveryResult.payload (r : ContextDiscoveryResult) : Value :=
  .obj [("schema_version", .int 1), ("policy_version", .int r.policyVersion),
    ("quarantine_revision", .int r.quarantineRevision),
    ("capture_completeness", .str "unknown"),
    ("commit", (r.commit.map ContextCommitAnchor.payload).getD .null),
    ("status", .str r.status.value),
    ("coverage", .obj [("authorized_sessions", .int r.authorizedSessions),
      ("found_sessions", .int r.foundSessions),
      ("visible_inference_calls", .int r.visibleInferenceCalls),
      ("quarantined_inference_calls", .int r.quarantinedInferenceCalls),
      ("scanned_parts", .int r.scannedParts), ("matched_parts", .int r.matchedParts),
      ("complete_visible_scan", .bool true)]),
    ("skipped", .obj [("reasoning_part", .int (r.skipped .reasoningPart)),
      ("non_finite_number", .int (r.skipped .nonFiniteNumber)),
      ("unmatched_part", .int (r.skipped .unmatchedPart)),
      ("unmatched_session", .int (r.skipped .unmatchedSession)),
      ("candidate_limit", .int (r.skipped .candidateLimit)),
      ("response_budget", .int (r.skipped .responseBudget))]),
    ("items", .arr (r.items.map ContextDiscoveryItem.payload))]

end

structure Packed (ι : Type) where
  selected : List ι := []
  limited : Nat := 0
  oversized : Nat := 0
  remaining : Int

def packStep {ι : Type} (payload : ι → Value) (s : Packed ι) (candidate : ι) :
    Except EvidenceReadError (Packed ι) :=
  if s.selected.length = contextItemLimit then .ok { s with limited := s.limited + 1 }
  else
    let commaBytes : Int := if s.selected = [] then 0 else 1
    match encodeEvidenceJson (payload candidate) (s.remaining - commaBytes) with
    | .ok encoded => .ok { s with
        remaining := s.remaining - (encoded.length + commaBytes)
        selected := s.selected ++ [candidate] }
    | .error (.evidenceResponseLimit _) => .ok { s with oversized := s.oversized + 1 }
    | .error e => .error e

def packCandidates {ι : Type} (payload : ι → Value) (candidates : List ι) (maxBytes : Int) :
    Except EvidenceReadError (Packed ι) :=
  candidates.foldlM (packStep payload) { remaining := maxBytes - contextEnvelopeBytes }

def stateLimit : RetrievalError := .read (.retrievalStateLimit contextStateBytesLimit)

def checkStateBytes (size : Nat) : Except RetrievalError Unit :=
  if contextStateBytesLimit < size then .error stateLimit else .ok ()

def stateEncodingSize (payload : Value) : Except RetrievalError Nat :=
  match encodeEvidenceJson payload contextStateBytesLimit with
  | .ok encoded => .ok encoded.length
  | .error (.evidenceResponseLimit _) => .error stateLimit
  | .error e => .error (.read e)

def validateResponseBudget (maxBytes : Int) : Except RetrievalError Unit :=
  if contextMinResponseBytes ≤ maxBytes ∧ maxBytes ≤ contextMaxResponseBytes then .ok ()
  else .error .invalidBudget

def contextStatus (selected candidates : Bool) : ContextStatus :=
  if selected then .matched else if candidates then .budgetExhausted else .noMatch

/-- Both encodings that every result must fit before it is returned: the
envelope `payload []` and the whole. -/
def checkResponse (envelope payload : Value) (maxBytes : Int) : Except RetrievalError Unit := do
  let _ ← (encodeEvidenceJson envelope contextEnvelopeBytes).mapError .read
  let _ ← (encodeEvidenceJson payload maxBytes).mapError .read
  pure ()

section
variable [DatetimeJson]

/-- Pack the ranked candidates into a checked result. -/
def retrievalResult (policy : ContextPolicy) (sessionId : String)
    (quarantineRevision visible quarantined scannedParts : Nat) (skipped : Skipped)
    (anyCandidate : Bool) (ranked : List ContextRetrievalItem) (maxBytes : Int) :
    Except RetrievalError ContextRetrievalResult := do
  let packed ← (packCandidates ContextRetrievalItem.payload ranked maxBytes).mapError .read
  let result : ContextRetrievalResult :=
    { policyVersion := policy.policyVersion
      sourceSessionId := sessionId
      quarantineRevision
      status := contextStatus (packed.selected ≠ []) anyCandidate
      visibleInferenceCalls := visible
      quarantinedInferenceCalls := quarantined
      scannedParts
      skipped := (skipped.set .itemLimit packed.limited).set .responseBudget packed.oversized
      items := packed.selected }
  checkResponse { result with items := [] }.payload result.payload maxBytes
  pure result

/-- What the stream keeps: for each content, its best occurrence and the
largest encoding seen. -/
structure GroupState where
  groups : Dict (List Char) (ContextRetrievalItem × Nat) := Dict.empty
  stateBytes : Nat := 0
  scannedParts : Nat := 0
  skipped : Skipped := fun _ => 0

def groupStep (sessionId : String) (queryTokens : Finset (List Char)) (s : GroupState)
    (entry : String × EvidenceReadItem) : Except RetrievalError GroupState := do
  let (identifier, item) := entry
  if identifier ≠ sessionId then throw .sessionMismatch
  let s := { s with scannedParts := s.scannedParts + 1 }
  match candidate item queryTokens .noMatch with
  | .error reason => pure { s with skipped := s.skipped.add reason 1 }
  | .ok candidate =>
    let key ← (contentKey item).mapError .read
    let size ← stateEncodingSize candidate.payload
    match s.groups.get? key with
    | none =>
      let stateBytes := s.stateBytes + (key.length + size + contextStateEntryBytes)
      if s.groups.keys.length = contextScanPartLimit then throw stateLimit
      checkStateBytes stateBytes
      pure { s with groups := s.groups.set key (candidate, size), stateBytes }
    | some (best, reserved) =>
      let stateBytes := s.stateBytes + (size - reserved)
      checkStateBytes stateBytes
      let best := if rankKey candidate < rankKey best then candidate else best
      pure { s with
        groups := s.groups.set key (best, max size reserved)
        stateBytes
        skipped := s.skipped.add .repeatedContent 1 }

/-- Reduce a complete Session stream with exact keys and bounded state. -/
def retrieveContextStream (metadata : ContextScanMetadata)
    (items : List (String × EvidenceReadItem)) (query : String) (maxBytes : Int)
    (policy : ContextPolicy) : Except RetrievalError ContextRetrievalResult := do
  let queryTokens ← contextQueryTokens query
  validateResponseBudget maxBytes
  match metadata.sessions with
  | [session] =>
    let s ← items.foldlM (groupStep session.sessionId queryTokens) {}
    retrievalResult policy session.sessionId metadata.quarantineRevision
      metadata.visibleInferenceCalls metadata.quarantinedInferenceCalls s.scannedParts s.skipped
      (s.groups.keys ≠ []) (sortedBy rankKey (s.groups.values.map Prod.fst)) maxBytes
  | _ => throw .oneFoundSession

structure Scan where
  candidates : List ContextRetrievalItem := []
  skipped : Skipped := fun _ => 0

def scanStep (queryTokens : Finset (List Char)) (unmatchedReason : ContextSkipReason) (s : Scan)
    (item : EvidenceReadItem) : Scan :=
  match candidate item queryTokens unmatchedReason with
  | .error reason => { s with skipped := s.skipped.add reason 1 }
  | .ok candidate => { s with candidates := s.candidates ++ [candidate] }

/-- What `distinct_candidates` has yielded: the first candidate of each content. -/
structure Distinct where
  seen : Finset (List Char) := ∅
  yielded : List ContextRetrievalItem := []
  repeated : Nat := 0

def distinctStep (s : Distinct) (candidate : ContextRetrievalItem) :
    Except EvidenceReadError Distinct := do
  let key ← contentKey candidate.evidence
  if key ∈ s.seen then pure { s with repeated := s.repeated + 1 }
  else pure { s with seen := insert key s.seen, yielded := s.yielded ++ [candidate] }

/-- Select complete original parts. The packing loop drains the generator, so
every repetition is counted. -/
def retrieveContext (source : EvidenceContextSource) (query : String) (maxBytes : Int)
    (policy : ContextPolicy) : Except RetrievalError ContextRetrievalResult := do
  let queryTokens ← contextQueryTokens query
  validateResponseBudget maxBytes
  let s := source.items.foldl (scanStep queryTokens .noMatch) {}
  let distinct ← ((sortedBy rankKey s.candidates).foldlM distinctStep {}).mapError .read
  retrievalResult policy source.sessionId source.quarantineRevision source.visibleInferenceCalls
    source.quarantinedInferenceCalls source.items.length
    (s.skipped.add .repeatedContent distinct.repeated) (s.candidates ≠ []) distinct.yielded
    maxBytes

def discoveryResult (policy : ContextPolicy) (quarantineRevision : Nat)
    (commit : Option ContextCommitAnchor)
    (authorizedSessions foundSessions visible quarantined scannedParts matchedParts : Nat)
    (skipped : Skipped) (candidates : List ContextDiscoveryItem) (maxBytes : Int) :
    Except RetrievalError ContextDiscoveryResult := do
  let packed ← (packCandidates ContextDiscoveryItem.payload
    (sortedBy discoveryRankKey candidates) maxBytes).mapError .read
  let result : ContextDiscoveryResult :=
    { policyVersion := policy.policyVersion
      quarantineRevision
      commit
      status := contextStatus (packed.selected ≠ []) (candidates ≠ [])
      authorizedSessions
      foundSessions
      visibleInferenceCalls := visible
      quarantinedInferenceCalls := quarantined
      scannedParts
      matchedParts
      skipped := (skipped.set .candidateLimit packed.limited).set .responseBudget packed.oversized
      items := packed.selected }
  checkResponse { result with items := [] }.payload result.payload maxBytes
  pure result

def discoveryItem (sessionId : String) (matchedParts : Nat) (best : Option ContextRetrievalItem)
    (commitMatch : Option ContextCommitMatch) : ContextDiscoveryItem where
  sessionId
  score := (best.map ContextRetrievalItem.score).getD 0
  matchedParts
  preview := best.map ContextRetrievalItem.evidence
  commitMatch

/-- What one found Session keeps: its matches, the best one and the largest encoding. -/
structure SessionState where
  count : Nat := 0
  best : Option ContextRetrievalItem := none
  reserved : Nat := 0

structure DiscoveryState where
  sessions : Dict String SessionState
  stateBytes : Nat
  scannedParts : Nat := 0
  matchedParts : Nat := 0
  skipped : Skipped := fun _ => 0

/-- One step of `min` with the rank as its key: the first of equals stays. -/
def better (candidate : ContextRetrievalItem) : Option ContextRetrievalItem → ContextRetrievalItem
  | none => candidate
  | some best => if rankKey candidate < rankKey best then candidate else best

def bestMatch (candidates : List ContextRetrievalItem) : Option ContextRetrievalItem :=
  candidates.foldl (fun best candidate => some (better candidate best)) none

def discoverStep (queryTokens : Finset (List Char)) (s : DiscoveryState)
    (entry : String × EvidenceReadItem) : Except RetrievalError DiscoveryState := do
  let (identifier, item) := entry
  match s.sessions.get? identifier with
  | none => throw .sessionMismatch
  | some session =>
    let s := { s with scannedParts := s.scannedParts + 1 }
    match candidate item queryTokens .unmatchedPart with
    | .error reason => pure { s with skipped := s.skipped.add reason 1 }
    | .ok candidate =>
      let size ← stateEncodingSize item.payload
      let stateBytes := s.stateBytes + (size - session.reserved)
      checkStateBytes stateBytes
      pure { s with
        sessions := s.sessions.set identifier
          ⟨session.count + 1, some (better candidate session.best), max size session.reserved⟩
        matchedParts := s.matchedParts + 1
        stateBytes }

structure Ranked where
  candidates : List ContextDiscoveryItem := []
  skipped : Skipped

def foundStep (sessions : Dict String SessionState) (s : Ranked) (session : ContextScanSession) :
    Ranked :=
  let state := (sessions.get? session.sessionId).getD {}
  if state.best.isNone ∧ session.commitMatch.isNone then
    { s with skipped := s.skipped.add .unmatchedSession 1 }
  else
    { s with candidates := s.candidates ++
        [discoveryItem session.sessionId state.count state.best session.commitMatch] }

/-- Keep exact match counts and one best preview for each found Session. -/
def discoverContextStream (metadata : ContextScanMetadata)
    (items : List (String × EvidenceReadItem)) (query : String) (maxBytes : Int)
    (policy : ContextPolicy) : Except RetrievalError ContextDiscoveryResult := do
  let queryTokens ← contextQueryTokens query
  validateResponseBudget maxBytes
  let sessions : Dict String SessionState :=
    metadata.sessions.foldl (fun d session => d.set session.sessionId {}) Dict.empty
  let stateBytes := sessions.keys.length * contextStateEntryBytes
  checkStateBytes stateBytes
  let s ← items.foldlM (discoverStep queryTokens) { sessions, stateBytes }
  let ranked := metadata.sessions.foldl (foundStep s.sessions) { skipped := s.skipped }
  discoveryResult policy metadata.quarantineRevision metadata.commit metadata.authorizedSessions
    metadata.sessions.length metadata.visibleInferenceCalls metadata.quarantinedInferenceCalls
    s.scannedParts s.matchedParts ranked.skipped ranked.candidates maxBytes

structure Discovered where
  candidates : List ContextDiscoveryItem := []
  scannedParts : Nat := 0
  matchedParts : Nat := 0
  skipped : Skipped := fun _ => 0

def sessionStep (queryTokens : Finset (List Char)) (s : Discovered)
    (session : ContextDiscoverySession) : Discovered :=
  let scan := session.items.foldl (scanStep queryTokens .unmatchedPart) { skipped := s.skipped }
  let matched := scan.candidates
  let s := { s with
    scannedParts := s.scannedParts + session.items.length
    matchedParts := s.matchedParts + matched.length
    skipped := scan.skipped }
  if matched = [] ∧ session.commitMatch.isNone then
    { s with skipped := s.skipped.add .unmatchedSession 1 }
  else
    { s with candidates := s.candidates ++
        [discoveryItem session.sessionId matched.length (bestMatch matched)
          session.commitMatch] }

/-- Rank authorized Sessions without inventing previews. -/
def discoverContext (source : ContextDiscoverySource) (query : String) (maxBytes : Int)
    (policy : ContextPolicy) : Except RetrievalError ContextDiscoveryResult := do
  let queryTokens ← contextQueryTokens query
  validateResponseBudget maxBytes
  let s := source.sessions.foldl (sessionStep queryTokens) {}
  discoveryResult policy source.quarantineRevision source.commit source.authorizedSessions
    source.sessions.length source.visibleInferenceCalls source.quarantinedInferenceCalls
    s.scannedParts s.matchedParts s.skipped s.candidates maxBytes

end

end Sediment.Derive
