import Sediment.Base.Batches
import Sediment.Base.JsonDumps
import Sediment.Core.CapturedEvents
import Sediment.Capture.Payload

namespace Sediment.Capture.Otlp
open Sediment.Base Base.JsonScan Sediment.Core Sediment.Core.Captured

/-- What `parse_otlp_logs` may raise: a text that nests beyond what `json.loads` can follow, or a
value beyond what `str` can. -/
inductive ParseError where
  | recursionError
  deriving DecidableEq, Repr

abbrev Parse (α : Type) := Except ParseError α

/-- The interpreter's tables of Unicode: `str.casefold`, and the value of a decimal digit. -/
class TextTables where
  casefold : Text → Text
  decimal : Nat → Option Nat

/-- `hashlib.sha256(...).hexdigest()` of an ASCII text. -/
class Sha256 where
  hexdigest : List Char → String

abbrev Attrs (φ : Type) := Dict Text (Payload φ)

section
variable {φ : Type}

/-- `attrs.get(key)`. -/
def attr (attrs : Attrs φ) (key : String) : Payload φ := (attrs.get? (codePoints key)).getD .null

def strOrNone : Payload φ → Option Text
  | .str s => if s = [] then none else some s
  | _ => none

def idOrNone (value : Payload φ) : Option Text := do
  let value ← strOrNone value
  let value := strip value
  if value = [] then none else some value

def countOrNone : Payload φ → Option Int
  | .int n => boundedCount n
  | _ => none

end

section
variable [TextTables]

def decimal (c : Nat) : Option Nat :=
  if 48 ≤ c ∧ c ≤ 57 then some (c - 48) else TextTables.decimal c

/-- Digits, between which an underscore may stand. -/
def parseDigits (acc : Nat) : Text → Option Nat
  | [] => some acc
  | 95 :: c :: rest => (decimal c).bind (fun d => parseDigits (acc * 10 + d) rest)
  | c :: rest => (decimal c).bind (fun d => parseDigits (acc * 10 + d) rest)

/-- The blanks around a number: those of `str.strip` but the separators of ASCII. -/
def isNumberSpace (c : Nat) : Bool := isSpaceCode c && !(28 ≤ c && c ≤ 31)

def maxStrDigits : Nat := 4300

def parseNat : Text → Option Nat
  | [] => none
  | c :: rest =>
    if ((c :: rest).filter (· ≠ 95)).length ≤ maxStrDigits then
      (decimal c).bind (fun d => parseDigits d rest)
    else none

/-- `int(s)` of a string; `none` stands for `ValueError`. -/
def parseInt (s : Text) : Option Int :=
  let s := ((s.dropWhile isNumberSpace).reverse.dropWhile isNumberSpace).reverse
  match s with
  | 45 :: digits => (parseNat digits).map (fun n => -(n : Int))
  | 43 :: digits => (parseNat digits).map Int.ofNat
  | digits => (parseNat digits).map Int.ofNat

variable {φ : Type} [PyFloat φ]

/-- `int(value)`; `none` stands for the three errors that its callers catch. -/
def toInt : Payload φ → Option Int
  | .int n => some n
  | .bool b => some (if b then 1 else 0)
  | .float x => if PyFloat.isfinite x then some (PyFloat.trunc x) else none
  | .str s => parseInt s
  | _ => none

/-- `_scalar`: an `AnyValue` unwrapped, or the value itself. -/
def scalar : Payload φ → Payload φ
  | .obj fields =>
    match ["stringValue", "boolValue", "doubleValue"].findSome? (fun key =>
      fields.find? (·.1 == codePoints key)) with
    | some (_, v) => v
    | none =>
      match fields.find? (·.1 == codePoints "intValue") with
      | some (_, v) => ((toInt v).map .int).getD v
      | none => .obj fields
  | v => v

/-- `_attrs`: the last value under a key stays, at the place of the first. -/
def attrs (items : Payload φ) : Attrs φ :=
  (asList items).foldl (fun out item =>
    match item with
    | .obj fields =>
      match field fields "key" with
      | .str key => out.set key (scalar (fieldOr fields "value" (.obj [])))
      | _ => out
    | _ => out) Dict.empty

variable [PyTime φ]

/-- `_occurred_at`: zero is an unset time, and so is what no `datetime` can hold. -/
def occurredAt (timeUnixNano : Payload φ) : Option Datetime :=
  match timeUnixNano with
  | .bool _ => none
  | v => do
    let nanos ← toInt v
    if nanos ≤ 0 then none
    else
      let seconds : φ ← PyTime.truediv nanos 1000000000
      fromtimestamp seconds

end

section
variable {φ : Type} [PyFloat φ] [TextTables]

/-- What stands in the `logRecords` lists, each entry with the attributes of its resource,
and how many containers could not be walked. -/
structure Walk (φ : Type) where
  entries : List (Attrs φ × Payload φ)
  malformedContainers : Nat

def Walk.malformed : Walk φ := ⟨[], 1⟩

def Walk.concat (walks : List (Walk φ)) : Walk φ :=
  ⟨walks.flatMap Walk.entries, (walks.map Walk.malformedContainers).sum⟩

/-- `items`: a repeated field that is not a list hides what it holds. -/
def walkItems (container : Fields φ) (key : String) (walk : Payload φ → Walk φ) : Walk φ :=
  match fieldOr container key (.arr []) with
  | .arr values => Walk.concat (values.map walk)
  | _ => Walk.malformed

def walkScope (resource : Attrs φ) : Payload φ → Walk φ
  | .obj scopeLogs => walkItems scopeLogs "logRecords" (fun record => ⟨[(resource, record)], 0⟩)
  | _ => Walk.malformed

def resourceAttrs (resourceLogs : Fields φ) : Attrs φ :=
  match field resourceLogs "resource" with
  | .obj resource => attrs (field resource "attributes")
  | _ => attrs .null

def walkResource : Payload φ → Walk φ
  | .obj resourceLogs =>
    walkItems resourceLogs "scopeLogs" (walkScope (resourceAttrs resourceLogs))
  | _ => Walk.malformed

def walkPayload (payload : Fields φ) : Walk φ := walkItems payload "resourceLogs" walkResource

/-- A log record with the attributes of its resource. -/
structure LogRecord (φ : Type) where
  resource : Attrs φ
  fields : Fields φ

omit [PyFloat φ] [TextTables] in
def asRecord (entry : Attrs φ × Payload φ) : Option (LogRecord φ) :=
  (asObject entry.2).map (LogRecord.mk entry.1)

/-- `_iter_records`: the entries that are objects. -/
def iterRecords (payload : Fields φ) : List (LogRecord φ) :=
  (walkPayload payload).entries.filterMap asRecord

def LogRecord.attrs (record : LogRecord φ) : Attrs φ := Otlp.attrs (field record.fields "attributes")

/-- `_body`. -/
def LogRecord.body (record : LogRecord φ) : Text :=
  (asText (scalar (field record.fields "body"))).getD []

end

section
variable {φ : Type} [PyFloat φ] [FloatOrder φ] [TextTables] [PyTime φ] [Interpreter]

/-- How a number compares with an integer; a `bool` is not a number here. -/
def compareTo : Payload φ → Int → Option Ordering
  | .int m, n => some (compare m n)
  | .float x, n => FloatOrder.compareInt x n
  | _, _ => none

/-- `str(attrs.get("event.name", ""))`. What is not a string is spelled as none of the names
below. -/
def eventName [StrDepth] (attrs : Attrs φ) : Parse Text :=
  if (attr attrs "event.name").nesting ≤ StrDepth.depth then
    .ok ((asText (attr attrs "event.name")).getD [])
  else .error .recursionError

/-- Accepted, explicit, and the interaction mode of a Copilot decision. -/
def outcome (eventName : Text) (attrs : Attrs φ) : Option (Bool × Bool × InteractionMode) :=
  if eventName = codePoints "copilot_chat.edit.feedback" then
    let mode := if isText (attr attrs "edit_surface") "inline_chat" then .inline else .agent
    if isText (attr attrs "outcome") "accepted" then some (true, true, mode)
    else if isText (attr attrs "outcome") "rejected" then some (false, true, mode)
    else none
  else if eventName = codePoints "copilot_chat.inline.done" then
    match attr attrs "accepted" with
    | .bool accepted => some (accepted, true, .inline)
    | _ => none
  else if eventName = codePoints "copilot_chat.edit.survival" then
    if isText (attr attrs "edit_source") "apply_patch" then
      match attr attrs "survival_rate_no_revert" with
      | .int n => some (decide (compareTo (.int n : Payload φ) 0 = some .gt), false, .agent)
      | .float x => some (decide (compareTo (.float x) 0 = some .gt), false, .agent)
      | _ => none
    else none
  else none

def isFiniteNumber : Payload φ → Bool
  | .int _ => true
  | .float x => PyFloat.isfinite x
  | _ => false

/-- The score and the delay of its observation; a score of 0 or 1 is a float. -/
def editRetentionFields (attrs : Attrs φ) : Option φ × Option Int :=
  let rate := attr attrs "survival_rate_four_gram"
  let window := attr attrs "time_delay_ms"
  if isFiniteNumber rate ∧ compareTo rate 0 ∈ [some .gt, some .eq] ∧
      compareTo rate 1 ∈ [some .lt, some .eq] then
    (match rate with
      | .int n => PyFloat.ofInt n
      | .float x => some x
      | _ => none,
    if isFiniteNumber window ∧ compareTo window 0 ∈ [some .gt, some .eq] ∧
        compareTo window (2 ^ 63) = some .lt then toInt window else none)
  else (none, none)

variable (org : Text)

/-- A Copilot record that decides, translated. -/
def copilotFacts (record : LogRecord φ) (eventName : Text) : List (DeveloperDecision φ) :=
  let attrs := record.attrs
  match outcome eventName attrs with
  | none => []
  | some (accepted, explicit, interactionMode) =>
    let (editRetentionScore, observationDelayMs) :=
      if eventName = codePoints "copilot_chat.edit.survival" then editRetentionFields attrs
      else (none, none)
    match strOrNone (attr attrs "copilot_chat.file.relative_path"),
      occurredAt (field record.fields "timeUnixNano"),
      strOrNone (attr record.resource "session.id") with
    | some filePath, some occurred, some sessionId =>
      let decision : DeveloperDecision φ :=
        { decisionId := none
          orgId := org
          sessionId := sessionId
          userId := idOrNone (attr record.resource "user.id")
          agentHarness := .copilot
          filePath := filePath
          accepted := accepted
          explicit := explicit
          interactionMode := interactionMode
          commitSha :=
            (strOrNone (attr attrs "github.copilot.git.commit_sha")).bind normalizeCommitSha
          callId := idOrNone (attr attrs "request_id")
          editRetentionScore := editRetentionScore
          observationDelayMs := observationDelayMs
          occurredAt := occurred
          raw := record.fields }
      decision.validate.toList
    | _, _, _ => []

/-- Every record has its event name spelled, whoever sent it. -/
def copilotDecisions [StrDepth] (record : LogRecord φ) : Parse (List (DeveloperDecision φ)) := do
  let eventName ← eventName record.attrs
  .ok (copilotFacts org record eventName)

end

section
variable {φ : Type}

def accountIdentityAttrs : List Text :=
  ["user.email", "user.account_id", "user.account_uuid"].map codePoints

def isAccountIdentity : Payload φ → Bool
  | .obj item =>
    match field item "key" with
    | .str key => accountIdentityAttrs.contains key
    | _ => false
  | _ => false

/-- `_cc_scrub`: a record without its account identity attributes. -/
def ccScrub (record : Fields φ) : Fields φ :=
  record.map (fun (key, value) =>
    match value with
    | .arr items =>
      if key = codePoints "attributes" then (key, .arr (items.filter (!isAccountIdentity ·)))
      else (key, value)
    | _ => (key, value))

variable [FloatOrder φ]

/-- Python's truth of a value. -/
def truthy : Payload φ → Bool
  | .null => false
  | .bool b => b
  | .int n => n ≠ 0
  | .float x => FloatOrder.compareInt x 0 ≠ some .eq
  | .str s => s ≠ []
  | .arr items => !items.isEmpty
  | .obj fields => !fields.isEmpty

variable [JsonDecoder φ]

/-- `json.loads` with its `ValueError` caught; `RecursionError` is not a `ValueError`. -/
def decoded (s : Text) : Parse (Option (Payload φ)) :=
  match JsonDecoder.loads s with
  | .ok v => .ok (some v)
  | .error .valueError => .ok none
  | .error .recursionError => .error .recursionError

/-- The path in the parsed input of a tool. -/
def inputPath : Option (Payload φ) → Text
  | some (.obj parsed) =>
    let path := field parsed "file_path"
    (asText (if truthy path then path else field parsed "notebook_path")).getD []
  | _ => []

def ccFilePath (resultAttrs : Attrs φ) : Parse Text :=
  match attr resultAttrs "tool_input" with
  | .str toolInput => (decoded (φ := φ) toolInput).map inputPath
  | _ => .ok []

end

section
variable {φ : Type} [PyFloat φ] [FloatOrder φ] [TextTables] [PyTime φ] [Interpreter]
  [JsonDecoder φ]

/-- A tool result under its call id. -/
def ccResult (record : LogRecord φ) : Option (Text × LogRecord φ) :=
  if record.body = codePoints "claude_code.tool_result" then
    (strOrNone (attr record.attrs "tool_use_id")).map (fun id => (id, record))
  else none

def ccEditTools : List String := ["Edit", "Write", "MultiEdit", "NotebookEdit"]

def ccExplicitSources : List String :=
  ["user_permanent", "user_temporary", "user_abort", "user_reject"]

/-- The result that a decision is joined with. -/
def joined (results : Dict Text (LogRecord φ)) (callId : Option Text) : Option (LogRecord φ) :=
  callId.bind results.get?

def resultPath : Option (LogRecord φ) → Parse Text
  | some result => ccFilePath result.attrs
  | none => .ok []

def rawResult : Option (LogRecord φ) → Payload φ
  | some result => .obj (ccScrub result.fields)
  | none => .null

variable (org : Text)

def claudeCodeDecisions (results : Dict Text (LogRecord φ)) (record : LogRecord φ) :
    Parse (List (DeveloperDecision φ)) :=
  let attrs := record.attrs
  if record.body = codePoints "claude_code.tool_decision" ∧
      oneOf (attr attrs "tool_name") ccEditTools ∧
      oneOf (attr attrs "decision") ["accept", "reject"] then
    let toolUseId := strOrNone (attr attrs "tool_use_id")
    match occurredAt (field record.fields "timeUnixNano"),
      (strOrNone (attr attrs "session.id")).or (strOrNone (attr record.resource "session.id")) with
    | some occurred, some sessionId => do
      let result := joined results toolUseId
      let filePath ← resultPath result
      let decision : DeveloperDecision φ :=
        { decisionId := none
          orgId := org
          sessionId := sessionId
          userId :=
            (idOrNone (attr record.resource "user.id")).or (idOrNone (attr attrs "user.id"))
          agentHarness := .claudeCode
          filePath := filePath
          accepted := isText (attr attrs "decision") "accept"
          explicit := oneOf (attr attrs "source") ccExplicitSources
          interactionMode := .agent
          commitSha := none
          callId := idOrNone (attr attrs "tool_use_id")
          editRetentionScore := none
          observationDelayMs := none
          occurredAt := occurred
          raw := [(codePoints "decision", .obj (ccScrub record.fields)),
            (codePoints "result", rawResult result)] }
      .ok decision.validate.toList
    | _, _ => .ok []
  else .ok []

end

section
variable {φ : Type}

/-- `_cx_scrub`: flattened attributes without the account identity. -/
def cxScrub (attrs : Attrs φ) : Payload φ :=
  .obj (attrs.entries.filter (fun (key, _) => !accountIdentityAttrs.contains key))

def fileMarkers : List Text :=
  ["*** Update File: ", "*** Add File: ", "*** Delete File: "].map codePoints

/-- The path that a marker line names. -/
def markedPath (line : Text) : Option Text :=
  (fileMarkers.find? (·.isPrefixOf line)).map (fun marker => strip (line.drop marker.length))

/-- The files of a V4A diff, each once, in the order of their markers. -/
def filesFromV4a : Payload φ → List Text
  | .str arguments =>
    ((Lines.breakLines id [] arguments).filterMap markedPath).foldl (fun paths path =>
      if path ≠ [] ∧ path ∉ paths then paths ++ [path] else paths) []
  | _ => []

/-- The command whose first line that is not blank applies a patch. -/
def patchCommand : Option (Payload φ) → Option Text
  | some (.obj parsed) => do
    let command ← asText (field parsed "cmd")
    let firstLine := (command.dropWhile isSpaceCode).takeWhile (· ≠ 10)
    if (codePoints "apply_patch <<").isPrefixOf firstLine then some command else none
  | _ => none

def v4aFromShellArguments [JsonDecoder φ] : Payload φ → Parse (Option Text)
  | .str arguments => (decoded (φ := φ) arguments).map patchCommand
  | _ => .ok none

end

section
variable {φ : Type} [PyFloat φ] [FloatOrder φ] [TextTables] [PyTime φ] [Interpreter]
  [JsonDecoder φ]

/-- A tool result under its call id. -/
def cxResult (record : LogRecord φ) : Option (Text × LogRecord φ) :=
  if isText (attr record.attrs "event.name") "codex.tool_result" then
    (strOrNone (attr record.attrs "call_id")).map (fun id => (id, record))
  else none

/-- The verdict of a decision; another one is not guessed. -/
def cxVerdict (decision : Payload φ) : Option Bool :=
  if oneOf decision ["approved", "approved_for_session"] then some true
  else if oneOf decision ["denied", "abort"] then some false
  else none

def resultArguments : Option (LogRecord φ) → Payload φ
  | some result => attr result.attrs "arguments"
  | none => .null

/-- The patch of a call, or `none` where the shell ran something else. -/
def patchOf (toolName : Payload φ) (result : Option (LogRecord φ)) : Parse (Option (Payload φ)) :=
  if isText toolName "exec_command" then
    (v4aFromShellArguments (resultArguments result)).map (fun command => command.map .str)
  else .ok (some (resultArguments result))

def cxRaw : Option (LogRecord φ) → Payload φ
  | some result => cxScrub result.attrs
  | none => .null

variable (org : Text)

/-- One decision for each file of the patch. -/
def codexFacts (record : LogRecord φ) (accepted : Bool) (result : Option (LogRecord φ))
    (patch : Payload φ) : List (DeveloperDecision φ) :=
  let attrs := record.attrs
  match (occurredAt (field record.fields "timeUnixNano")).or
      (occurredAt (field record.fields "observedTimeUnixNano")),
    (strOrNone (attr attrs "conversation.id")).or
      (strOrNone (attr record.resource "conversation.id")) with
  | some occurred, some sessionId =>
    let files := match filesFromV4a patch with
      | [] => [[]]
      | files => files
    files.filterMap (fun filePath =>
      let decision : DeveloperDecision φ :=
        { decisionId := none
          orgId := org
          sessionId := sessionId
          userId := idOrNone (attr record.resource "user.id")
          agentHarness := .codex
          filePath := filePath
          accepted := accepted
          explicit := (asText (attr attrs "source")).any (fun source =>
            TextTables.casefold source == codePoints "user")
          interactionMode := .agent
          commitSha := none
          callId := idOrNone (attr attrs "call_id")
          editRetentionScore := none
          observationDelayMs := none
          occurredAt := occurred
          raw := [(codePoints "decision", cxScrub attrs), (codePoints "result", cxRaw result)] }
      decision.validate)
  | _, _ => []

def codexDecisions (results : Dict Text (LogRecord φ)) (record : LogRecord φ) :
    Parse (List (DeveloperDecision φ)) :=
  let attrs := record.attrs
  if isText (attr attrs "event.name") "codex.tool_decision" ∧
      oneOf (attr attrs "tool_name") ["apply_patch", "exec_command"] then
    match cxVerdict (attr attrs "decision") with
    | none => .ok []
    | some accepted => do
      let result := joined results (strOrNone (attr attrs "call_id"))
      let patch ← patchOf (attr attrs "tool_name") result
      .ok (patch.toList.flatMap (codexFacts org record accepted result))
  else .ok []

end

section
variable {φ : Type} [PyFloat φ] [FloatOrder φ] [TextTables] [PyTime φ] [Interpreter] [Sha256]
variable (org : Text)

def isCursorWrite (attrs : Attrs φ) (fact : DeveloperDecision φ) : Bool :=
  decide (fact.agentHarness = .cursor) && isText (attr attrs "tool_name") "Write" &&
    fact.accepted && !fact.explicit && fact.callId.isSome

/-- The identity of a native Write, which does not depend on when it was received. -/
def cursorWriteId (fact : DeveloperDecision φ) : Text :=
  let identity : Json Text Empty := .arr [.str fact.orgId, .str (codePoints "cursor"),
    .str fact.sessionId, .str (fact.callId.getD []), .str fact.filePath, .bool fact.accepted,
    .bool fact.explicit, .str (codePoints "agent"), .str (codePoints "Write")]
  codePoints ("cursor-write-v1:" ++
    Sha256.hexdigest (identity.write ⟨quoteText, Empty.elim, id⟩))

/-- The agent's session id, of the record or of its resource. -/
def recordSession (record : LogRecord φ) : Option Text :=
  (strOrNone (attr record.attrs "session.id")).or (strOrNone (attr record.resource "session.id"))

def recordUser (record : LogRecord φ) : Option Text :=
  (idOrNone (attr record.resource "user.id")).or (idOrNone (attr record.attrs "user.id"))

/-- `_agent_harness`. -/
def recordHarness (record : LogRecord φ) : Option AgentHarness :=
  (strOrNone (attr record.attrs "agent")).bind agentHarness

def sedimentDecisions (record : LogRecord φ) : Parse (List (DeveloperDecision φ)) :=
  let attrs := record.attrs
  if record.body = codePoints "sediment.tool_decision" ∧
      oneOf (attr attrs "decision") ["accept", "reject"] then
    match attr attrs "explicit", recordHarness record,
      occurredAt (field record.fields "timeUnixNano"), recordSession record,
      strOrNone (attr attrs "tool_use_id") with
    | .bool explicit, some agentHarness, some occurred, some sessionId, some callId =>
      let decision : DeveloperDecision φ :=
        { decisionId := none
          orgId := org
          sessionId := sessionId
          userId := recordUser record
          agentHarness := agentHarness
          filePath := (strOrNone (attr attrs "file_path")).getD []
          accepted := isText (attr attrs "decision") "accept"
          explicit := explicit
          interactionMode := .agent
          commitSha := none
          callId := idOrNone (.str callId : Payload φ)
          editRetentionScore := none
          observationDelayMs := none
          occurredAt := occurred
          raw := [(codePoints "decision", .obj attrs.entries)] }
      .ok (decision.validate.map (fun fact =>
        if isCursorWrite attrs fact then { fact with decisionId := some (cursorWriteId fact) }
        else fact)).toList
    | _, _, _, _, _ => .ok []
  else .ok []

/-- `len(text.encode("utf-8", "replace"))`: a surrogate is replaced by one byte. -/
def utf8Length (text : Text) : Nat :=
  (text.map (fun c =>
    if c < 0x80 then 1 else if c < 0x800 then 2 else if isSurrogate c then 1
    else if c < 0x10000 then 3 else 4)).sum

def maxTextBytes : Nat := 256 * 1024

/-- `_sediment_identity`: the event time, the session, the call and the path. -/
def sedimentIdentity (record : LogRecord φ) : Option (Datetime × Text × Text × Text) := do
  let occurred ← occurredAt (field record.fields "timeUnixNano")
  let sessionId ← recordSession record
  let callId ← strOrNone (attr record.attrs "tool_use_id")
  let filePath ← strOrNone (attr record.attrs "file_path")
  some (occurred, sessionId, callId, filePath)

def toolNameRaw (attrs : Attrs φ) : Fields φ := [(codePoints "tool_name", attr attrs "tool_name")]

def editObservations (record : LogRecord φ) : Parse (List (EditObservation φ)) :=
  let attrs := record.attrs
  if record.body = codePoints "sediment.edit_observation" then
    match sedimentIdentity record, attr attrs "applied_text", attr attrs "observed_file_text",
      recordHarness record with
    | some (occurred, sessionId, callId, filePath), .str appliedText, .str observedFileText,
      some agentHarness =>
      if maxTextBytes < utf8Length appliedText ∨ maxTextBytes < utf8Length observedFileText then
        .ok []
      else
        let observation : EditObservation φ :=
          { orgId := org
            sessionId := sessionId
            userId := recordUser record
            agentHarness := agentHarness
            filePath := filePath
            callId := callId
            appliedText := appliedText
            observedFileText := observedFileText
            externalLinesAdded := countOrNone (attr attrs "external_lines_added")
            externalLinesRemoved := countOrNone (attr attrs "external_lines_removed")
            occurredAt := occurred
            raw := toolNameRaw attrs }
        .ok observation.validate.toList
    | _, _, _, _ => .ok []
  else .ok []

def rejectedEdits (record : LogRecord φ) : Parse (List (RejectedEdit φ)) :=
  let attrs := record.attrs
  if record.body = codePoints "sediment.rejected_edit" then
    match sedimentIdentity record, attr attrs "proposed", recordHarness record with
    | some (occurred, sessionId, callId, filePath), .str proposed, some agentHarness =>
      if maxTextBytes < utf8Length proposed then .ok []
      else
        let edit : RejectedEdit φ :=
          { orgId := org
            sessionId := sessionId
            userId := recordUser record
            agentHarness := agentHarness
            filePath := filePath
            callId := callId
            proposed := proposed
            occurredAt := occurred
            raw := toolNameRaw attrs }
        .ok edit.validate.toList
    | _, _, _ => .ok []
  else .ok []

end

inductive RetryLinkageSkipReason where
  | malformedAttributes | missingSession | missingAgentHarness | invalidAgentHarness
  | missingFilePath | missingToolName | invalidToolName | missingRejectedCallId
  | missingAcceptedCallId | missingEventTime | invalidFact
  deriving DecidableEq, Repr

section
variable {φ : Type} [PyFloat φ] [TextTables] [PyTime φ] [Interpreter]
variable (org : Text)

def orSkip {α : Type} (reason : RetryLinkageSkipReason) :
    Option α → Except RetryLinkageSkipReason α
  | some a => .ok a
  | none => .error reason

/-- The tools whose edits a retry links. -/
def retryTool (toolName : Text) : Option RetryTool :=
  if toolName = codePoints "Edit" then some .edit
  else if toolName = codePoints "Write" then some .write
  else none

/-- A retry-linkage record, or the reason why it is skipped. -/
def retryLinkage (record : LogRecord φ) : Except RetryLinkageSkipReason RetryLinkage :=
  match field record.fields "attributes" with
  | .arr _ => do
    let attrs := record.attrs
    let sessionId ← orSkip .missingSession
      ((idOrNone (attr attrs "session.id")).or (idOrNone (attr record.resource "session.id")))
    let agent ← orSkip .missingAgentHarness (strOrNone (attr attrs "agent"))
    let filePath ← orSkip .missingFilePath (strOrNone (attr attrs "file_path"))
    let toolName ← orSkip .missingToolName (strOrNone (attr attrs "tool_name"))
    let rejectedCallId ← orSkip .missingRejectedCallId (idOrNone (attr attrs "rejected_call_id"))
    let acceptedCallId ← orSkip .missingAcceptedCallId (idOrNone (attr attrs "accepted_call_id"))
    let occurred ← orSkip .missingEventTime (occurredAt (field record.fields "timeUnixNano"))
    let agentHarness ← orSkip .invalidAgentHarness (agentHarness agent)
    let toolName ← orSkip .invalidToolName (retryTool toolName)
    let linkage : RetryLinkage :=
      { orgId := org
        sessionId := sessionId
        userId := (idOrNone (attr record.resource "user.id")).or (idOrNone (attr attrs "user.id"))
        agentHarness := agentHarness
        filePath := filePath
        toolName := toolName
        rejectedCallId := rejectedCallId
        acceptedCallId := acceptedCallId
        occurredAt := occurred }
    orSkip .invalidFact linkage.validate
  | _ => .error .malformedAttributes

def isRetryRecord (record : LogRecord φ) : Bool :=
  record.body == codePoints "sediment.retry_linkage"

def retryLinkages (record : LogRecord φ) : Parse (List RetryLinkage) :=
  if isRetryRecord record then .ok (retryLinkage org record).toOption.toList else .ok []

/-- The reasons of the skipped records, as often as the `Counter` counts them. -/
def retrySkips (records : List (LogRecord φ)) : List RetryLinkageSkipReason :=
  (records.filter isRetryRecord).filterMap (fun record =>
    match retryLinkage org record with
    | .ok _ => none
    | .error reason => some reason)

end

/-- What the translators make of the records: each Fact with the position it marks. -/
structure Translation (φ : Type) where
  decisions : List (Nat × DeveloperDecision φ)
  editObservations : List (Nat × EditObservation φ)
  rejectedEdits : List (Nat × RejectedEdit φ)
  retryLinkages : List (Nat × RetryLinkage)

/-- The set of positions that the translators mark. -/
def Translation.marked {φ : Type} (t : Translation φ) : Finset Nat :=
  (t.decisions.map Prod.fst ++ t.editObservations.map Prod.fst ++
    t.rejectedEdits.map Prod.fst ++ t.retryLinkages.map Prod.fst).toFinset

structure OTLPCaptureResult (φ : Type) where
  decisions : List (DeveloperDecision φ)
  editObservations : List (EditObservation φ)
  rejectedEdits : List (RejectedEdit φ)
  retryLinkages : List RetryLinkage
  retryLinkageSkips : List RetryLinkageSkipReason
  recordsReceived : Nat
  recordsTranslated : Nat
  recordsUntranslated : Int
  recordsMalformed : Nat
  malformedContainers : Nat

section
variable {φ : Type} [PyFloat φ] [FloatOrder φ] [TextTables] [PyTime φ] [Interpreter]
  [JsonDecoder φ] [Sha256] [StrDepth]
variable (org : Text)

/-- `parse_otlp_decisions`: the translators one after the other, over all records. -/
def parseOtlpDecisions (records : List (LogRecord φ)) :
    Parse (List (Nat × DeveloperDecision φ)) := do
  let copilot ← emitFrom (copilotDecisions org) 0 records
  let claudeCode ← emitFrom (claudeCodeDecisions org (tableOf ccResult records)) 0 records
  let codex ← emitFrom (codexDecisions org (tableOf cxResult records)) 0 records
  let sediment ← emitFrom (sedimentDecisions org) 0 records
  .ok (copilot ++ claudeCode ++ codex ++ sediment)

def translate (records : List (LogRecord φ)) : Parse (Translation φ) := do
  let decisions ← parseOtlpDecisions org records
  let editObservations ← emitFrom (editObservations org) 0 records
  let rejectedEdits ← emitFrom (rejectedEdits org) 0 records
  let retryLinkages ← emitFrom (retryLinkages org) 0 records
  .ok { decisions, editObservations, rejectedEdits, retryLinkages }

/-- `parse_otlp_logs`. -/
def parseOtlpLogs (payload : Fields φ) : Parse (OTLPCaptureResult φ) := do
  let records := iterRecords payload
  let malformed := ((walkPayload payload).entries.filter (fun e => (asRecord e).isNone)).length
  let translation ← translate org records
  let translated := translation.marked.card
  .ok
    { decisions := translation.decisions.map Prod.snd
      editObservations := translation.editObservations.map Prod.snd
      rejectedEdits := translation.rejectedEdits.map Prod.snd
      retryLinkages := translation.retryLinkages.map Prod.snd
      retryLinkageSkips := retrySkips org records
      recordsReceived := records.length + malformed
      recordsTranslated := translated
      recordsUntranslated := records.length - translated
      recordsMalformed := malformed
      malformedContainers := (walkPayload payload).malformedContainers }

end

end Sediment.Capture.Otlp
