import Sediment.Core.Datetime
import Sediment.Core.Models
import Sediment.Core.Sessions

namespace Sediment.Core
open Sediment.Base

inductive AgentHarness where
  | claudeCode | copilot | codex | cursor | pi
  deriving DecidableEq, Repr

inductive InteractionMode where
  | agent | inline
  deriving DecidableEq, Repr

/-- A developer's accept or reject of a generated change. `raw` is its
serialized text, and the score is the number that the double denotes. -/
structure DeveloperDecision where
  decisionId : String
  orgId : String
  sessionId : String
  userId : Option String
  agentHarness : AgentHarness
  filePath : String
  accepted : Bool
  explicit : Bool
  interactionMode : InteractionMode
  commitSha : Option String
  callId : Option String
  editRetentionScore : Option ℚ
  observationDelayMs : Option Nat
  occurredAt : AwareDatetime
  capturedAt : AwareDatetime
  raw : String
  deriving DecidableEq

/-- The columns a statement returns: all but `raw`. A time column holds an instant. -/
structure DecisionColumns where
  decisionId : String
  orgId : String
  sessionId : String
  userId : Option String
  agentHarness : AgentHarness
  filePath : String
  accepted : Bool
  explicit : Bool
  interactionMode : InteractionMode
  commitSha : Option String
  callId : Option String
  editRetentionScore : Option ℚ
  observationDelayMs : Option Nat
  occurredAt : Int
  capturedAt : Int
  deriving DecidableEq

structure DecisionRow where
  columns : DecisionColumns
  raw : String
  deriving DecidableEq

def decisionValues (decision : DeveloperDecision) : DecisionRow where
  columns :=
    { decisionId := decision.decisionId
      orgId := decision.orgId
      sessionId := decision.sessionId
      userId := decision.userId
      agentHarness := decision.agentHarness
      filePath := decision.filePath
      accepted := decision.accepted
      explicit := decision.explicit
      interactionMode := decision.interactionMode
      commitSha := decision.commitSha
      callId := decision.callId
      editRetentionScore := decision.editRetentionScore
      observationDelayMs := decision.observationDelayMs
      occurredAt := decision.occurredAt.utc
      capturedAt := decision.capturedAt.utc }
  raw := decision.raw

/-- An instant that has a date in UTC. -/
def hasDate (instant : Int) : Bool := decide (wallMin ≤ instant) && decide (instant ≤ wallMax)

/-- `value.astimezone(UTC)` of a time column; `none` stands for `OverflowError`. -/
def astimezone (instant : Int) : Option Int := if hasDate instant then some instant else none

def decisionRowKey (values : DecisionRow) : Option DecisionColumns := do
  let occurredAt ← astimezone values.columns.occurredAt
  let capturedAt ← astimezone values.columns.capturedAt
  some { values.columns with occurredAt, capturedAt }

def DeveloperDecision.sessionFact (decision : DeveloperDecision) : Option SessionFact :=
  (astimezone decision.capturedAt.utc).map
    (SessionFact.mk decision.orgId decision.sessionId decision.userId)

/-- The columns of `uq_decisions_keyed`. -/
structure KeyedIndex where
  orgId : String
  agentHarness : AgentHarness
  sessionId : String
  accepted : Bool
  explicit : Bool
  interactionMode : InteractionMode
  occurredAt : Int
  callId : Option String
  deriving DecidableEq

/-- The columns of `uq_decisions_natural`. -/
structure NaturalIndex where
  orgId : String
  agentHarness : AgentHarness
  sessionId : String
  filePath : String
  accepted : Bool
  explicit : Bool
  interactionMode : InteractionMode
  occurredAt : Int
  callId : String
  observationDelayMs : Int
  deriving DecidableEq

namespace DecisionColumns

/-- Whether the partial index holds the row. -/
def isKeyed (c : DecisionColumns) : Bool :=
  c.callId.isSome && decide (c.agentHarness = .claudeCode)

def keyedIndex (c : DecisionColumns) : KeyedIndex :=
  ⟨c.orgId, c.agentHarness, c.sessionId, c.accepted, c.explicit, c.interactionMode, c.occurredAt,
    c.callId⟩

def isNatural (c : DecisionColumns) : Bool :=
  c.callId.isNone || decide (c.agentHarness ≠ .claudeCode)

def naturalIndex (c : DecisionColumns) : NaturalIndex :=
  ⟨c.orgId, c.agentHarness, c.sessionId, c.filePath, c.accepted, c.explicit, c.interactionMode,
    c.occurredAt, c.callId.getD "", (c.observationDelayMs.map (fun n => (n : Int))).getD (-1)⟩

def conflicts (a b : DecisionColumns) : Bool :=
  decide (a.decisionId = b.decisionId) ||
    (a.isKeyed && b.isKeyed && decide (a.keyedIndex = b.keyedIndex)) ||
    (a.isNatural && b.isNatural && decide (a.naturalIndex = b.naturalIndex))

end DecisionColumns

abbrev DecisionTable := List DecisionRow

def blocked (table : DecisionTable) (values : DecisionRow) : Bool :=
  table.any (fun row => row.columns.conflicts values.columns)

/-- `INSERT … ON CONFLICT DO NOTHING RETURNING`: the rows are taken in order,
and a row conflicts with those that the same statement inserted before it. -/
def insertRows : DecisionTable → List DecisionRow → DecisionTable × List DecisionRow
  | table, [] => (table, [])
  | table, values :: rest =>
    if blocked table values then insertRows table rest
    else
      let (table, returned) := insertRows (table ++ [values]) rest
      (table, values :: returned)

/-- Which values of a chunk were stored, told from the counted rows it returned. -/
def chunkStored : Multiset DecisionColumns → List DecisionRow → Option (List Bool)
  | _, [] => some []
  | returned, values :: rest => do
    let key ← decisionRowKey values
    let later ← chunkStored (if key ∈ returned then returned.erase key else returned) rest
    some (decide (key ∈ returned) :: later)

def insertChunk (table : DecisionTable) (chunk : List DecisionRow) :
    Option (DecisionTable × List Bool) := do
  let (table, returned) := insertRows table chunk
  let returned ← returned.mapM decisionRowKey
  let stored ← chunkStored returned chunk
  some (table, stored)

def insertChunks : DecisionTable → List (List DecisionRow) → Option (DecisionTable × List Bool)
  | table, [] => some (table, [])
  | table, chunk :: rest => do
    let (table, stored) ← insertChunk table chunk
    let (table, later) ← insertChunks table rest
    some (table, stored ++ later)

/-- `input_values[offset : offset + n]` for each offset. -/
def chunksOf (n : Nat) (values : List DecisionRow) : List (List DecisionRow) :=
  (List.range ((values.length + n - 1) / n)).map (fun i => (values.drop (i * n)).take n)

/-- The number of columns that one row binds. -/
def decisionColumnCount : Nat := 16

def rowsPerStatement : Nat := 60000 / decisionColumnCount

structure DecisionStore where
  decisions : DecisionTable
  sessions : SessionTable

/-- `with engine.begin()`: an exception, `none`, rolls everything back. -/
def transaction {α : Type} (store : DecisionStore) (work : Option (DecisionStore × α)) :
    DecisionStore × Option α :=
  match work with
  | some (store, a) => (store, some a)
  | none => (store, none)

section
variable (redactFact : DeveloperDecision → Option DeveloperDecision)

/-- The decisions of which the flags say that they were stored. -/
def storedFacts (redacted : List DeveloperDecision) (stored : List Bool) :
    Option (List SessionFact) :=
  ((redacted.zip stored).filter Prod.snd).mapM (fun p => p.1.sessionFact)

def storeInChunks (chunks : List DecisionRow → List (List DecisionRow)) (store : DecisionStore)
    (decisions : List DeveloperDecision) : DecisionStore × Option (List Bool) :=
  if decisions = [] then (store, some [])
  else
    transaction store (do
      let redacted ← decisions.mapM redactFact
      let (table, stored) ← insertChunks store.decisions (chunks (redacted.map decisionValues))
      let facts ← storedFacts redacted stored
      some (⟨table, storeSessionBatch store.sessions facts⟩, stored))

/-- One transaction for the whole list. `redactFact` is redaction and serialization of one
decision, where `none` stands for the `RecursionError` of a payload that nests too deep. -/
def storeDecisions (store : DecisionStore) (decisions : List DeveloperDecision) :
    DecisionStore × Option (List Bool) :=
  storeInChunks redactFact (chunksOf rowsPerStatement) store decisions

def storeDecision (store : DecisionStore) (decision : DeveloperDecision) :
    DecisionStore × Option Bool :=
  let (store, stored) := storeDecisions redactFact store [decision]
  (store, stored.bind List.head?)

/-- The decisions one after another, each in its own transaction, up to one that raises. -/
def storeEach : DecisionStore → List DeveloperDecision → DecisionStore × Option (List Bool)
  | store, [] => (store, some [])
  | store, decision :: rest =>
    match storeDecision redactFact store decision with
    | (store, none) => (store, none)
    | (store, some flag) =>
      let (store, flags) := storeEach store rest
      (store, flags.map (flag :: ·))

end

end Sediment.Core
