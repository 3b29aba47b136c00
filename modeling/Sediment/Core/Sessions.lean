import Sediment.Base.Dict
import Sediment.Base.Ordering

namespace Sediment.Core
open Sediment.Base

abbrev SessionKey := String × String

/-- What the Session row reads of a stored Fact. -/
structure SessionFact where
  orgId : String
  sessionId : String
  userId : Option String
  capturedAt : Int

def SessionFact.key (fact : SessionFact) : SessionKey := (fact.orgId, fact.sessionId)

/-- A row of `sessions` under its key. -/
structure SessionRow where
  userId : Option String
  userIdConflict : Bool
  firstObservedAt : Int
  lastObservedAt : Int
  deriving DecidableEq, Repr

abbrev SessionTable := Dict SessionKey SessionRow

structure SessionGroup where
  firstObservedAt : Int
  lastObservedAt : Int
  users : Finset String

def SessionGroup.add (group : SessionGroup) (decision : SessionFact) : SessionGroup where
  firstObservedAt := min group.firstObservedAt decision.capturedAt
  lastObservedAt := max group.lastObservedAt decision.capturedAt
  users := match decision.userId with
    | some user => insert user group.users
    | none => group.users

def groupSession (grouped : Dict SessionKey SessionGroup) (decision : SessionFact) :
    Dict SessionKey SessionGroup :=
  grouped.alter decision.key (fun group =>
    (group.getD ⟨decision.capturedAt, decision.capturedAt, ∅⟩).add decision)

def SessionGroup.row (group : SessionGroup) : SessionRow where
  userId := if group.users.card = 1 then onlyMember group.users else none
  userIdConflict := decide (1 < group.users.card)
  firstObservedAt := group.firstObservedAt
  lastObservedAt := group.lastObservedAt

def sessionMetadata (decisions : List SessionFact) : List (SessionKey × SessionRow) :=
  let grouped := decisions.foldl groupSession Dict.empty
  (sortedBy (fun p => toLex p.1) grouped.entries).map (fun p => (p.1, p.2.row))

def userConflict (row excluded : SessionRow) : Bool :=
  match row.userId, excluded.userId with
  | some a, some b => decide (a ≠ b)
  | _, _ => false

/-- The update of `on_conflict_do_update`. -/
def conflictUpdate (row excluded : SessionRow) : SessionRow where
  firstObservedAt := min row.firstObservedAt excluded.firstObservedAt
  lastObservedAt := max row.lastObservedAt excluded.lastObservedAt
  userId :=
    if row.userIdConflict then none
    else if excluded.userIdConflict then none
    else if userConflict row excluded then none
    else row.userId.or excluded.userId
  userIdConflict :=
    if row.userIdConflict then true
    else if excluded.userIdConflict then true
    else userConflict row excluded

def sessionUpsertValues (table : SessionTable) (values : SessionKey × SessionRow) : SessionTable :=
  table.alter values.1 (fun row => row.elim values.2 (conflictUpdate · values.2))

/-- `_session_upsert`: the values of one Fact that is no decision. -/
def sessionUpsert (table : SessionTable) (fact : SessionFact) : SessionTable :=
  sessionUpsertValues table
    (fact.key, ⟨fact.userId, false, fact.capturedAt, fact.capturedAt⟩)

def storeSessionBatch (table : SessionTable) (decisions : List SessionFact) : SessionTable :=
  (sessionMetadata decisions).foldl sessionUpsertValues table

end Sediment.Core
