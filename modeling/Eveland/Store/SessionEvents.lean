/-
# Session events under concurrent transactions

Appends number an event by the events its session has, and a merge gives the events of one session
to another one behind those it has. Both run statement by statement under READ COMMITTED: a
statement sees what was committed when it began and what its own transaction wrote.

A row keeps the place that is committed and the one a running transaction has written. A statement
that meets the lock of another transaction, or a place that another transaction has written, waits:
it has no step until the other has ended. A statement that fails has no step either, and its
transaction can only be rolled back, which may happen at any time. An update that waits for rows
takes effect at once when it ends, on the rows it found when it began.
-/

import Mathlib.Logic.Function.Basic
import Eveland.Foundations.Machine
import Eveland.Foundations.RowLocks

namespace Eveland.SessionEvents

/-! ## Rows -/

/-- The number of a transaction. -/
abbrev TxId := ℕ

/-- The columns `session_id` and `index`, which have a unique index together. -/
structure Place where
  sessionId : String
  index : ℕ
  deriving DecidableEq, Repr

/-- A row of `session_events`. -/
structure Event where
  id : String
  /-- `none` while the insert is not committed. -/
  committed : Option Place
  /-- What a running transaction has written. -/
  written : Option (TxId × Place)
  deriving DecidableEq, Repr

/-- The transaction that has written the row. -/
def Event.writer (e : Event) : Option TxId := e.written.map Prod.fst

/-- The place a transaction sees the row at. -/
def Event.placeFor (t : TxId) (e : Event) : Option Place :=
  match e.written with
  | some (writer, place) => if writer = t then some place else e.committed
  | none => e.committed

/-- The index a transaction sees the row at, where it is one of the session. -/
def Event.indexIn (t : TxId) (sessionId : String) (e : Event) : Option ℕ :=
  (e.placeFor t).bind fun place => if place.sessionId = sessionId then some place.index else none

/-- Whether the unique index keeps another row of transaction `t` from a place: the place was
written, or is committed and not left by `t` itself. -/
def Event.occupies (t : TxId) (place : Place) (e : Event) : Bool :=
  e.written.map Prod.snd = some place || (e.committed = some place && e.writer ≠ some t)

/-- A row of `sessions`. No identifier is drawn twice. -/
inductive SessionStatus
  | unused
  /-- Inserted by a transaction that has not ended. -/
  | created (t : TxId)
  | live
  | gone
  deriving DecidableEq, Repr

/-! ## Transactions -/

/-- The statements a transaction has behind it in the call it is in. -/
inductive Stage
  | idle
  /-- `appendSessionEventRow` has locked the row of the session. -/
  | locked (sessionId eventId : String)
  /-- `appendSessionEventRow` has read the next index. -/
  | numbered (sessionId eventId : String) (next : ℕ)
  /-- `moveSessionEventsForMerge` has read the offset. -/
  | measured (fromSessionId toSessionId : String) (offset : ℕ) (absorbs : Bool)
  /-- The update of `moveSessionEventsForMerge` has found these rows. -/
  | updating (fromSessionId toSessionId : String) (offset : ℕ) (absorbs : Bool)
      (ids : List String)
  /-- `mergeSessionRows` has moved the events and is to delete the absorbed session. -/
  | moved (absorbedId : String)
  | ended
  deriving DecidableEq, Repr

structure Tx where
  stage : Stage
  /-- Rows of `sessions` locked `for update`. -/
  locks : List String
  /-- Rows of `sessions` that a foreign key of this transaction refers to. -/
  keyShares : List String
  deleting : List String
  deriving DecidableEq, Repr

def Tx.begun : Tx := { stage := .idle, locks := [], keyShares := [], deleting := [] }

def Tx.over : Tx := { stage := .ended, locks := [], keyShares := [], deleting := [] }

/-- A lock that a foreign key has to wait for. -/
def Tx.holdsExclusive (sessionId : String) (tx : Tx) : Bool :=
  tx.locks.contains sessionId || tx.deleting.contains sessionId

/-- A lock that `for update` and a deletion have to wait for. -/
def Tx.holds (sessionId : String) (tx : Tx) : Bool :=
  tx.holdsExclusive sessionId || tx.keyShares.contains sessionId

structure State where
  events : List Event
  sessions : String → SessionStatus
  txs : List Tx

namespace State

variable (s : State)

/-- Whether a transaction other than `t` has the property. -/
def others (t : TxId) (p : Tx → Bool) : Bool :=
  (List.range s.txs.length).any fun j => j ≠ t && s.txs[j]?.any p

/-- Whether transaction `t` finds the session. -/
def finds (t : TxId) (tx : Tx) (sessionId : String) : Bool :=
  (s.sessions sessionId = .live || s.sessions sessionId = .created t) &&
    !tx.deleting.contains sessionId

/-- `coalesce(max(index) + 1, 0)`. -/
def nextIndex (t : TxId) (sessionId : String) : ℕ :=
  ((s.events.filterMap (Event.indexIn t sessionId)).map (· + 1)).foldl max 0

/-- Whether the unique index keeps transaction `t` from a place. -/
def isOccupied (t : TxId) (place : Place) : Bool := s.events.any (Event.occupies t place)

def setTx (t : TxId) (tx : Tx) : State := { s with txs := s.txs.set t tx }

/-- The check of the foreign key on `session_id`. -/
def mayRefer (t : TxId) (tx : Tx) (sessionId : String) : Bool :=
  s.finds t tx sessionId && !s.others t (Tx.holdsExclusive sessionId)

/-! ## Statements -/

/-- The insert of a session. -/
def createSession (t : TxId) (sessionId : String) : Option State :=
  if s.sessions sessionId = .unused then
    some { s with sessions := Function.update s.sessions sessionId (.created t) }
  else none

/-- `select ... for update` of `appendSessionEventRow`. A session that is not found is not missed
here. -/
def lockSession (t : TxId) (tx : Tx) (sessionId eventId : String) : Option State :=
  if s.finds t tx sessionId then
    if s.others t (Tx.holds sessionId) then none
    else some (s.setTx t { tx with
      stage := .locked sessionId eventId, locks := sessionId :: tx.locks })
  else some (s.setTx t { tx with stage := .locked sessionId eventId })

/-- The insert of `appendSessionEventRow`. -/
def insertEvent (t : TxId) (tx : Tx) (sessionId eventId : String) (next : ℕ) : Option State :=
  if s.mayRefer t tx sessionId ∧ s.isOccupied t ⟨sessionId, next⟩ = false ∧
      s.events.all (fun e => e.id ≠ eventId) then
    some { s.setTx t { tx with stage := .idle, keyShares := sessionId :: tx.keyShares } with
      events := s.events ++ [⟨eventId, none, some (t, ⟨sessionId, next⟩)⟩] }
  else none

/-- The rows the update of `moveSessionEventsForMerge` finds. -/
def eventIds (t : TxId) (fromSessionId : String) : List String :=
  (s.events.filter fun e => (e.indexIn t fromSessionId).isSome).map Event.id

/-- Whether the update moves a row: it was found, and it is still where it was found. -/
def moves (t : TxId) (fromSessionId : String) (ids : List String) (e : Event) : Bool :=
  ids.contains e.id && (e.indexIn t fromSessionId).isSome

/-- A row that is moved. -/
def moveEvent (t : TxId) (fromSessionId toSessionId : String) (offset : ℕ) (e : Event) : Event :=
  { e with written :=
      (e.indexIn t fromSessionId).map fun index => (t, ⟨toSessionId, index + offset⟩) }

/-- Whether the update can give a row its new place. -/
def mayMove (t : TxId) (fromSessionId toSessionId : String) (offset : ℕ) (e : Event) : Bool :=
  e.writer.all (· = t) &&
    (e.indexIn t fromSessionId).all fun index => !s.isOccupied t ⟨toSessionId, index + offset⟩

/-- The update of `moveSessionEventsForMerge`. -/
def moveSessionEvents (t : TxId) (tx : Tx) (fromSessionId toSessionId : String) (offset : ℕ)
    (absorbs : Bool) (ids : List String) : Option State :=
  let found := s.events.filter (moves t fromSessionId ids)
  let stage := if absorbs then .moved fromSessionId else .idle
  if found = [] then some (s.setTx t { tx with stage := stage })
  else if s.mayRefer t tx toSessionId ∧
      found.all (s.mayMove t fromSessionId toSessionId offset) then
    some { s.setTx t { tx with stage := stage, keyShares := toSessionId :: tx.keyShares } with
      events := s.events.map fun e =>
        if moves t fromSessionId ids e then moveEvent t fromSessionId toSessionId offset e else e }
  else none

/-- The deletion at the end of `mergeSessionRows`. No event may refer to the session. -/
def deleteSession (t : TxId) (tx : Tx) (absorbedId : String) : Option State :=
  if s.finds t tx absorbedId then
    if s.others t (Tx.holds absorbedId) = false ∧
        s.events.all (fun e => (e.indexIn t absorbedId).isNone) then
      some (s.setTx t { tx with stage := .idle, deleting := absorbedId :: tx.deleting })
    else none
  else some (s.setTx t { tx with stage := .idle })

/-- What a commit makes of a row. -/
def commitEvent (t : TxId) (e : Event) : Event :=
  match e.written with
  | some (writer, place) => if writer = t then { e with committed := some place, written := none }
      else e
  | none => e

def commitStatus (t : TxId) (tx : Tx) (sessionId : String) : SessionStatus :=
  if tx.deleting.contains sessionId then .gone
  else if s.sessions sessionId = .created t then .live
  else s.sessions sessionId

def commit (t : TxId) (tx : Tx) : State :=
  { events := s.events.map (commitEvent t)
    sessions := s.commitStatus t tx
    txs := s.txs.set t Tx.over }

/-- What a rollback makes of a row. -/
def rollbackEvent (t : TxId) (e : Event) : Option Event :=
  if e.writer = some t then
    if e.committed.isSome then some { e with written := none } else none
  else some e

def rollback (t : TxId) : State :=
  { events := s.events.filterMap (rollbackEvent t)
    sessions := fun sessionId =>
      if s.sessions sessionId = .created t then .gone else s.sessions sessionId
    txs := s.txs.set t Tx.over }

end State

/-! ## The system -/

inductive Action
  | begin
  | createSession (t : TxId) (sessionId : String)
  /-- `appendSessionEventRow` is called. -/
  | append (t : TxId) (sessionId eventId : String)
  /-- `mergeSessionRows` is called. -/
  | merge (t : TxId) (absorbedId survivingId : String)
  /-- `moveSessionEventsForMerge` is called for a root session that is gone. -/
  | moveOrphans (t : TxId) (fromSessionId toSessionId : String)
  /-- The next statement of the call a transaction is in. -/
  | proceed (t : TxId)
  | commit (t : TxId)
  | rollback (t : TxId)
  deriving DecidableEq, Repr

open State

/-- The next statement of a call. -/
def proceed (s : State) (t : TxId) (tx : Tx) : Option State :=
  match tx.stage with
  | .idle => none
  | .locked sessionId eventId =>
      some (s.setTx t { tx with stage := .numbered sessionId eventId (s.nextIndex t sessionId) })
  | .numbered sessionId eventId next => s.insertEvent t tx sessionId eventId next
  | .measured fromSessionId toSessionId offset absorbs =>
      some (s.setTx t { tx with
        stage := .updating fromSessionId toSessionId offset absorbs (s.eventIds t fromSessionId) })
  | .updating fromSessionId toSessionId offset absorbs ids =>
      s.moveSessionEvents t tx fromSessionId toSessionId offset absorbs ids
  | .moved absorbedId => s.deleteSession t tx absorbedId
  | .ended => none

/-- One statement, or the beginning or the end of a transaction. -/
def step (s : State) : Action → Option State
  | .begin => some { s with txs := s.txs ++ [Tx.begun] }
  | .createSession t sessionId =>
      s.txs[t]?.bind fun tx =>
        if tx.stage = .idle then s.createSession t sessionId else none
  | .append t sessionId eventId =>
      s.txs[t]?.bind fun tx =>
        if tx.stage = .idle then s.lockSession t tx sessionId eventId else none
  | .merge t absorbedId survivingId =>
      s.txs[t]?.bind fun tx =>
        if tx.stage = .idle ∧ absorbedId ≠ survivingId then
          some (s.setTx t { tx with
            stage := .measured absorbedId survivingId (s.nextIndex t survivingId) true })
        else none
  | .moveOrphans t fromSessionId toSessionId =>
      s.txs[t]?.bind fun tx =>
        if tx.stage = .idle ∧ fromSessionId ≠ toSessionId ∧
            (s.sessions fromSessionId = .gone ∨ tx.deleting.contains fromSessionId) then
          some (s.setTx t { tx with
            stage := .measured fromSessionId toSessionId (s.nextIndex t toSessionId) false })
        else none
  | .proceed t => s.txs[t]?.bind fun tx => proceed s t tx
  | .commit t =>
      s.txs[t]?.bind fun tx => if tx.stage = .idle then some (s.commit t tx) else none
  | .rollback t =>
      s.txs[t]?.bind fun tx => if tx.stage = .ended then none else some (s.rollback t)

/-- The system before its first transaction. -/
def machine : Machine State Action where
  init s := s = { events := [], sessions := fun _ => .unused, txs := [] }
  step := step

end Eveland.SessionEvents
