/-
# The stream of a Playground session

The Playground reads the event stream of an Eve session through a monitor, which passes the bytes
on and writes the status each line leaves the session in. The same events reach the store a second
time as telemetry, in stream order. Either may be ahead of the other.

A line is a commit, which holds the facts of one transition, or a record without facts. The writes
of the monitor set the status unconditionally; ingestion moves it as far as an observation is the
newest of its node. What ingestion alone would have made of the store is kept beside it.
-/

import Eveland.Core.EveRequests
import Eveland.Foundations.LineReader
import Eveland.Foundations.Machine
import Eveland.Telemetry.RootEvents

namespace Eveland.PlaygroundStream

open Telemetry

/-! ## Lines -/

/-- A Playground session that is streamed: its row, the Eve session it shows, and `JSON.parse`. -/
structure Playground where
  projectId : String
  sessionId : String
  eveSessionId : String
  parse : String → Option Json

/-- `parseEveJsonObject`. -/
def parseEveJsonObject (parse : String → Option Json) (text : List Char) : Option Json :=
  (parse (String.ofList text)).bind Json.record

/-- The facts of a line that is a commit, as far as they are records. -/
def lineFacts (parse : String → Option Json) (line : List Char) : List Json :=
  let text := JsString.trim line
  if text.isEmpty then []
  else
    match (parseEveJsonObject parse text).bind (Json.field "facts") with
    | some (.arr facts) => facts.filter fun fact => fact.record.isSome
    | _ => []

/-- The data of an event. Where there is none, what is read of it is nothing. -/
def eventData (event : Json) : Json := (event.field "data").getD .null

/-- The status an event moves a session to, if it has a type. -/
def eventStatus (status : SessionStatus) (event : Json) : Option SessionStatus :=
  ((getEveString (some event) "type").filter fun type => type ≠ "").bind fun type =>
    sessionStatusFromEveEvent type status (eventData event)

/-- What the events of a line come to, one after another: the status, whether any moved it, and
the last one that failed the session. -/
structure Projection where
  status : SessionStatus
  projected : Bool
  failure : Option Json

/-- One event of a line. -/
def Projection.next (p : Projection) (event : Json) : Projection :=
  match eventStatus p.status event with
  | none => p
  | some status =>
      { status
        projected := true
        failure := if status = .failed then some event else p.failure }

/-- `projectPlaygroundStreamLine`: the status after a line, and the write it makes. -/
def projectPlaygroundStreamLine (parse : String → Option Json) (line : List Char)
    (currentStatus : SessionStatus) (eveSessionId : String) :
    SessionStatus × Option CompleteSessionInput :=
  let projection := (lineFacts parse line).foldl Projection.next ⟨currentStatus, false, none⟩
  if projection.projected then
    (projection.status,
      some
        { status := projection.status
          eveSessionId := some (some eveSessionId)
          error :=
            if projection.status = .failed then
              projection.failure.map fun event =>
                some (sessionErrorFromEveEvent ((getEveString (some event) "type").getD "")
                  (eventData event))
            else none })
  else (currentStatus, none)

/-! ## The system -/

/-- The loop of `monitorPlaygroundStream`: what is left to read, and the status so far. -/
structure Monitor where
  reader : LineReader
  currentStatus : SessionStatus

/-- The store, what ingestion alone would have made of it, the observations that are still to be
ingested, and the monitor. -/
structure State where
  store : Store
  alone : Option Store
  upcoming : List AgentEventObservation
  monitor : Monitor

inductive Action
  /-- The next event of the stream is ingested. -/
  | ingest (ids : IngestIds) (now : ℤ)
  /-- The monitor reads a chunk. -/
  | pull
  /-- The monitor projects the next line. The write it makes may fail, which is ignored. -/
  | line (stored : Bool) (now : ℤ)

variable (P : Playground)

/-- The facts that are still to be projected. -/
def upcomingFacts (reader : LineReader) : List Json := reader.unread.flatMap (lineFacts P.parse)

/-- The write of a line. -/
def writeLine (store : Store) (stored : Bool) (now : ℤ) : Option CompleteSessionInput → Store
  | none => store
  | some input =>
      if stored then (completeSession store P.sessionId input now).toOption.getD store else store

/-- One step. An ingestion that throws changes nothing, and its observation is sent again. -/
def step (s : State) : Action → Option State
  | .ingest ids now =>
      match s.upcoming with
      | [] => none
      | o :: rest =>
          match ingestAgentEvent s.store o ids now with
          | .error _ => some s
          | .ok (store, _) =>
              some
                { s with
                  store
                  alone := s.alone.bind fun alone =>
                    ((ingestAgentEvent alone o ids now).map Prod.fst).toOption
                  upcoming := rest }
  | .pull => s.monitor.reader.pull.map fun reader => { s with monitor.reader := reader }
  | .line stored now =>
      s.monitor.reader.next.map fun read =>
        let projected :=
          projectPlaygroundStreamLine P.parse read.1 s.monitor.currentStatus P.eveSessionId
        { s with
          store := writeLine P s.store stored now projected.2
          monitor := ⟨read.2, projected.1⟩ }

/-- An observation comes before another one in the stream. -/
def Precedes (o other : AgentEventObservation) : Prop :=
  o.telemetryEventId ≠ other.telemetryEventId ∧ o.eventFingerprint ≠ other.eventFingerprint ∧
    ∀ first ∈ o.sourceSequence, ∀ second ∈ other.sourceSequence, first ≤ second

/-- An event that is recorded comes before an observation in the stream. -/
def RecordedBefore (row : SessionEventInsert) (o : AgentEventObservation) : Prop :=
  row.telemetryEventId ≠ some o.telemetryEventId ∧ row.eventFingerprint ≠ some o.eventFingerprint ∧
    ∀ first ∈ row.sourceSequence, ∀ second ∈ o.sourceSequence, first ≤ second

/-- The session is there, under its Eve session id, and its node is in it if there is one. The
monitor has its stream, in some chunks, before it; ingestion has the same events before it, in
stream order. -/
structure Initial (s : State) : Prop where
  keyed : Keyed s.store
  session : ∃ row, s.store.findSession P.projectId P.eveSessionId = some row ∧ row.id = P.sessionId
  /-- `sessions_project_eve_session_idx`. -/
  sole : ∀ row ∈ s.store.sessions, row.projectId = P.projectId →
    row.eveSessionId = some P.eveSessionId → row.id = P.sessionId
  node : ∀ node, s.store.findNode P.projectId P.eveSessionId = some node →
    node.rootSessionId = P.sessionId
  own : ∀ o ∈ s.upcoming, o.eveSessionId = P.eveSessionId ∧ o.parentEveSessionId = none ∧
    ∃ deployment, s.store.deployments.find? (fun row => row.id = o.deploymentId) =
      some deployment ∧ deployment.projectId = P.projectId
  ordered : s.upcoming.Pairwise Precedes
  recorded : ∀ node, s.store.findNode P.projectId P.eveSessionId = some node →
    ∀ event ∈ s.store.recordedBy node.id, ∀ o ∈ s.upcoming,
      RecordedBefore event.toSessionEventInsert o
  stream : ∃ chunks, s.monitor = ⟨LineReader.start chunks, .running⟩
  events : s.upcoming.map AgentEventObservation.event = upcomingFacts P s.monitor.reader
  alone : s.alone = some s.store

def machine : Machine State Action where
  init := Initial P
  step := step P

/-! ## What is promised -/

/-- The status of the session. -/
def statusIn (store : Store) : Option SessionStatus :=
  (store.getSession P.sessionId).map fun row => row.status

/-- When the session was completed. -/
def completedIn (store : Store) : Option (Option ℤ) :=
  (store.getSession P.sessionId).map fun row => row.completedAt

/-- The eager status never contradicts ingestion. Once both have consumed the stream, status and
completion time are those of ingestion alone; and where ingestion is not behind the monitor, the
status is. -/
structure EagerStatus (s : State) : Prop where
  settled : s.monitor.reader.closed = true → s.upcoming = [] →
    ∀ alone, s.alone = some alone →
      statusIn P s.store = statusIn P alone ∧ completedIn P s.store = completedIn P alone
  lagging : s.upcoming.length ≤ (upcomingFacts P s.monitor.reader).length →
    ∀ alone, s.alone = some alone → statusIn P s.store = statusIn P alone

/-! ## What a write has to find -/

/-- Whether ingesting some observations in order moves a session that its node roots or does not,
and whose node has the given status. -/
def moves (eveSessionId : String) : Bool → SessionStatus → List AgentEventObservation → Bool
  | _, _, [] => false
  | isRoot, status, o :: rest =>
      let reading := readEvent o.event
      isRoot && ((sessionStatusFromEveEvent reading.type status reading.payload).isSome ||
        moves eveSessionId (announcedChild reading ≠ some eveSessionId) status rest)

/-- Whether observations would move the session from where its node stands: that of the store, or
the one that the first of them would open. -/
def movesFrom (store : Store) (observations : List AgentEventObservation) : Bool :=
  match store.findNode P.projectId P.eveSessionId with
  | some node => moves P.eveSessionId node.parentNodeId.isNone node.status observations
  | none => moves P.eveSessionId true .running observations

/-- The observations that ingestion has still to read, up to where a reader is. -/
def State.behind (s : State) (reader : LineReader) : List AgentEventObservation :=
  s.upcoming.take (s.upcoming.length - (upcomingFacts P reader).length)

/-- The status the events of a line lead to, one after another, if any of them moves it. -/
def lineStatus (parse : String → Option Json) (line : List Char) (status : SessionStatus) :
    Option SessionStatus :=
  (lineFacts parse line).foldl
    (fun reached event => (eventStatus (reached.getD status) event).or reached) none

/-- A write of the monitor comes before ingestion has read the last event of its line, or of those
before it, that moves the session; or else the session has the status already, and its completion
time is the one that is written or an event that is still to be ingested moves the session. -/
def Heeds (s : State) : Action → Bool
  | .line stored now =>
      match s.monitor.reader.next with
      | none => true
      | some (line, reader) =>
          match lineStatus P.parse line s.monitor.currentStatus with
          | none => true
          | some status =>
              !stored || movesFrom P s.store (s.behind P reader) ||
                (statusIn P s.store = some status &&
                  (completedIn P s.store = some (completionTime status now) ||
                    movesFrom P s.store s.upcoming))
  | _ => true

end Eveland.PlaygroundStream
