/-
# Usage analytics

The totals of a usage window: as a whole, by bucket, by project, by model and by agent. Sessions
and usage rows come from two queries, which may see the database at different times; sessions count
where they have started, or with a model filter where their first use of the model lies. Times are
in milliseconds, and costs are exact.
-/

import Mathlib.Data.List.Sort
import Mathlib.Data.Rat.Defs
import Eveland.Core.EveEvents
import Eveland.Foundations.Accumulators

namespace Eveland.UsageAnalytics

open Accumulators

/-! ## Totals -/

structure UsageTotals where
  sessions : ℕ
  runningSessions : ℕ
  waitingSessions : ℕ
  completedSessions : ℕ
  failedSessions : ℕ
  modelSteps : ℕ
  inputTokens : ℕ
  outputTokens : ℕ
  cacheReadTokens : ℕ
  cacheWriteTokens : ℕ
  costUsd : Option ℚ
  reportedSteps : ℕ
  missingSteps : ℕ
  costReportedSteps : ℕ
  deriving DecidableEq

def emptyTotals : UsageTotals where
  sessions := 0
  runningSessions := 0
  waitingSessions := 0
  completedSessions := 0
  failedSessions := 0
  modelSteps := 0
  inputTokens := 0
  outputTokens := 0
  cacheReadTokens := 0
  cacheWriteTokens := 0
  costUsd := none
  reportedSteps := 0
  missingSteps := 0
  costReportedSteps := 0

def addSession (totals : UsageTotals) (status : SessionStatus) : UsageTotals :=
  { totals with
    sessions := totals.sessions + 1
    runningSessions := totals.runningSessions + if status = .running then 1 else 0
    waitingSessions :=
      totals.waitingSessions + if status = .waiting ∨ status = .waitingApproval then 1 else 0
    completedSessions := totals.completedSessions + if status = .completed then 1 else 0
    failedSessions := totals.failedSessions + if status = .failed then 1 else 0 }

/-! ## Rows -/

structure Project where
  id : String
  name : String

/-- The columns of a session that are read. -/
structure Session where
  id : String
  projectId : String
  status : SessionStatus
  startedAt : ℤ

structure SessionNode where
  id : String
  modelId : Option String

structure ModelUsageEvent where
  sessionId : String
  sessionNodeId : Option String
  createdAt : ℤ
  inputTokens : Option ℕ
  outputTokens : Option ℕ
  cacheReadTokens : Option ℕ
  cacheWriteTokens : Option ℕ
  costUsd : Option ℚ
  usageReported : Bool
  modelId : Option String
  agentId : Option String
  agentName : Option String
  eveSessionId : String

/-- The tables, in any order of their rows, with their primary keys. -/
structure Database where
  projects : List Project
  sessions : List Session
  sessionNodes : List SessionNode
  modelUsageEvents : List ModelUsageEvent
  projectKey : (projects.map Project.id).Nodup
  sessionKey : (sessions.map Session.id).Nodup
  nodeKey : (sessionNodes.map SessionNode.id).Nodup

def addUsage (totals : UsageTotals) (usage : ModelUsageEvent) : UsageTotals :=
  { totals with
    modelSteps := totals.modelSteps + 1
    inputTokens := totals.inputTokens + usage.inputTokens.getD 0
    outputTokens := totals.outputTokens + usage.outputTokens.getD 0
    cacheReadTokens := totals.cacheReadTokens + usage.cacheReadTokens.getD 0
    cacheWriteTokens := totals.cacheWriteTokens + usage.cacheWriteTokens.getD 0
    costUsd :=
      match usage.costUsd with
      | some cost => some (totals.costUsd.getD 0 + cost)
      | none => totals.costUsd
    costReportedSteps := totals.costReportedSteps + if usage.costUsd.isSome then 1 else 0
    reportedSteps := totals.reportedSteps + if usage.usageReported then 1 else 0
    missingSteps := totals.missingSteps + if usage.usageReported then 0 else 1 }

/-! ## The window -/

inductive UsageRange
  | day
  | week
  | month
  deriving DecidableEq

inductive Bucket
  | hour
  | day
  deriving DecidableEq

def hourMs : ℤ := 60 * 60 * 1000

def dayMs : ℤ := 24 * hourMs

structure UsageWindow where
  fromMs : ℤ
  toMs : ℤ
  previousFromMs : ℤ
  bucket : Bucket
  bucketMs : ℤ
  bucketCount : ℕ
  deriving DecidableEq

/-- `usageWindow`. The remainder of a negative number is negative. -/
def usageWindow (range : UsageRange) (nowMs : ℤ) : UsageWindow :=
  let bucket := if range = .day then Bucket.hour else .day
  let bucketMs := if bucket = .hour then hourMs else dayMs
  let bucketCount : ℕ := match range with
    | .day => 24
    | .week => 7
    | .month => 30
  let remainder := nowMs.tmod bucketMs
  let toMs := if remainder = 0 then nowMs else nowMs + bucketMs - remainder
  let fromMs := toMs - bucketCount * bucketMs
  { fromMs, toMs, previousFromMs := fromMs - bucketCount * bucketMs, bucket, bucketMs, bucketCount }

def inWindow (value fromMs toMs : ℤ) : Bool := fromMs ≤ value && value < toMs

/-- `bucketIndex`: the quotient is rounded down. -/
def bucketIndex (value : ℤ) (window : UsageWindow) : ℤ := (value - window.fromMs) / window.bucketMs

/-- The place of a time in the series. An index that the series does not have is beyond its end. -/
def bucketSlot (window : UsageWindow) (value : ℤ) : ℕ :=
  if 0 ≤ bucketIndex value window then (bucketIndex value window).toNat else window.bucketCount

/-! ## Queries -/

structure UsageInput where
  range : UsageRange
  projectId : Option String
  modelId : Option String
  now : ℤ

/-- A filter that is given. An empty string is none. -/
def given (value : Option String) : Option String := value.filter (· ≠ "")

structure SessionRow where
  session : Session
  projectName : String

structure UsageRow where
  usage : ModelUsageEvent
  session : Session
  projectName : String
  modelId : Option String

/-- `projectCondition`. -/
def inProject (input : UsageInput) (session : Session) : Bool :=
  (given input.projectId).all (session.projectId = ·)

/-- The sessions, joined with their projects. -/
def joinSessions (db : Database) : List SessionRow :=
  db.sessions.flatMap fun session =>
    (db.projects.filter (·.id = session.projectId)).map fun project =>
      { session, projectName := project.name }

/-- `sessionRows`. -/
def selectSessions (db : Database) (input : UsageInput) (window : UsageWindow) : List SessionRow :=
  (joinSessions db).filter fun row =>
    inProject input row.session && inWindow row.session.startedAt window.previousFromMs window.toMs

/-- `coalesce(usage.model_id, node.model_id)`. -/
def usageModel (db : Database) (usage : ModelUsageEvent) : Option String :=
  usage.modelId.or
    ((db.sessionNodes.find? fun node => usage.sessionNodeId = some node.id).bind SessionNode.modelId)

/-- The usage rows, joined with their sessions and projects. -/
def joinUsage (db : Database) : List UsageRow :=
  db.modelUsageEvents.flatMap fun usage =>
    ((joinSessions db).filter (·.session.id = usage.sessionId)).map fun row =>
      { usage, session := row.session, projectName := row.projectName
        modelId := usageModel db usage }

/-- `usageRows`. -/
def selectUsage (db : Database) (input : UsageInput) (window : UsageWindow) : List UsageRow :=
  (joinUsage db).filter fun row =>
    inProject input row.session && inWindow row.usage.createdAt window.previousFromMs window.toMs

/-- The rows of a model, where one is asked for. -/
def ofModel (input : UsageInput) (rows : List UsageRow) : List UsageRow :=
  match given input.modelId with
  | some modelId => rows.filter (·.modelId = some modelId)
  | none => rows

/-! ## Breakdowns -/

structure UsageSeriesPoint where
  bucketStart : ℤ
  totals : UsageTotals

structure ProjectUsageBreakdown where
  projectId : String
  projectName : String
  totals : UsageTotals
  sessionIds : List String

structure ModelUsageBreakdown where
  modelId : Option String
  totals : UsageTotals
  sessionIds : List String

structure AgentModelUsageBreakdown where
  projectId : String
  projectName : String
  agentId : Option String
  agentName : Option String
  modelId : Option String
  totals : UsageTotals
  sessionIds : List String

/-- `Set.add`. -/
def addToSet (ids : List String) (id : String) : List String :=
  if id ∈ ids then ids else ids ++ [id]

/-- The last row of each session. -/
def usageSessions (rows : List UsageRow) : List (String × UsageRow) :=
  collect (·.session.id) id (fun row _ => row) [] rows

/-- The earliest row of each session. -/
def firstUsageBySession (rows : List UsageRow) : List (String × UsageRow) :=
  collect (·.session.id) id
    (fun row current => if row.usage.createdAt < current.usage.createdAt then row else current)
    [] rows

/-- The sessions that count: those that have used the model that is asked for, or all. -/
def selectedSessions (input : UsageInput) (sessionRows : List SessionRow)
    (usageRows : List UsageRow) : List SessionRow :=
  match given input.modelId with
  | some _ =>
      (usageSessions usageRows).map fun entry =>
        { session := entry.2.session, projectName := entry.2.projectName }
  | none => sessionRows

def addSessions (totals : UsageTotals) (rows : List SessionRow) : UsageTotals :=
  rows.foldl (fun totals row => addSession totals row.session.status) totals

def addUsages (totals : UsageTotals) (rows : List UsageRow) : UsageTotals :=
  rows.foldl (fun totals row => addUsage totals row.usage) totals

def UsageSeriesPoint.addSession (point : UsageSeriesPoint) (session : Session) : UsageSeriesPoint :=
  { point with totals := UsageAnalytics.addSession point.totals session.status }

def UsageSeriesPoint.addUsage (point : UsageSeriesPoint) (row : UsageRow) : UsageSeriesPoint :=
  { point with totals := UsageAnalytics.addUsage point.totals row.usage }

def emptySeries (window : UsageWindow) : List UsageSeriesPoint :=
  (List.range window.bucketCount).map fun index : ℕ =>
    { bucketStart := window.fromMs + (index : ℤ) * window.bucketMs, totals := emptyTotals }

/-- `series`. -/
def usageSeries (input : UsageInput) (window : UsageWindow) (sessionRows : List SessionRow)
    (usageRows : List UsageRow) : List UsageSeriesPoint :=
  let withUsage := fill (fun row : UsageRow => bucketSlot window row.usage.createdAt)
    UsageSeriesPoint.addUsage (emptySeries window) usageRows
  match given input.modelId with
  | some _ =>
      fill (fun entry : String × UsageRow => bucketSlot window entry.2.usage.createdAt)
        (fun point entry => point.addSession entry.2.session) withUsage
        (firstUsageBySession usageRows)
  | none =>
      fill (fun row : SessionRow => bucketSlot window row.session.startedAt)
        (fun point row => point.addSession row.session) withUsage sessionRows

/-- `ensureProject`, before it is changed. -/
def newProject (projectId projectName : String) : ProjectUsageBreakdown :=
  { projectId, projectName, totals := emptyTotals, sessionIds := [] }

/-- A session counts for its project once. -/
def ProjectUsageBreakdown.addSession (project : ProjectUsageBreakdown) (session : Session) :
    ProjectUsageBreakdown :=
  if session.id ∈ project.sessionIds then project
  else
    { project with
      sessionIds := project.sessionIds ++ [session.id]
      totals := UsageAnalytics.addSession project.totals session.status }

def ProjectUsageBreakdown.addUsage (project : ProjectUsageBreakdown) (row : UsageRow) :
    ProjectUsageBreakdown :=
  { project with totals := UsageAnalytics.addUsage project.totals row.usage }

def addProjectSessions (projects : List (String × ProjectUsageBreakdown))
    (rows : List SessionRow) : List (String × ProjectUsageBreakdown) :=
  collect (·.session.projectId)
    (fun row => newProject row.session.projectId row.projectName)
    (fun row project => project.addSession row.session) projects rows

def addProjectUsage (projects : List (String × ProjectUsageBreakdown))
    (rows : List UsageRow) : List (String × ProjectUsageBreakdown) :=
  collect (·.session.projectId)
    (fun row => newProject row.session.projectId row.projectName)
    (fun row project => project.addUsage row) projects rows

/-- `modelKey`. -/
def modelKey (row : UsageRow) : String := row.modelId.getD "__unknown_model__"

def modelUsage (rows : List UsageRow) : List (String × ModelUsageBreakdown) :=
  collect modelKey
    (fun row => { modelId := row.modelId, totals := emptyTotals, sessionIds := [] })
    (fun row model =>
      { model with
        totals := addUsage model.totals row.usage
        sessionIds := addToSet model.sessionIds row.session.id })
    [] rows

/-- `agentModelKey`. -/
def agentModelKey (row : UsageRow) : String :=
  let agentKey := row.usage.agentId.getD row.usage.eveSessionId
  row.session.projectId ++ "\x00" ++ agentKey ++ "\x00" ++ modelKey row

def agentModelUsage (rows : List UsageRow) : List (String × AgentModelUsageBreakdown) :=
  collect agentModelKey
    (fun row =>
      { projectId := row.session.projectId, projectName := row.projectName
        agentId := row.usage.agentId, agentName := row.usage.agentName
        modelId := row.modelId, totals := emptyTotals, sessionIds := [] })
    (fun row agentModel =>
      { agentModel with
        totals := addUsage agentModel.totals row.usage
        sessionIds := addToSet agentModel.sessionIds row.session.id })
    [] rows

/-- `currentSessionStatus`. -/
def sessionStatuses (rows : List UsageRow) : List (String × SessionStatus) :=
  collect (·.session.id) (·.session.status) (fun row _ => row.session.status) [] rows

/-- The sessions of a breakdown, by their status. -/
def addStatuses (statuses : List (String × SessionStatus)) (totals : UsageTotals)
    (sessionIds : List String) : UsageTotals :=
  sessionIds.foldl
    (fun totals id =>
      match statuses.lookup id with
      | some status => addSession totals status
      | none => totals) totals

/-- The left row does not come after the right one: by tokens, steps and sessions, descending. -/
def breakdownLe (left right : UsageTotals) : Prop :=
  right.inputTokens + right.outputTokens < left.inputTokens + left.outputTokens ∨
    right.inputTokens + right.outputTokens = left.inputTokens + left.outputTokens ∧
      (right.modelSteps < left.modelSteps ∨
        right.modelSteps = left.modelSteps ∧ right.sessions ≤ left.sessions)

instance : DecidableRel breakdownLe := fun _ _ => inferInstanceAs (Decidable (_ ∨ _))

/-- `sortedBreakdown`. The sort is stable. -/
def sortedBreakdown {τ : Type} (totals : τ → UsageTotals) (rows : List τ) : List τ :=
  rows.insertionSort fun left right => breakdownLe (totals left) (totals right)

/-! ## The result -/

structure Analytics where
  range : UsageRange
  window : UsageWindow
  modelId : Option String
  summary : UsageTotals
  previousSummary : UsageTotals
  series : List UsageSeriesPoint
  projects : List ProjectUsageBreakdown
  models : List ModelUsageBreakdown
  agentModels : List AgentModelUsageBreakdown

/-- `getUsageAnalytics`: the sessions are selected in one state of the database, the usage rows in
another. -/
def getUsageAnalytics (first second : Database) (input : UsageInput) : Analytics :=
  let window := usageWindow input.range input.now
  let sessionRows := selectSessions first input window
  let usageRows := selectUsage second input window
  let currentSessionRows := sessionRows.filter fun row =>
    inWindow row.session.startedAt window.fromMs window.toMs
  let previousSessionRows := sessionRows.filter fun row =>
    inWindow row.session.startedAt window.previousFromMs window.fromMs
  let currentScopeUsageRows := usageRows.filter fun row =>
    inWindow row.usage.createdAt window.fromMs window.toMs
  let previousScopeUsageRows := usageRows.filter fun row =>
    inWindow row.usage.createdAt window.previousFromMs window.fromMs
  let currentUsageRows := ofModel input currentScopeUsageRows
  let previousUsageRows := ofModel input previousScopeUsageRows
  let selectedCurrentSessions := selectedSessions input currentSessionRows currentUsageRows
  let selectedPreviousSessions := selectedSessions input previousSessionRows previousUsageRows
  let statuses := sessionStatuses currentScopeUsageRows
  { range := input.range
    window
    modelId := input.modelId
    summary := addUsages (addSessions emptyTotals selectedCurrentSessions) currentUsageRows
    previousSummary := addUsages (addSessions emptyTotals selectedPreviousSessions) previousUsageRows
    series := usageSeries input window currentSessionRows currentUsageRows
    projects := sortedBreakdown ProjectUsageBreakdown.totals
      ((addProjectUsage (addProjectSessions [] selectedCurrentSessions) currentUsageRows).map
        Prod.snd)
    models := sortedBreakdown ModelUsageBreakdown.totals
      ((modelUsage currentScopeUsageRows).map fun entry =>
        { entry.2 with totals := addStatuses statuses entry.2.totals entry.2.sessionIds })
    agentModels := sortedBreakdown AgentModelUsageBreakdown.totals
      ((agentModelUsage (ofModel input currentScopeUsageRows)).map fun entry =>
        { entry.2 with totals := addStatuses statuses entry.2.totals entry.2.sessionIds }) }

end Eveland.UsageAnalytics
