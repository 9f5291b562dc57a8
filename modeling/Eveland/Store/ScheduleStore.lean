/-
# The schedule store

Project schedules, their versions, the scheduler target of a project and the
runs claimed from them. Each store method is one transaction and runs to its
commit or leaves the store unchanged; the identifiers `createId` draws during a
call are an argument of the call.

An inner join on a primary key or a unique index finds at most one row, so it is
a lookup here.
-/

import Mathlib.Data.List.Sort
import Eveland.Core.Deployments
import Eveland.Core.Schedules
import Eveland.Foundations.Machine
import Eveland.Foundations.Outcome
import Eveland.Foundations.Table

namespace Eveland.ScheduleStore

open Outcome (ensure require)

/-! ## Rows -/

/-- A row of `source_revisions`. -/
structure SourceRevision where
  id : String
  projectId : String
  deriving DecidableEq, Repr

/-- A row of `releases`. -/
structure Release where
  id : String
  sourceRevisionId : String
  deriving DecidableEq, Repr

/-- A row of `deployments`. -/
structure Deployment where
  id : String
  projectId : String
  releaseId : String
  status : DeploymentStatus
  deriving DecidableEq, Repr

/-- A row of `project_schedules`. -/
structure ProjectSchedule where
  id : String
  projectId : String
  key : String
  enabled : Bool
  nextRunAt : Option ℤ
  updatedAt : ℤ
  deriving DecidableEq, Repr

/-- A row of `schedule_versions`. -/
structure ScheduleVersion where
  id : String
  scheduleId : String
  sourceRevisionId : String
  kind : ScheduleKind
  cron : String
  sourcePath : String
  definitionHash : String
  deriving DecidableEq, Repr

/-- A row of `project_scheduler_targets`. -/
structure SchedulerTarget where
  projectId : String
  deploymentId : String
  updatedAt : ℤ
  deriving DecidableEq, Repr

/-- What caused a run. -/
inductive Trigger
  | cron
  | manual
  deriving DecidableEq, Repr

/-- A row of `schedule_runs` as it is inserted: queued, with no attempt yet. -/
structure ScheduleRun where
  id : String
  scheduleId : String
  scheduleVersionId : String
  releaseId : String
  deploymentId : String
  dueAt : ℤ
  trigger : Trigger
  missedTicks : ℕ
  createdAt : ℤ
  deriving DecidableEq, Repr

/-- The `trigger_schedule` job a claimed run enqueues. -/
structure TriggerScheduleJob where
  projectId : String
  scheduleRunId : String
  deploymentId : String
  createdAt : ℤ
  deriving DecidableEq, Repr

/-- The tables the schedule store reads and writes. -/
structure Store where
  sourceRevisions : List SourceRevision
  releases : List Release
  deployments : List Deployment
  schedules : List ProjectSchedule
  versions : List ScheduleVersion
  targets : List SchedulerTarget
  runs : List ScheduleRun
  jobs : List TriggerScheduleJob

namespace Store

variable (s : Store)

def findRelease (id : String) : Option Release := s.releases.find? fun r => r.id = id

def findDeployment (id : String) : Option Deployment := s.deployments.find? fun d => d.id = id

def findTarget (projectId : String) : Option SchedulerTarget :=
  s.targets.find? fun t => t.projectId = projectId

/-- The version a schedule has in a source revision. -/
def findVersion (scheduleId sourceRevisionId : String) : Option ScheduleVersion :=
  s.versions.find? fun v => v.scheduleId = scheduleId && v.sourceRevisionId = sourceRevisionId

end Store

/-! ## Recording versions -/

/-- The insert into `project_schedules` with `on conflict do nothing`, and the select of
the row it conflicts with. -/
def upsertSchedule (s : Store) (projectId key scheduleId : String) (now : ℤ) :
    Except String (Store × ProjectSchedule) :=
  match s.schedules.find? fun r => r.projectId = projectId && r.key = key with
  | some scheduleRow => .ok (s, scheduleRow)
  | none =>
      if s.schedules.any fun r => r.id = scheduleId then .error "duplicate project_schedules id"
      else
        let scheduleRow : ProjectSchedule :=
          { id := scheduleId, projectId, key, enabled := true, nextRunAt := none,
            updatedAt := now }
        .ok ({ s with schedules := s.schedules ++ [scheduleRow] }, scheduleRow)

/-- The insert into `schedule_versions` with `on conflict do nothing`, and the select of
the row it conflicts with. -/
def upsertVersion (s : Store) (scheduleId sourceRevisionId : String)
    (definition : ScheduleDefinition) (versionId : String) :
    Except String (Store × ScheduleVersion) :=
  match s.findVersion scheduleId sourceRevisionId with
  | some versionRow => .ok (s, versionRow)
  | none =>
      if s.versions.any fun v => v.id = versionId then .error "duplicate schedule_versions id"
      else
        let versionRow : ScheduleVersion :=
          { id := versionId, scheduleId, sourceRevisionId, kind := definition.kind,
            cron := definition.cron, sourcePath := definition.sourcePath,
            definitionHash := definition.definitionHash }
        .ok ({ s with versions := s.versions ++ [versionRow] }, versionRow)

/-- One definition of `recordScheduleVersions`: a recorded version is never changed, so a
definition that differs from it is refused. -/
def recordScheduleVersion (s : Store) (projectId sourceRevisionId : String)
    (definition : ScheduleDefinition) (scheduleId versionId : String) (now : ℤ) :
    Except String Store := do
  let (s, scheduleRow) ← upsertSchedule s projectId definition.key scheduleId now
  let (s, versionRow) ← upsertVersion s scheduleRow.id sourceRevisionId definition versionId
  ensure (versionRow.definitionHash == definition.definitionHash &&
      versionRow.cron == definition.cron && versionRow.kind == definition.kind &&
      versionRow.sourcePath == definition.sourcePath)
    s!"ScheduleVersion {versionRow.id} is immutable."
  pure s

/-- The definitions of one `recordScheduleVersions` call, in order; a key given twice is
an error. `newId` draws the identifiers. -/
def recordDefinitions (projectId sourceRevisionId : String) (newId : ℕ → String) (now : ℤ) :
    List ScheduleDefinition → List String → ℕ → Store → Except String Store
  | [], _, _, s => pure s
  | definition :: rest, seenKeys, draw, s => do
      ensure (!seenKeys.contains definition.key) s!"Duplicate schedule key: {definition.key}"
      let s ← recordScheduleVersion s projectId sourceRevisionId definition (newId draw)
        (newId (draw + 1)) now
      recordDefinitions projectId sourceRevisionId newId now rest (definition.key :: seenKeys)
        (draw + 2) s

/-- `recordScheduleVersions`. -/
def recordScheduleVersions (lib : CronLibrary) (s : Store) (projectId sourceRevisionId : String)
    (definitions : List ScheduleDefinition) (newId : ℕ → String) (now : ℤ) :
    Except String Store := do
  for definition in definitions do
    validateScheduleDefinitionFields lib definition
  ensure (s.sourceRevisions.any fun r => r.id = sourceRevisionId && r.projectId = projectId)
    "Cannot record schedule versions for an unknown SourceRevision."
  recordDefinitions projectId sourceRevisionId newId now definitions [] 0 s

/-! ## The scheduler target -/

/-- The next run `applySchedulerTargetTx` gives one schedule row; an error where the
cron library throws. -/
def retargetedNextRunAt (lib : CronLibrary) (s : Store) (sourceRevisionId : String) (now : ℤ)
    (row : ProjectSchedule) : Except String (Option ℤ) :=
  match s.findVersion row.id sourceRevisionId with
  | some version =>
      if row.enabled then
        match getNextRunAt lib version.cron now with
        | some tick => .ok (some tick)
        | none => .error s!"Invalid Eve schedule cron expression {version.cron}"
      else .ok none
  | none => .ok none

/-- The loop of `applySchedulerTargetTx` over the schedules of the project. -/
def retargetRows (lib : CronLibrary) (sourceRevisionId : String) (now : ℤ) :
    List ProjectSchedule → Store → Except String Store
  | [], s => pure s
  | row :: rest, s => do
      let nextRunAt ← retargetedNextRunAt lib s sourceRevisionId now row
      retargetRows lib sourceRevisionId now rest
        { s with
          schedules := Table.updateWhere (fun r => r.id = row.id)
            (fun r => { r with nextRunAt, updatedAt := now }) s.schedules }

/-- `applySchedulerTargetTx`. -/
def applySchedulerTargetTx (lib : CronLibrary) (s : Store)
    (projectId deploymentId sourceRevisionId : String) (now : ℤ) : Except String Store :=
  retargetRows lib sourceRevisionId now (s.schedules.filter fun r => r.projectId = projectId)
    { s with
      targets := Table.upsertWhere (fun t => t.projectId = projectId)
        (fun t => { t with deploymentId, updatedAt := now })
        { projectId, deploymentId, updatedAt := now } s.targets }

/-- `setProjectSchedulerTarget`. -/
def setProjectSchedulerTarget (lib : CronLibrary) (s : Store) (projectId deploymentId : String)
    (now : ℤ) : Except String Store := do
  let deployment ← require (s.deployments.find? fun d =>
    d.id = deploymentId && d.projectId = projectId)
    "Cannot target an unknown Deployment for schedules."
  let release ← require (s.findRelease deployment.releaseId)
    "Cannot target an unknown Deployment for schedules."
  applySchedulerTargetTx lib s projectId deploymentId release.sourceRevisionId now

/-- The part of `promoteDeployment` that concerns schedules: the deployment must be a
running one of the project, and the scheduler target follows it. -/
def promoteDeployment (lib : CronLibrary) (s : Store) (projectId deploymentId : String)
    (now : ℤ) : Except String Store := do
  let deployment ← require (s.deployments.find? fun d =>
    d.id = deploymentId && d.projectId = projectId) "Deployment does not belong to this project."
  ensure (deployment.status = .running)
    s!"A promoted deployment must be running, but this one is {deployment.status.text}."
  let release ← require (s.findRelease deployment.releaseId)
    "Promoted Deployment has no Release."
  applySchedulerTargetTx lib s projectId deploymentId release.sourceRevisionId now

/-! ## Creating and claiming runs -/

/-- `createManualScheduleRun`. -/
def createManualScheduleRun (s : Store) (projectId scheduleId : String) (newId : ℕ → String)
    (now : ℤ) : Except String Store := do
  let schedule ← require (s.schedules.find? fun r =>
    r.id = scheduleId && r.projectId = projectId) "Project schedule not found."
  ensure schedule.enabled "Project schedule is disabled."
  let target ← require (s.findTarget projectId)
    "Project schedule has no deployable scheduler target."
  let deployment ← require (s.findDeployment target.deploymentId)
    "Project schedule has no deployable scheduler target."
  let release ← require (s.findRelease deployment.releaseId)
    "Project schedule has no deployable scheduler target."
  let version ← require (s.findVersion scheduleId release.sourceRevisionId)
    "Project schedule has no deployable scheduler target."
  let run : ScheduleRun :=
    { id := newId 0, scheduleId, scheduleVersionId := version.id, releaseId := release.id,
      deploymentId := deployment.id, dueAt := now, trigger := .manual, missedTicks := 0,
      createdAt := now }
  ensure (s.runs.all fun r => r.id ≠ run.id) "duplicate schedule_runs id"
  pure { s with
    runs := s.runs ++ [run]
    jobs := s.jobs ++
      [{ projectId, scheduleRunId := run.id, deploymentId := run.deploymentId,
         createdAt := now }] }

/-- A row of the due query: a schedule joined with the version, deployment and release
its project's scheduler target gives it. -/
structure DueRow where
  schedule : ProjectSchedule
  version : ScheduleVersion
  deployment : Deployment
  release : Release
  deriving DecidableEq, Repr

/-- The joins and the condition of the due query, for one schedule. -/
def dueRow (s : Store) (now : ℤ) (schedule : ProjectSchedule) : Option DueRow := do
  let target ← s.findTarget schedule.projectId
  let deployment ← s.findDeployment target.deploymentId
  let release ← s.findRelease deployment.releaseId
  let version ← s.findVersion schedule.id release.sourceRevisionId
  let nextRunAt ← schedule.nextRunAt
  if schedule.enabled && nextRunAt ≤ now then some ⟨schedule, version, deployment, release⟩
  else none

/-- `ORDER BY next_run_at, id`. -/
def dueBefore (first second : DueRow) : Prop :=
  let a := first.schedule.nextRunAt.getD 0
  let b := second.schedule.nextRunAt.getD 0
  a < b ∨ (a = b ∧ first.schedule.id ≤ second.schedule.id)

instance : DecidableRel dueBefore := fun _ _ => inferInstanceAs (Decidable (_ ∨ _))

/-- The rows the due query selects. -/
def dueRows (s : Store) (now : ℤ) (limit : ℕ) : List DueRow :=
  ((s.schedules.filterMap (dueRow s now)).insertionSort dueBefore).take limit

/-- `schedule_runs_version_due_idx`: a cron run of this version at this instant exists. -/
def hasCronRun (s : Store) (versionId : String) (dueAt : ℤ) : Bool :=
  s.runs.any fun r => r.scheduleVersionId = versionId && r.dueAt = dueAt && r.trigger = .cron

/-- One turn of the loop of `claimDueScheduleRuns`. -/
def claimDueRow (lib : CronLibrary) (now : ℤ) (runId : String) (row : DueRow) (s : Store) :
    Except String (Store × Option ScheduleRun) :=
  match row.schedule.nextRunAt with
  | none => .ok (s, none)
  | some dueAt =>
      match calculateScheduleAdvance lib row.version.cron dueAt now with
      | none =>
          .ok ({ s with
            schedules := Table.updateWhere (fun r => r.id = row.schedule.id)
              (fun r => { r with enabled := false, nextRunAt := none, updatedAt := now })
              s.schedules }, none)
      | some advance =>
          -- on conflict do nothing, and then `if (!run) continue`: the schedule keeps its tick
          if hasCronRun s row.version.id dueAt then .ok (s, none)
          else if s.runs.any fun r => r.id = runId then .error "duplicate schedule_runs id"
          else
            let run : ScheduleRun :=
              { id := runId, scheduleId := row.schedule.id, scheduleVersionId := row.version.id,
                releaseId := row.release.id, deploymentId := row.deployment.id, dueAt,
                trigger := .cron, missedTicks := advance.missedTicks, createdAt := now }
            .ok ({ s with
              schedules := Table.updateWhere (fun r => r.id = row.schedule.id)
                (fun r => { r with nextRunAt := some advance.nextRunAt, updatedAt := now })
                s.schedules
              runs := s.runs ++ [run]
              jobs := s.jobs ++
                [{ projectId := row.schedule.projectId, scheduleRunId := run.id,
                   deploymentId := run.deploymentId, createdAt := now }] }, some run)

/-- The loop of `claimDueScheduleRuns`; the runs it claims, in order. -/
def claimDueLoop (lib : CronLibrary) (now : ℤ) (newId : ℕ → String) :
    List DueRow → ℕ → Store → Except String (Store × List ScheduleRun)
  | [], _, s => .ok (s, [])
  | row :: rest, draw, s =>
      match claimDueRow lib now (newId draw) row s with
      | .error e => .error e
      | .ok (t, run) =>
          match claimDueLoop lib now newId rest (draw + 1) t with
          | .error e => .error e
          | .ok (u, runs) => .ok (u, run.toList ++ runs)

/-- `claimDueScheduleRuns`. -/
def claimDueScheduleRuns (lib : CronLibrary) (s : Store) (now : ℤ) (limit : ℕ)
    (newId : ℕ → String) : Except String (Store × List ScheduleRun) :=
  if limit < 1 then .error "Schedule claim limit must be positive."
  else claimDueLoop lib now newId (dueRows s now limit) 0 s

end Eveland.ScheduleStore
