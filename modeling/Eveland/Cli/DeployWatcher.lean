/-
# The watcher of a deploy

`eveland deploy` queues an import and polls until the import or the build chained to it has ended:
each poll reads the project's build log to its tip, page by page, and then the newest jobs of the
project. Between any two of its requests the job workers take steps, log lines are committed, and
other requests queue jobs.

Log lines of a project are committed in the order of their numbers. What `record` keeps is nowhere
in the program: the job that was queued for this deploy, how many build lines there were when it
started, when its last page was read and when its job ended, and the watcher's steps since then.
-/

import Eveland.Store.LogStore
import Eveland.Worker.DeployPipeline

namespace Eveland.DeployWatcher

open JobStore LogStore
open DeployPipeline (stringField parentJobId)

/-! ## What the API answers -/

/-- A `PublicJob`, as far as the watcher reads it. -/
structure PublicJob where
  id : String
  type : Option JobType
  status : JobStatus
  lastError : Option String
  parentJobId : Option String
  deploymentId : Option String
  deriving DecidableEq

/-- `toPublicJob`. -/
def toPublicJob (row : JobRow) : PublicJob where
  id := row.id
  type := row.type
  status := row.status
  lastError := row.lastError
  parentJobId := parentJobId row.payload
  deploymentId := stringField row.payload "deploymentId"

/-- `ORDER BY created_at DESC`. Which of two rows of one instant comes first is open. -/
def newestFirst (tie : String → ℕ) (first second : JobRow) : Prop :=
  second.createdAt < first.createdAt ∨
    (first.createdAt = second.createdAt ∧ tie first.id ≤ tie second.id)

instance (tie : String → ℕ) : DecidableRel (newestFirst tie) :=
  fun _ _ => inferInstanceAs (Decidable (_ ∨ _))

/-- `listProjectJobs` with a limit. -/
def listProjectJobs (s : Store) (projectId : String) (limit : ℕ) (tie : String → ℕ) :
    List JobRow :=
  ((s.jobs.filter fun row => row.projectId = projectId).insertionSort (newestFirst tie)).take limit

/-- `GET /api/projects/:projectId/jobs?include=deployment`. It fails if one of the rows does not
decode. -/
def fetchJobs (s : Store) (projectId : String) (tie : String → ℕ) : Option (List PublicJob) :=
  let rows := listProjectJobs s projectId 50 tie
  if rows.all decodesJobRow then some (rows.map toPublicJob) else none

/-! ## The watcher -/

/-- What `runDeploy` throws. -/
inductive Failure
  | noImportJob
  | importFailed (lastError : Option String)
  | buildFailed (lastError : Option String)
  | timedOut
  | unrecorded
  /-- A request that was answered with an error. -/
  | requestFailed
  deriving DecidableEq

/-- The message of a failure. -/
def Failure.message (slug : String) : Failure → String
  | .noImportJob => s!"Project '{slug}' was created but no import job was queued for it."
  | .importFailed lastError => "Import failed: " ++ lastError.getD "unknown error"
  | .buildFailed lastError => "Build failed: " ++ lastError.getD "unknown error"
  | .timedOut => "Timed out waiting for the build to finish."
  | .unrecorded =>
      "The build completed but did not record which deployment it produced. Check the project's deployments in the Dashboard."
  | .requestFailed => "The request failed."

/-- How `runDeploy` ends. -/
inductive Ending
  | returned (deploymentId : String)
  | threw (failure : Failure)
  deriving DecidableEq

/-- What `runDeploy` does next. -/
inductive Phase
  /-- Read the cursor of an existing project's log. -/
  | watermark
  /-- Upload the source to an existing project. -/
  | submitting
  /-- Create the project. -/
  | creating
  /-- List the jobs of the new project. -/
  | finding
  /-- Set the deadline. -/
  | starting
  | checking
  /-- Read a page of the log. -/
  | reading
  /-- List the jobs. -/
  | listing
  | ended (ending : Ending)
  deriving DecidableEq

structure Watcher where
  phase : Phase
  logCursor : Option ℤ
  importJobId : String
  deadline : ℤ
  printed : List String

/-- The job that was queued for this deploy, the number of build lines when it started and when its
last page was read, the time and the number of build lines when its job ended, and the watcher's
steps since then. -/
structure Record where
  ownJobId : Option String
  startLines : ℕ
  readLines : ℕ
  ended : Option (ℤ × ℕ)
  stepsSince : ℕ

structure State where
  pipeline : DeployPipeline.State
  logs : List LogRow
  clock : ℤ
  watcher : Watcher
  record : Record

def DEPLOY_TIMEOUT_MS : ℤ := 15 * 60 * 1000

namespace State

variable (s : State)

def jobs : List JobRow := s.pipeline.workers.store.jobs

/-- The build lines of the project. -/
def scope : LogScope := { projectId := s.pipeline.projectId, type := some .build }

def buildLines : List LogRow := s.logs.filter (logScope s.scope)

/-- The job is the import that was queued for this deploy. -/
def isOwnImport (row : JobRow) : Bool :=
  row.projectId = s.pipeline.projectId && s.record.ownJobId = some row.id

/-- The job is a build that was chained to it. -/
def isOwnBuild (row : JobRow) : Bool :=
  row.projectId = s.pipeline.projectId && row.type = some .buildDeploy &&
    s.record.ownJobId.any fun jobId => parentJobId row.payload = some jobId

/-- The job ends the watch: a failed import, or a build that has ended. -/
def endsWatch (row : JobRow) : Bool :=
  (s.isOwnImport row && row.status = .failed) ||
    (s.isOwnBuild row && (row.status = .completed || row.status = .failed))

/-- The worker has taken a step. -/
def afterWork (pipeline : DeployPipeline.State) : State :=
  let t := { s with pipeline }
  if t.record.ended.isNone && t.jobs.any t.endsWatch then
    { t with record := { t.record with ended := some (t.clock, t.buildLines.length) } }
  else t

/-- The watcher has taken a step. -/
def advance (watcher : Watcher) : State :=
  { s with
    watcher
    record :=
      { s.record with
        stepsSince := if s.record.ended.isSome then s.record.stepsSince + 1 else 0 } }

/-- A request of the CLI comes in and queues its job, under an id that nothing names yet. -/
def queueImport (request : DeployPipeline.Request) (jobId : String) (now : ℤ) :
    Option DeployPipeline.State :=
  if s.jobs.all fun row => parentJobId row.payload ≠ some jobId then
    (DeployPipeline.step s.pipeline (.request request)).bind fun t =>
      DeployPipeline.step t (.proceed s.pipeline.requests.length jobId now)
  else none

end State

/-- A failed import ends the watch. -/
def judgeImport (job : PublicJob) : Option Ending :=
  if job.status = .failed then some (.threw (.importFailed job.lastError)) else none

/-- A build that has ended ends the watch; one that has completed has to name its deployment. -/
def judgeBuild (job : PublicJob) : Option Ending :=
  if job.status = .failed then some (.threw (.buildFailed job.lastError))
  else if job.status = .completed then
    match job.deploymentId with
    | some deploymentId =>
        if deploymentId = "" then some (.threw .unrecorded) else some (.returned deploymentId)
    | none => some (.threw .unrecorded)
  else none

/-- How the watch ends for a poll that has read these jobs, if it ends: the import is looked at
first. -/
def judge (importJobId : String) (jobs : List PublicJob) : Option Ending :=
  let importJob := jobs.find? fun job => job.id = importJobId
  let buildJob := jobs.find? fun job =>
    job.type = some .buildDeploy && job.parentJobId = some importJobId
  (importJob.bind judgeImport).or (buildJob.bind judgeBuild)

/-- `tie` settles the order of jobs of one instant. -/
inductive Action
  | work (action : DeployPipeline.Action)
  /-- A log line is committed. -/
  | append (row : LogRow)
  | tick (now : ℤ)
  | watermark
  | submit (sourcePath : String) (promote : Bool) (details : List (String × Json))
      (jobId : String) (now : ℤ)
  | create (sourcePath : String) (promote : Bool) (details : List (String × Json))
      (jobId : String) (now : ℤ)
  | find (tie : String → ℕ)
  | start
  | check
  | read
  | list (tie : String → ℕ)

/-- The cursor of the log's last line is where an existing project's lines start. -/
def watermark (s : State) : Option State :=
  match listLogsPage s.logs s.scope { limit := 1, after := none, before := none } with
  | .ok page =>
      let t := s.advance { s.watcher with phase := .submitting, logCursor := some page.cursor }
      some { t with record := { t.record with startLines := s.buildLines.length } }
  | .error _ => none

/-- The project's import is the oldest one that is listed. -/
def find (s : State) (tie : String → ℕ) : State :=
  match fetchJobs s.pipeline.workers.store s.pipeline.projectId tie with
  | none => s.advance { s.watcher with phase := .ended (.threw .requestFailed) }
  | some jobs =>
      match (jobs.filter fun job => job.type = some .importSource).getLast? with
      | none => s.advance { s.watcher with phase := .ended (.threw .noImportJob) }
      | some importJob =>
          s.advance { s.watcher with phase := .starting, importJobId := importJob.id }

def check (s : State) : State :=
  if s.watcher.deadline ≤ s.clock then
    s.advance { s.watcher with phase := .ended (.threw .timedOut) }
  else s.advance { s.watcher with phase := .reading }

/-- A page that is not full has reached the tip of the log. -/
def read (s : State) : Option State :=
  match listLogsPage s.logs s.scope
      { limit := 500, after := some (s.watcher.logCursor.getD 0), before := none } with
  | .ok page =>
      let t := s.advance
        { s.watcher with
          phase := if page.logs.length < 500 then .listing else .reading
          logCursor := some page.cursor
          printed := s.watcher.printed ++ page.logs.map fun log => "  " ++ log.line }
      some { t with record := { t.record with readLines := s.buildLines.length } }
  | .error _ => none

def list (s : State) (tie : String → ℕ) : State :=
  match fetchJobs s.pipeline.workers.store s.pipeline.projectId tie with
  | none => s.advance { s.watcher with phase := .ended (.threw .requestFailed) }
  | some jobs =>
      match judge s.watcher.importJobId jobs with
      | some ending => s.advance { s.watcher with phase := .ended ending }
      | none => s.advance { s.watcher with phase := .checking }

/-- One step of the system. Before the project is created nothing happens to it. -/
def step (s : State) : Action → Option State
  | .work action =>
      if s.watcher.phase = .creating then none
      else (DeployPipeline.step s.pipeline action).map s.afterWork
  | .append row =>
      if s.watcher.phase = .creating && row.projectId = s.pipeline.projectId then none
      else if 0 < row.seq ∧ ∀ old ∈ s.logs, old.projectId = row.projectId → old.seq < row.seq then
        some { s with logs := s.logs ++ [row] }
      else none
  | .tick now => if s.clock ≤ now then some { s with clock := now } else none
  | .watermark => if s.watcher.phase = .watermark then watermark s else none
  | .submit sourcePath promote details jobId now =>
      if s.watcher.phase = .submitting then
        (s.queueImport (.upload sourcePath "cli-upload" true promote details) jobId now).map
          fun pipeline =>
            let t := s.advance { s.watcher with phase := .starting, importJobId := jobId }
            { t with pipeline, record := { t.record with ownJobId := some jobId } }
      else none
  | .create sourcePath promote details jobId now =>
      if s.watcher.phase = .creating then
        (s.queueImport
          (.create .zip (some sourcePath) (some "cli-upload") true promote details) jobId now).map
          fun pipeline =>
            let t := s.advance { s.watcher with phase := .finding }
            { t with pipeline, record := { t.record with ownJobId := some jobId } }
      else none
  | .find tie => if s.watcher.phase = .finding then some (find s tie) else none
  | .start =>
      if s.watcher.phase = .starting then
        some (s.advance
          { s.watcher with phase := .checking, deadline := s.clock + DEPLOY_TIMEOUT_MS })
      else none
  | .check => if s.watcher.phase = .checking then some (check s) else none
  | .read => if s.watcher.phase = .reading then read s else none
  | .list tie => if s.watcher.phase = .listing then some (list s tie) else none

/-- `runDeploy` starts on an existing project, or is about to create one, which has no jobs and no
log yet. Log lines ascend in their numbers within a project. -/
structure Initial (s : State) : Prop where
  keyed : WellKeyed s.pipeline.workers.store
  lines : Keyset.Ascending LogRow.seq s.buildLines
  positive : ∀ row ∈ s.buildLines, 0 < row.seq
  phase : s.watcher.phase = .watermark ∨
    (s.watcher.phase = .creating ∧ s.buildLines = [] ∧
      ∀ row ∈ s.jobs, row.projectId ≠ s.pipeline.projectId)
  cursor : s.watcher.logCursor = none
  printed : s.watcher.printed = []
  record : s.record = ⟨none, 0, 0, none, 0⟩

def machine : Machine State Action where
  init := Initial
  step := step

end Eveland.DeployWatcher
