/-
# From a source request to a promoted deployment

The requests that bring a source into one project or build what is there, and the handlers of the
jobs they queue. An import records a source revision, which becomes the project's current one, and
may queue a build that names it as parent. A build reads the current revision, and records a
release and a deployment of it minutes later; it may promote the deployment. Executions are those
of the job workers, so a job can be recovered and run again while an earlier execution of it goes
on.

The requests that were queued, with what their checks have read, and the promotions of builds are
kept in records of their own.
-/

import Mathlib.Logic.Function.Basic
import Eveland.Worker.JobExecutions

namespace Eveland.DeployPipeline

open JobStore JobExecutions

/-! ## Payloads -/

/-- `payload[key] === true`. -/
def isTrue (payload : Json) (key : String) : Bool :=
  match payload.field key with
  | some (.bool value) => value
  | _ => false

/-- `payload[key]`, where it is a string. -/
def stringField (payload : Json) (key : String) : Option String :=
  match payload.field key with
  | some (.str value) => some value
  | _ => none

/-- `{ ...payload, [key]: value }`. -/
def setField (payload : Json) (key : String) (value : Json) : Json :=
  match payload.without key with
  | .obj fields => .obj (fields ++ [(key, value)])
  | other => other

/-- `payload.parentJobId`. -/
def parentJobId (payload : Json) : Option String := stringField payload "parentJobId"

/-! ## The project -/

/-- How a project was created, and what an import brings. -/
inductive ImportKind
  | git
  | zip
  deriving DecidableEq, Repr

def ImportKind.text : ImportKind → String
  | .git => "git"
  | .zip => "zip"

/-- A row of `source_revisions`, and the import job that has recorded it. -/
structure SourceRevision where
  id : String
  origin : Option String
  importJobId : String
  deriving DecidableEq, Repr

/-- A deployment with the source revision of its release, and the build job that has recorded
it. -/
structure Deployment where
  id : String
  revision : SourceRevision
  buildJobId : String
  parentJobId : Option String
  deriving DecidableEq, Repr

/-- The revision came from git. -/
def SourceRevision.isGitSync (revision : SourceRevision) : Bool :=
  revision.origin = some "git-sync"

/-- The revision has recorded that it was uploaded. -/
def SourceRevision.isUpload (revision : SourceRevision) : Bool :=
  revision.origin.any fun origin => origin ≠ "git-sync"

/-! ## Requests -/

/-- `build-deploy`, the two forms of `sync-source`, and the creation of the project. `details` are
fields of the payload that the handlers do not go by. -/
inductive Request
  | buildDeploy (promote replaceHotfix : Bool)
  | syncSource (gitUrl : String) (deploy promote replaceHotfix : Bool)
      (details : List (String × Json))
  | upload (sourcePath origin : String) (deploy promote : Bool) (details : List (String × Json))
  | create (importKind : ImportKind) (sourcePath origin : Option String) (deploy promote : Bool)
      (details : List (String × Json))

namespace Request

/-- `replaceHotfix: true`. -/
def replaceHotfix : Request → Bool
  | .buildDeploy _ replaceHotfix => replaceHotfix
  | .syncSource _ _ _ replaceHotfix _ => replaceHotfix
  | .upload .. | .create .. => false

/-- The request is let through by its schema. -/
def isValid (importKind : ImportKind) : Request → Bool
  | .buildDeploy .. | .create .. => true
  | .syncSource _ deploy promote _ _ => importKind = .git && (!promote || deploy)
  | .upload _ _ deploy promote _ => !promote || deploy

/-- The request asks whether it would retire a hotfix. -/
def isChecked : Request → Bool
  | .buildDeploy promote replaceHotfix => promote && !replaceHotfix
  | .syncSource _ _ promote replaceHotfix _ => promote && !replaceHotfix
  | .upload .. | .create .. => false

/-- The job that the request queues. -/
def job : Request → JobType × Json
  | .buildDeploy promote _ => (.buildDeploy, .obj [("promoteAfterDeploy", .bool promote)])
  | .syncSource gitUrl deploy promote _ details =>
      (.importSource, .obj ([("importKind", .str "git"), ("gitUrl", .str gitUrl),
        ("origin", .str "git-sync"), ("deployAfterImport", .bool deploy),
        ("promoteAfterDeploy", .bool promote)] ++ details))
  | .upload sourcePath origin deploy promote details =>
      (.importSource, .obj ([("importKind", .str "zip"), ("sourcePath", .str sourcePath),
        ("deployAfterImport", .bool deploy), ("promoteAfterDeploy", .bool promote),
        ("origin", .str origin)] ++ details))
  | .create importKind sourcePath origin deploy promote details =>
      (.importSource, .obj ([("importKind", .str importKind.text),
        ("sourcePath", (sourcePath.map Json.str).getD .null)] ++
        (if deploy then [("deployAfterImport", .bool true)] else []) ++
        (if promote then [("promoteAfterDeploy", .bool true)] else []) ++
        (match importKind with
          | .git => [("origin", .str "git-sync")]
          | .zip => (origin.map fun origin => [("origin", Json.str origin)]).getD []) ++
        details))

end Request

/-- What a check has read: whether production was in hotfix drift, and whether the revision to
promote is from git. A `sync-source` always brings one from git, and without drift a
`build-deploy` does not ask. -/
structure Check where
  drift : Bool
  git : Bool
  deriving DecidableEq, Repr

/-- Where a request is. -/
inductive RequestPhase
  | checking
  | comparing
  | enqueueing
  deriving DecidableEq, Repr

structure OpenRequest where
  request : Request
  phase : RequestPhase
  check : Option Check

/-- A request that was accepted, and the job it has queued. -/
structure QueuedRequest where
  jobId : String
  request : Request
  check : Option Check

/-! ## Handlers -/

/-- Where `handleImportSourceJob` or `handleBuildDeployJob` is in an execution. -/
inductive Handler
  | starting
  | recorded
  | building (revision : SourceRevision)
  | deployed (deployment : Deployment)
  | named (deployment : Deployment)
  | finished
  deriving DecidableEq, Repr

/-- A promotion inside a build: the job, whether production was in hotfix drift just before, and
whether the promoted revision is from git. -/
structure Promotion where
  buildJobId : String
  parentJobId : Option String
  drift : Bool
  git : Bool
  deriving DecidableEq, Repr

/-- The project: the job workers, the revisions and deployments (newest first), the deployment in
production, and where requests and handlers are. -/
structure State where
  workers : System
  projectId : String
  importKind : ImportKind
  revisions : List SourceRevision
  deployments : List Deployment
  production : Option Deployment
  handlers : ℕ → Handler
  requests : List OpenRequest
  queued : List QueuedRequest
  promotions : List Promotion

/-- `drawn` is the id a step draws, `now` the clock. -/
inductive Action
  /-- A step of a worker, of a sweep or of another process. -/
  | work (action : JobExecutions.Action)
  /-- The next statement of the handler of an execution. -/
  | handle (execution : ℕ) (drawn : String) (now : ℤ)
  | request (request : Request)
  /-- The next statement of an open request. -/
  | proceed (request : ℕ) (drawn : String) (now : ℤ)
  /-- A promotion that is not inside a build. -/
  | promote (deployment : Deployment)

/-- The type of an import or a build. -/
def isPipelineType (type : Option JobType) : Bool :=
  type = some .importSource || type = some .buildDeploy

namespace State

variable (s : State)

def setHandler (i : ℕ) (handler : Handler) : State :=
  { s with handlers := Function.update s.handlers i handler }

/-- `getCurrentSourceRevision`. -/
def getCurrentSourceRevision : Option SourceRevision := s.revisions.head?

/-- `getProjectHotfixDrift` is not null. -/
def inHotfixDrift : Bool :=
  s.importKind = .git && s.production.any fun deployment => deployment.revision.isUpload

/-- The current revision is from git. -/
def currentIsGitSync : Bool := s.getCurrentSourceRevision.any SourceRevision.isGitSync

/-- `recordSourceRevision`. -/
def recordSourceRevision (revision : SourceRevision) : State :=
  { s with revisions := revision :: s.revisions }

/-- `recordDeployment`; the first deployment is in production at once. -/
def recordDeployment (deployment : Deployment) : State :=
  { s with
    deployments := deployment :: s.deployments
    production := s.production.or (some deployment) }

/-- `enqueueJob`. -/
def enqueueJob (type : JobType) (payload : Json) (jobId : String) (now : ℤ) : Option State :=
  (JobStore.enqueueJob s.workers.store s.projectId type payload jobId now).toOption.map
    fun store => { s with workers := { s.workers with store } }

/-- The promotion of a deployment by a build. -/
def promoteBuilt (execution : Execution) (deployment : Deployment) : State :=
  { s with
    production := some deployment
    promotions :=
      { buildJobId := execution.jobId, parentJobId := parentJobId execution.payload
        drift := s.inHotfixDrift, git := deployment.revision.isGitSync } :: s.promotions }

/-- A step of the workers that is not one of an import's or a build's handler. -/
def mayWork : JobExecutions.Action → Bool
  | .outside (.enqueueJob _ type _ _ _) => !isPipelineType (some type)
  | .operate _ (.replacePayload type _ _) => !isPipelineType (some type)
  | .operate i (.dispatchEnds true) =>
      match s.workers.executions[i]? with
      | some execution => !isPipelineType execution.type || s.handlers i = .finished
      | none => false
  | _ => true

end State

/-- The origin of the revision that an import records: the payload's, or for a clone `git-sync`.
There is none to record where the payload has no source path and is not of a git repository. -/
def importOrigin (projectKind : ImportKind) (payload : Json) : Option (Option String) :=
  let kind := (stringField payload "importKind").getD projectKind.text
  match stringField payload "sourcePath" with
  | some _ => some (stringField payload "origin")
  | none =>
      if kind = "git" then some (some ((stringField payload "origin").getD "git-sync")) else none

/-- The next statement of `handleImportSourceJob`. -/
def handleImport (s : State) (i : ℕ) (execution : Execution) (drawn : String) (now : ℤ) :
    Option State :=
  match s.handlers i with
  | .starting =>
      (importOrigin s.importKind execution.payload).map fun origin =>
        (s.recordSourceRevision
          { id := drawn, origin, importJobId := execution.jobId }).setHandler i .recorded
  | .recorded =>
      if isTrue execution.payload "deployAfterImport" then
        ((s.enqueueJob .buildDeploy
          (.obj [("promoteAfterDeploy", .bool (isTrue execution.payload "promoteAfterDeploy")),
            ("parentJobId", .str execution.jobId)]) drawn now).map
          fun t => t.setHandler i .finished)
      else some (s.setHandler i .finished)
  | _ => none

/-- The next statement of `handleBuildDeployJob`, as far as revisions, deployments and the job's
payload are concerned. -/
def handleBuild (s : State) (i : ℕ) (execution : Execution) (drawn : String) (now : ℤ) :
    Option State :=
  match s.handlers i with
  | .starting => s.getCurrentSourceRevision.map fun revision => s.setHandler i (.building revision)
  | .building revision =>
      let deployment : Deployment :=
        { id := drawn, revision, buildJobId := execution.jobId
          parentJobId := parentJobId execution.payload }
      some ((s.recordDeployment deployment).setHandler i (.deployed deployment))
  | .deployed deployment =>
      (JobExecutions.step s.workers
        (.operate i (.replacePayload .buildDeploy
          (setField execution.payload "deploymentId" (.str deployment.id)) now))).map
        fun workers => { s.setHandler i (.named deployment) with workers }
  | .named deployment =>
      if isTrue execution.payload "promoteAfterDeploy" then
        some ((s.promoteBuilt execution deployment).setHandler i .finished)
      else some (s.setHandler i .finished)
  | _ => none

/-- The handler of an execution goes on. -/
def handle (s : State) (i : ℕ) (drawn : String) (now : ℤ) : Option State :=
  match s.workers.executions[i]? with
  | none => none
  | some execution =>
      if execution.phase = .working then
        match execution.type with
        | some .importSource => handleImport s i execution drawn now
        | some .buildDeploy => handleBuild s i execution drawn now
        | _ => none
      else none

/-- A request comes in. -/
def beginRequest (s : State) (request : Request) : Option State :=
  if request.isValid s.importKind then
    some { s with
      requests := s.requests ++
        [{ request, phase := if request.isChecked then .checking else .enqueueing
           check := none }] }
  else none

/-- A request is refused, or answered. -/
def State.closeRequest (s : State) (k : ℕ) : State :=
  { s with requests := s.requests.eraseIdx k }

/-- A request has read what its check goes by. -/
def State.setRequest (s : State) (k : ℕ) (request : OpenRequest) : State :=
  { s with requests := s.requests.set k request }

/-- The next statement of an open request. -/
def proceed (s : State) (k : ℕ) (drawn : String) (now : ℤ) : Option State :=
  match s.requests[k]? with
  | none => none
  | some pending =>
      match pending.phase with
      | .checking =>
          if s.inHotfixDrift then
            match pending.request with
            | .buildDeploy .. => some (s.setRequest k { pending with phase := .comparing })
            | _ => some (s.closeRequest k)
          else
            some (s.setRequest k
              { pending with phase := .enqueueing, check := some { drift := false, git := true } })
      | .comparing =>
          if s.currentIsGitSync then some (s.closeRequest k)
          else
            some (s.setRequest k
              { pending with phase := .enqueueing, check := some { drift := true, git := false } })
      | .enqueueing =>
          (s.enqueueJob pending.request.job.1 pending.request.job.2 drawn now).map fun t =>
            { t.closeRequest k with
              queued :=
                { jobId := drawn, request := pending.request, check := pending.check } ::
                  t.queued }

def step (s : State) : Action → Option State
  | .work action =>
      if s.mayWork action then
        (JobExecutions.step s.workers action).map fun workers => { s with workers }
      else none
  | .handle i drawn now => handle s i drawn now
  | .request request => beginRequest s request
  | .proceed k drawn now => proceed s k drawn now
  | .promote deployment =>
      if s.deployments.contains deployment then some { s with production := some deployment }
      else none

/-- The project has just been created, and has no jobs yet. -/
structure Initial (s : State) : Prop where
  workers : JobExecutions.machine.init s.workers
  jobs : s.workers.store.jobs = []
  revisions : s.revisions = []
  deployments : s.deployments = []
  production : s.production = none
  handlers : ∀ i, s.handlers i = .starting
  requests : s.requests = []
  queued : s.queued = []
  promotions : s.promotions = []

def machine : Machine State Action where
  init := Initial
  step := step

/-! ## Runs on an empty project -/

/-- A git project with nothing in it. -/
def emptyProject : State where
  workers :=
    { store :=
        { jobs := [], nextSequence := 0, projects := [{ id := "project", deleting := false }]
          deployments := [], runtimeInstances := [] }
      executions := [], sweeps := [], settlements := [] }
  projectId := "project"
  importKind := .git
  revisions := []
  deployments := []
  production := none
  handlers _ := .starting
  requests := []
  queued := []
  promotions := []

theorem emptyProject_initial : Initial emptyProject where
  workers := ⟨List.Pairwise.nil, rfl, rfl, rfl⟩
  jobs := rfl
  revisions := rfl
  deployments := rfl
  production := rfl
  handlers _ := rfl
  requests := rfl
  queued := rfl
  promotions := rfl

/-- An upload that asks for a deployment in production. -/
def uploadOf (sourcePath : String) : Request := .upload sourcePath "cli-upload" true true []

/-- A request comes in and queues its job. -/
def submit (request : Request) (jobId : String) (now : ℤ) : List Action :=
  [.request request, .proceed 0 jobId now]

/-- A worker claims the next job. -/
def claimNext (now : ℤ) : Action := .work (.claim now ⟨none, none⟩ [])

/-- An execution whose handler has ended completes its job. -/
def completeExecution (i : ℕ) (now : ℤ) : List Action :=
  [.work (.operate i (.dispatchEnds true)), .work (.operate i (.clearCredential now false)),
    .work (.operate i (.complete now false))]

/-- The next job is an import, which records a revision and queues a build. -/
def runImport (i : ℕ) (revisionId buildJobId : String) (now : ℤ) : List Action :=
  [claimNext now, .handle i revisionId now, .handle i buildJobId now] ++ completeExecution i now

/-- The next job is a build, which records a deployment and promotes it. -/
def runBuild (i : ℕ) (deploymentId : String) (now : ℤ) : List Action :=
  [claimNext now, .handle i "" now, .handle i deploymentId now, .handle i "" now, .handle i "" now] ++
    completeExecution i now

end Eveland.DeployPipeline
