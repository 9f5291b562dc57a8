/-
# Environment changes and the runtimes they are meant for

The requests that write the environment of a project or the shared one, and the jobs that start
processes with it. A request writes, then lists the deployments that are running or draining, and
queues a restart of each. A build, a restart or an activation reads the environment once, in two
statements, and starts its process later; a build records its deployment only afterwards.

Executions are those of the job workers, so a job can be recovered and run again while an earlier
execution of it goes on. What other parties do to the status of a deployment, and that a process
ends, happens at any time.
-/

import Eveland.Api.SharedEnvironment
import Eveland.Core.Deployments
import Eveland.Worker.JobExecutions

namespace Eveland.EnvironmentChanges

open JobStore JobExecutions SharedEnvironment

/-! ## Environments -/

/-- What a launch hands to its process, save what the platform reserves: the secrets of the
project and the shared entries, in the order in which they are assigned. -/
structure LaunchEnvironment where
  secrets : List (String × String)
  shared : List (String × String)
  deriving DecidableEq, Repr

/-- A property of an object whose properties were assigned in this order. -/
def property (assigned : List (String × String)) (key : String) : Option String :=
  assigned.reverse.lookup key

namespace LaunchEnvironment

/-- `mergeRuntimeEnvironment`: the project's own value of a key, or else the shared one. -/
def value (e : LaunchEnvironment) (key : String) : Option String :=
  (property e.secrets key).or (property e.shared key)

/-- The keys that are assigned. -/
def keys (e : LaunchEnvironment) : List String := (e.secrets ++ e.shared).map Prod.fst

/-- The two environments have the same values. -/
def agrees (e f : LaunchEnvironment) : Bool :=
  (e.keys ++ f.keys).all fun key => e.value key = f.value key

theorem property_eq_none {assigned : List (String × String)} {key : String}
    (hkey : key ∉ assigned.map Prod.fst) : property assigned key = none := by
  rw [property, List.lookup_eq_none_iff]
  intro entry hentry
  have hmem : entry.1 ∈ assigned.map Prod.fst :=
    List.mem_map_of_mem (List.mem_reverse.mp hentry)
  have hne : key ≠ entry.1 := by
    rintro rfl
    exact hkey hmem
  simpa using hne

theorem value_eq_none {e : LaunchEnvironment} {key : String} (hkey : key ∉ e.keys) :
    e.value key = none := by
  rw [keys, List.map_append, List.mem_append, not_or] at hkey
  rw [value, property_eq_none hkey.1, property_eq_none hkey.2, Option.or_none]

theorem agrees_iff {e f : LaunchEnvironment} :
    e.agrees f = true ↔ ∀ key, e.value key = f.value key := by
  simp only [agrees, List.all_eq_true, decide_eq_true_eq]
  constructor
  · intro hagrees key
    by_cases hkey : key ∈ e.keys ++ f.keys
    · exact hagrees key hkey
    · rw [List.mem_append, not_or] at hkey
      rw [value_eq_none hkey.1, value_eq_none hkey.2]
  · exact fun hagrees key _ => hagrees key

theorem agrees_refl (e : LaunchEnvironment) : e.agrees e = true :=
  agrees_iff.mpr fun _ => rfl

end LaunchEnvironment

/-! ## Rows -/

/-- A row of `secrets`. -/
structure SecretRow where
  id : String
  projectId : String
  key : String
  kind : EntryKind
  encryptedValue : String
  deriving DecidableEq, Repr

/-- A row of `deployments`. -/
structure Deployment where
  id : String
  projectId : String
  status : DeploymentStatus
  deriving DecidableEq, Repr

/-- What the API and the workers run on: encryption, with the decryption of a stored value. -/
structure Platform extends SharedEnvironment.Platform where
  decryptSecretValue : String → String

/-- What a launch has settled on. -/
structure Launch where
  projectId : String
  deploymentId : String
  environment : LaunchEnvironment
  deriving DecidableEq, Repr

/-! ## Requests -/

/-- The requests that write an environment, as they have passed their checks, with the values
encrypted and the ids drawn. -/
inductive Request
  | upsertSecret (projectId id : String) (entry : Entry)
  | upsertSecrets (projectId : String) (entries : List (String × Entry))
  | updateSecret (projectId secretId key : String) (kind : EntryKind)
      (encryptedValue : Option String)
  | deleteSecret (projectId secretId : String)
  | saveShared (entries : List EntryInput)

/-- Where a request is. `restarting` holds the projects whose deployments are still to be listed,
and the deployments whose restart is still to be queued. -/
inductive RequestPhase
  | received
  | saving (previousRevision : ℕ) (entries : List Entry)
  | listingProjects
  | restarting (projects : List String) (targets : List (String × String))
  deriving DecidableEq, Repr

structure OpenRequest where
  request : Request
  phase : RequestPhase

/-- The reason that its restarts carry. -/
def Request.reason : Request → String
  | .saveShared _ => "shared_agent_environment_changed"
  | _ => "secret_changed"

/-- `upsertSecret`. -/
def upsertSecret (rows : List SecretRow) (projectId id : String) (entry : Entry) :
    List SecretRow :=
  Table.upsertWhere (fun row => row.projectId = projectId && row.key = entry.key)
    (fun row => { row with kind := entry.kind, encryptedValue := entry.encryptedValue })
    { id, projectId, key := entry.key, kind := entry.kind, encryptedValue := entry.encryptedValue }
    rows

/-- `upsertSecrets`, with the id that is drawn for each entry. -/
def upsertSecrets (rows : List SecretRow) (projectId : String) (entries : List (String × Entry)) :
    List SecretRow :=
  entries.foldl (fun rows entry => upsertSecret rows projectId entry.1 entry.2) rows

/-- `updateSecret`; none where there is no such row, or another one has the key. -/
def updateSecret (rows : List SecretRow) (projectId secretId key : String) (kind : EntryKind)
    (encryptedValue : Option String) : Option (List SecretRow) :=
  if rows.any (fun row => row.projectId = projectId && row.id = secretId) &&
      !(rows.any fun row => row.projectId = projectId && row.id ≠ secretId && row.key = key) then
    some (Table.updateWhere (fun row => row.projectId = projectId && row.id = secretId)
      (fun row =>
        { row with key, kind, encryptedValue := encryptedValue.getD row.encryptedValue }) rows)
  else none

/-- `deleteSecret`; none where there is no such row. -/
def deleteSecret (rows : List SecretRow) (projectId secretId : String) : Option (List SecretRow) :=
  if rows.any fun row => row.projectId = projectId && row.id = secretId then
    some (rows.filter fun row => !(row.projectId = projectId && row.id = secretId))
  else none

/-- The project whose secrets a request writes, and the rows afterwards. -/
def Request.writeSecrets (rows : List SecretRow) : Request → Option (String × List SecretRow)
  | .upsertSecret projectId id entry =>
      some (projectId, EnvironmentChanges.upsertSecret rows projectId id entry)
  | .upsertSecrets projectId entries =>
      some (projectId, EnvironmentChanges.upsertSecrets rows projectId entries)
  | .updateSecret projectId secretId key kind encryptedValue =>
      (EnvironmentChanges.updateSecret rows projectId secretId key kind encryptedValue).map
        fun rows => (projectId, rows)
  | .deleteSecret projectId secretId =>
      (EnvironmentChanges.deleteSecret rows projectId secretId).map fun rows => (projectId, rows)
  | .saveShared _ => none

/-! ## Handlers -/

/-- Where the handler of an execution that launches a process is. -/
inductive Handler
  | starting
  /-- The secrets of the project are read, the shared record is not. -/
  | composing (projectId deploymentId : String) (secrets : List (String × String))
  | composed (launch : Launch)
  /-- A restart has stopped the process that it replaces. -/
  | replacing (launch : Launch)
  | launched (launch : Launch)
  | healthy (launch : Launch)
  /-- A build has recorded its deployment. -/
  | recorded (launch : Launch)
  /-- The process that was started is about to be stopped. -/
  | cleaning (launch : Launch)
  /-- A restart that has failed is about to settle the status. -/
  | settling (launch : Launch)
  | ended
  deriving DecidableEq, Repr

/-- The next thing a handler does, with what its environment answers. -/
inductive Move
  /-- The checks at the start, up to the secrets of the project. `drawn` is the id of a build's
  deployment, `current` the deployment in production. -/
  | read (drawn : String) (current : Option String)
  | readShared
  | stop
  /-- `reuses` says that `ensureProcess` finds the process live on its port. -/
  | start (reuses : Bool)
  /-- The instance of an activation is ready already. -/
  | findReady
  | awaitHealth
  | record
  | settle
  | finish
  | throw
  | cleanUp (stops : Bool)
  deriving DecidableEq, Repr

/-- The tables, the job workers, the live processes, and where handlers and requests are. -/
structure State where
  workers : System
  secrets : List SecretRow
  shared : Option Row
  deployments : List Deployment
  processes : List Launch
  handlers : ℕ → Handler
  requests : List OpenRequest

inductive Action
  /-- A step of a worker, of a sweep or of another process. -/
  | work (action : JobExecutions.Action)
  | handle (execution : ℕ) (move : Move)
  | request (request : Request)
  /-- The next statement of an open request that is neither of the following. -/
  | proceed (request : ℕ)
  /-- A request lists the deployments of a project. -/
  | list (request : ℕ) (projectId : String)
  /-- A request queues a restart. -/
  | enqueue (request : ℕ) (target : String × String) (jobId : String) (now : ℤ)
  /-- The process of a deployment ends, or is stopped by another party. -/
  | exit (deploymentId : String)
  /-- Another party writes the status of a deployment. -/
  | setStatus (deploymentId : String) (status : DeploymentStatus)

/-- The types of the jobs that launch a process. -/
def launchJobTypes : List JobType :=
  [.buildDeploy, .restartDeployment, .ensureDeploymentRunning, .triggerSchedule]

/-- The job launches a process. -/
def launches (type : Option JobType) : Bool := type.any launchJobTypes.contains

/-- `job.payload.deploymentId`. -/
def targetOf (execution : Execution) : Option String := execution.payload.fieldText "deploymentId"

namespace State

section Reads

variable (P : Platform) (s : State)

/-- `readRuntimeSecrets`. -/
def readRuntimeSecrets (projectId : String) : List (String × String) :=
  (s.secrets.filter fun row => row.projectId = projectId).map fun row =>
    (row.key, P.decryptSecretValue row.encryptedValue)

/-- `readSharedAgentEnvironmentValues`, of the stored record. -/
def readSharedAgentEnvironmentValues : List (String × String) :=
  ((P.readRecord s.shared).map Row.entries |>.getD []).map fun entry =>
    (entry.key, P.decryptSecretValue entry.encryptedValue)

/-- The environment of a project as it is stored. -/
def environment (projectId : String) : LaunchEnvironment :=
  { secrets := s.readRuntimeSecrets P projectId
    shared := s.readSharedAgentEnvironmentValues P }

end Reads

variable (s : State)

def setHandler (i : ℕ) (handler : Handler) : State :=
  { s with handlers := Function.update s.handlers i handler }

/-- The process of the deployment is live. -/
def isLive (deploymentId : String) : Bool :=
  s.processes.any fun process => process.deploymentId = deploymentId

/-- `stopProcess`. -/
def stopProcess (deploymentId : String) : State :=
  { s with processes := s.processes.filter fun process => process.deploymentId ≠ deploymentId }

/-- A process is started, in place of one that may be there. -/
def startProcess (launch : Launch) : State :=
  { s with
    processes := launch :: s.processes.filter fun process =>
      process.deploymentId ≠ launch.deploymentId }

def getDeployment (deploymentId : String) : Option Deployment :=
  s.deployments.find? fun deployment => deployment.id = deploymentId

/-- `transitionDeploymentStatus`. -/
def transitionDeploymentStatus (deploymentId : String) (target : DeploymentStatus)
    (sources : List DeploymentStatus) : State :=
  { s with
    deployments := Table.updateWhere
      (fun d => d.id = deploymentId && sources.contains d.status)
      (fun d => { d with status := target }) s.deployments }

/-- `settleDeploymentStatus`. -/
def settleDeploymentStatus (deploymentId : String) (status : DeploymentStatus) : State :=
  s.transitionDeploymentStatus deploymentId status [.running, .stopped, .failed]

/-- `updateDeploymentStatus`. -/
def updateDeploymentStatus (deploymentId : String) (status : DeploymentStatus) : State :=
  { s with
    deployments := Table.updateWhere (fun d => d.id = deploymentId)
      (fun d => { d with status }) s.deployments }

/-- The deployments of a project that a write is to restart. -/
def listLiveDeployments (projectId : String) : List (String × String) :=
  (s.deployments.filter fun d =>
    d.projectId = projectId && (d.status = .running || d.status = .draining)).map fun d =>
      (projectId, d.id)

/-- The project of the job that is executed. -/
def projectOf (execution : Execution) : Option String :=
  (s.workers.store.findJob execution.jobId).map JobRow.projectId

def setRequest (k : ℕ) (request : OpenRequest) (phase : RequestPhase) : State :=
  { s with requests := s.requests.set k { request with phase } }

def closeRequest (k : ℕ) : State :=
  { s with requests := s.requests.eraseIdx k }

/-- A step of the workers that is not one of a launching handler. -/
def mayWork : JobExecutions.Action → Bool
  | .operate i (.replacePayload type _ _) =>
      match s.workers.executions[i]? with
      | some execution => !launches execution.type && execution.type = some type
      | none => false
  | .operate i (.dispatchEnds _) =>
      match s.workers.executions[i]? with
      | some execution => !launches execution.type || s.handlers i = .ended
      | none => false
  | _ => true

end State

/-- The deployment that a restart is of: the one its payload names, or the one in production. -/
def restartTarget (execution : Execution) (current : Option String) : Option String :=
  (targetOf execution).or current

/-- The deployment that a restart or an activation may go on with: it is of the job's project, and
neither archived nor being archived. -/
def State.admits (s : State) (execution : Execution) (target : Option String) :
    Option (String × String) :=
  match target.bind s.getDeployment, s.projectOf execution with
  | some deployment, some projectId =>
      if deployment.projectId = projectId && deployment.status ≠ .archiving &&
          deployment.status ≠ .archived then
        some (projectId, deployment.id)
      else none
  | _, _ => none

section Steps

variable (P : Platform)

/-- A handler reads the secrets of the project. -/
def readSecrets (s : State) (i : ℕ) (projectId deploymentId : String) : State :=
  s.setHandler i (.composing projectId deploymentId (s.readRuntimeSecrets P projectId))

/-- A handler reads the shared record, which completes `composeDeploymentEnv`. -/
def readShared (s : State) (i : ℕ) (projectId deploymentId : String)
    (secrets : List (String × String)) : State :=
  s.setHandler i (.composed
    { projectId, deploymentId
      environment := { secrets, shared := s.readSharedAgentEnvironmentValues P } })

/-- The next statement of `handleBuildDeployJob`. Between reading the environment and the start
lies the build. -/
def handleBuild (s : State) (i : ℕ) (execution : Execution) : Handler → Move → Option State
  | .starting, .read drawn _ =>
      (s.projectOf execution).map fun projectId => readSecrets P s i projectId drawn
  | .composing projectId deploymentId secrets, .readShared =>
      some (readShared P s i projectId deploymentId secrets)
  | .composed launch, .start _ =>
      if s.isLive launch.deploymentId then none
      else some ((s.startProcess launch).setHandler i (.launched launch))
  | .launched launch, .awaitHealth => some (s.setHandler i (.healthy launch))
  | .healthy launch, .record =>
      if (s.getDeployment launch.deploymentId).isSome then none
      else
        some { s.setHandler i (.recorded launch) with
          deployments :=
            { id := launch.deploymentId, projectId := launch.projectId, status := .running } ::
              s.deployments }
  | .recorded _, .finish => some (s.setHandler i .ended)
  | .starting, .throw | .composing .., .throw | .composed _, .throw => some (s.setHandler i .ended)
  | .launched launch, .throw | .healthy launch, .throw | .recorded launch, .throw =>
      some (s.setHandler i (.cleaning launch))
  | .cleaning launch, .cleanUp stops =>
      some ((if stops then s.stopProcess launch.deploymentId else s).setHandler i .ended)
  | _, _ => none

/-- The next statement of `handleRestartDeploymentJob`. It may throw at each, before it has
stopped the process or after. -/
def handleRestart (s : State) (i : ℕ) (execution : Execution) : Handler → Move → Option State
  | .starting, .read _ current =>
      match s.admits execution (restartTarget execution current) with
      | some (projectId, deploymentId) => some (readSecrets P s i projectId deploymentId)
      | none => some (s.setHandler i .ended)
  | .composing projectId deploymentId secrets, .readShared =>
      some (readShared P s i projectId deploymentId secrets)
  | .composed launch, .stop =>
      some ((s.stopProcess launch.deploymentId).setHandler i (.replacing launch))
  | .replacing launch, .start _ =>
      if s.isLive launch.deploymentId then none
      else some ((s.startProcess launch).setHandler i (.launched launch))
  | .launched launch, .awaitHealth => some (s.setHandler i (.healthy launch))
  | .healthy launch, .settle =>
      some ((s.settleDeploymentStatus launch.deploymentId .running).setHandler i .ended)
  | .starting, .throw | .composing .., .throw | .composed _, .throw | .healthy _, .throw
  | .settling _, .throw => some (s.setHandler i .ended)
  | .replacing launch, .throw => some (s.setHandler i (.settling launch))
  | .launched launch, .throw => some (s.setHandler i (.cleaning launch))
  | .cleaning launch, .cleanUp stops =>
      some ((if stops then s.stopProcess launch.deploymentId else s).setHandler i
        (.settling launch))
  | .settling launch, .settle =>
      some ((s.settleDeploymentStatus launch.deploymentId .stopped).setHandler i .ended)
  | _, _ => none

/-- The next statement of an activation: `handleEnsureDeploymentRunningJob`, or the part of
`handleTriggerScheduleJob` that is one, which ends by writing the status whatever it is. It may
give up at each statement, and then leaves a process that it has started. -/
def handleActivation (s : State) (i : ℕ) (execution : Execution) : Handler → Move → Option State
  | .starting, .read _ _ =>
      match s.admits execution (targetOf execution) with
      | some (projectId, deploymentId) => some (readSecrets P s i projectId deploymentId)
      | none => some (s.setHandler i .ended)
  | .composing projectId deploymentId secrets, .readShared =>
      some (readShared P s i projectId deploymentId secrets)
  | .composed launch, .findReady => some (s.setHandler i (.healthy launch))
  | .composed launch, .start reuses =>
      if reuses && s.isLive launch.deploymentId then some (s.setHandler i (.launched launch))
      else some ((s.startProcess launch).setHandler i (.launched launch))
  | .launched launch, .awaitHealth => some (s.setHandler i (.healthy launch))
  | .healthy launch, .settle =>
      some ((if execution.type = some .triggerSchedule then
          s.updateDeploymentStatus launch.deploymentId .running
        else s.settleDeploymentStatus launch.deploymentId .running).setHandler i .ended)
  | .starting, .throw | .composing .., .throw | .composed _, .throw | .launched _, .throw
  | .healthy _, .throw => some (s.setHandler i .ended)
  | _, _ => none

/-- The handler of an execution goes on. -/
def handle (s : State) (i : ℕ) (move : Move) : Option State :=
  match s.workers.executions[i]? with
  | none => none
  | some execution =>
      if execution.phase = .working then
        match execution.type with
        | some .buildDeploy => handleBuild P s i execution (s.handlers i) move
        | some .restartDeployment => handleRestart P s i execution (s.handlers i) move
        | some .ensureDeploymentRunning | some .triggerSchedule =>
            handleActivation P s i execution (s.handlers i) move
        | _ => none
      else none

/-- The next statement of an open request, up to the list of the projects; and its answer. -/
def proceed (s : State) (k : ℕ) : Option State :=
  match s.requests[k]? with
  | none => none
  | some pending =>
      match pending.phase with
      | .received =>
          match pending.request with
          | .saveShared entries =>
              match P.resolve (P.readRecord s.shared) entries with
              | none => some (s.closeRequest k)
              | some entries =>
                  some (s.setRequest k pending
                    (.saving ((P.readRecord s.shared).map Row.revision |>.getD 0) entries))
          | request =>
              match request.writeSecrets s.secrets with
              | none => some (s.closeRequest k)
              | some (projectId, secrets) =>
                  some { s.setRequest k pending (.restarting [projectId] []) with secrets }
      | .saving previousRevision entries =>
          let saved := P.save s.shared entries
          if saved.revision = previousRevision then
            some { s.closeRequest k with shared := some saved }
          else some { s.setRequest k pending .listingProjects with shared := some saved }
      | .listingProjects =>
          some (s.setRequest k pending
            (.restarting (s.workers.store.projects.map JobStore.Project.id) []))
      | .restarting [] [] => some (s.closeRequest k)
      | .restarting .. => none

/-- A request lists the deployments of one of its projects. -/
def list (s : State) (k : ℕ) (projectId : String) : Option State :=
  match s.requests[k]? with
  | none => none
  | some pending =>
      match pending.phase with
      | .restarting projects targets =>
          if projects.contains projectId then
            some (s.setRequest k pending
              (.restarting (projects.erase projectId)
                (targets ++ s.listLiveDeployments projectId)))
          else none
      | _ => none

/-- The payload of a restart. -/
def restartPayload (deploymentId reason : String) : Json :=
  .obj [("deploymentId", .str deploymentId), ("reason", .str reason)]

/-- A request queues one of its restarts, once it has listed all deployments. -/
def enqueue (s : State) (k : ℕ) (target : String × String) (jobId : String) (now : ℤ) :
    Option State :=
  match s.requests[k]? with
  | none => none
  | some pending =>
      match pending.phase with
      | .restarting [] targets =>
          if targets.contains target then
            (JobStore.enqueueJob s.workers.store target.1 .restartDeployment
              (restartPayload target.2 pending.request.reason) jobId now).toOption.map fun store =>
                { s.setRequest k pending (.restarting [] (targets.erase target)) with
                  workers := { s.workers with store } }
          else none
      | _ => none

def step (s : State) : Action → Option State
  | .work action =>
      if s.mayWork action then
        (JobExecutions.step s.workers action).map fun workers => { s with workers }
      else none
  | .handle i move => handle P s i move
  | .request request => some { s with requests := s.requests ++ [{ request, phase := .received }] }
  | .proceed k => proceed P s k
  | .list k projectId => list s k projectId
  | .enqueue k target jobId now => enqueue s k target jobId now
  | .exit deploymentId => some (s.stopProcess deploymentId)
  | .setStatus deploymentId status => some (s.updateDeploymentStatus deploymentId status)

/-- The process was started with the environment that is stored now. -/
def State.isCurrent (s : State) (process : Launch) : Bool :=
  process.environment.agrees (s.environment P process.projectId)

/-- Nothing is under way, and every live process has the environment that is stored. -/
structure Initial (s : State) : Prop where
  workers : JobExecutions.machine.init s.workers
  jobs : s.workers.store.jobs = []
  handlers : ∀ i, s.handlers i = .starting
  requests : s.requests = []
  processes : ∀ process ∈ s.processes, s.isCurrent P process = true

def machine : Machine State Action where
  init := Initial P
  step := step P

/-- No job is queued or running, and no request is open. Activations are jobs, so none of them is
in progress either. -/
def State.isQuiet (s : State) : Bool :=
  s.workers.store.jobs.all (fun row => !JobStatus.isOpen row.status) && s.requests.isEmpty

/-- Whenever everything is quiet, each live process was started with the values that are stored
for its project. -/
def EnvironmentsReach (s : State) : Prop :=
  s.isQuiet = true → ∀ process ∈ s.processes, ∀ key,
    process.environment.value key = (s.environment P process.projectId).value key

end Steps

end Eveland.EnvironmentChanges
