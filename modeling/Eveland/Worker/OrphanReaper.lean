/-
# The orphan process reaper

A sweep lists the processes of each runtime and asks the store about every one that has the name
of a deployment process. A process that the store knows nothing of is remembered with the time of
the first sweep that found it so, and stopped once it has been that way for the grace period.
Networks that have lost their container are treated alike, in the same memory.

A sweep is over before the next begins. Between any two calls of a sweep the records and the host
change at will, and each call may fail. The state keeps, beside what the code has, what each sweep
found of each process.
-/

import Mathlib.Logic.Function.Basic
import Eveland.Foundations.Machine
import Eveland.Store.RuntimeStore

namespace Eveland.OrphanReaper

open RuntimeStore (RuntimeInstance ActivationLease Store adoptRuntimeInstance)

/-! ## Names and keys -/

inductive RuntimeKind
  | docker
  | systemd
  deriving DecidableEq, Repr

def RuntimeKind.text : RuntimeKind → String
  | .docker => "docker"
  | .systemd => "systemd"

/-- What `.` matches in a regular expression: anything but a line terminator. -/
def isDotChar (c : Char) : Bool :=
  c ≠ '\n' && c ≠ '\r' && c ≠ '\u2028' && c ≠ '\u2029'

/-- `[a-z0-9]`. -/
def isIdChar (c : Char) : Bool := 'a' ≤ c && c ≤ 'z' || '0' ≤ c && c ≤ '9'

/-- `-dep_[a-z0-9]+$`. -/
def isDeploymentSuffix (chars : List Char) : Bool :=
  "-dep_".toList.isPrefixOf chars &&
    (chars.drop 5).length ≠ 0 && (chars.drop 5).all isIdChar

/-- `.+` and the rest of the pattern. -/
def isDeploymentTail (chars : List Char) : Bool :=
  (List.range chars.length).any fun i =>
    i ≠ 0 && (chars.take i).all isDotChar && isDeploymentSuffix (chars.drop i)

/-- `deploymentProcessNamePattern`. -/
def isDeploymentProcessName (name : String) : Bool :=
  "eveland-".toList.isPrefixOf name.toList && isDeploymentTail (name.toList.drop 8)

/-- What a process is remembered under. -/
def processKey (kind : RuntimeKind) (name : String) : String := kind.text ++ ":" ++ name

/-- What a network is remembered under. -/
def networkKey (name : String) : String := "docker-network:" ++ name

/-! ## Records -/

/-- A row of `deployments`. -/
structure Deployment extends RuntimeStore.Deployment where
  containerName : String
  runtimeKind : RuntimeKind
  createdAt : ℤ
  deriving DecidableEq, Repr

/-- `order by created_at desc, id desc`. -/
def Deployment.isLater (first second : Deployment) : Bool :=
  second.createdAt < first.createdAt ||
    first.createdAt = second.createdAt && second.id < first.id

def latest : List Deployment → Option Deployment
  | [] => none
  | row :: rows =>
      match latest rows with
      | none => some row
      | some other => some (if other.isLater row then other else row)

/-- The tables a sweep reads. -/
structure Records where
  deployments : List Deployment
  instances : List RuntimeInstance
  leases : List ActivationLease

namespace Records

variable (records : Records)

def store : Store where
  deployments := records.deployments.map Deployment.toDeployment
  instances := records.instances
  leases := records.leases

def getDeploymentByContainerName (name : String) : Option Deployment :=
  latest (records.deployments.filter fun row => row.containerName = name)

/-- Whether a starting, ready or draining instance is among those of a deployment. -/
def hasLiveInstance (deploymentId : String) : Bool :=
  (records.store.listDeploymentRuntimeInstances deploymentId).any fun row => row.status.isLive

end Records

/-! ## Sweeps -/

/-- A network with the process its container had. -/
structure Network where
  name : String
  processName : String
  deriving DecidableEq, Repr

/-- The call a visit of a process has come to, with the deployment the first one gave it. -/
inductive Stage
  /-- `getDeploymentByContainerName`. -/
  | lookup
  /-- `hasActiveActivationLeases`. -/
  | leases (deployment : Deployment)
  /-- `listDeploymentRuntimeInstances`. -/
  | instances (deployment : Deployment)
  /-- `adoptRuntimeInstance`. -/
  | adopt (deployment : Deployment)
  /-- `appendLog` of the adoption. -/
  | logAdoption (deployment : Deployment)
  /-- `stopProcess`. -/
  | stop (deployment : Option Deployment)
  /-- `appendLog` of the stop. -/
  | logStop (deployment : Deployment)
  deriving DecidableEq, Repr

structure Visit where
  kind : RuntimeKind
  name : String
  stage : Stage
  deriving DecidableEq, Repr

inductive Phase
  /-- The processes of these kinds are still to be listed. -/
  | listing (kinds : List RuntimeKind)
  /-- A process is visited; these names of its kind come next, and then these kinds. -/
  | visiting (visit : Visit) (names : List String) (kinds : List RuntimeKind)
  /-- These networks are next. -/
  | removing (networks : List Network)

structure Sweep where
  now : ℤ
  seenKeys : List String
  phase : Phase
  /-- Whether the visit of a process found it outside the model. -/
  found : RuntimeKind → String → Option Bool

/-- What is kept of a sweep. -/
structure Record where
  now : ℤ
  found : RuntimeKind → String → Option Bool

def Sweep.record (sweep : Sweep) : Record := ⟨sweep.now, sweep.found⟩

/-- The options of the reaper. -/
structure Options where
  graceMs : ℤ
  kinds : List RuntimeKind

/-- The records, the host, the memory of the reaper, the sweeps there have been and the one under
way. -/
structure State where
  records : Records
  processes : RuntimeKind → List String
  networks : List Network
  firstSeenAt : String → Option ℤ
  sweeps : List Record
  sweep : Option Sweep

inductive Action
  /-- The control plane writes its records. -/
  | writeRecords (records : Records)
  /-- Processes of a kind start and end. -/
  | writeProcesses (kind : RuntimeKind) (names : List String)
  | writeNetworks (networks : List Network)
  | begin (now : ℤ)
  /-- The processes of the next kind are listed, or the listing fails. -/
  | listProcesses (fails : Bool)
  /-- The call of a visit returns. An instance it inserts has this id. -/
  | answer (instanceId : String)
  /-- The call of a visit throws. -/
  | throw
  | listNetworks (fails : Bool)
  /-- `removeOrphanDockerNetwork` returns, or throws. -/
  | removeNetwork (removed : Option Bool)
  | finish

/-! ## Visits -/

/-- Whether the model claims a process: its deployment has this kind, and an active lease or a live
instance, or is running or draining. -/
def isClaimed (kind : RuntimeKind) (deployment : Option Deployment) (leased live : Bool) : Bool :=
  match deployment with
  | none => false
  | some deployment => deployment.runtimeKind = kind &&
      (leased || live || deployment.status = .running || deployment.status = .draining)

/-- Whether the model claims the process of a visit. What the visit has asked is as it was
answered, and what it has not asked is as it is now. -/
def Records.claims (records : Records) (now : ℤ) (visit : Visit) : Bool :=
  match visit.stage with
  | .lookup =>
      let deployment := records.getDeploymentByContainerName visit.name
      isClaimed visit.kind deployment
        (deployment.any fun row => records.store.hasActiveActivationLeases row.id now)
        (deployment.any fun row => records.hasLiveInstance row.id)
  | .leases deployment =>
      isClaimed visit.kind (some deployment)
        (records.store.hasActiveActivationLeases deployment.id now)
        (records.hasLiveInstance deployment.id)
  | .instances deployment =>
      isClaimed visit.kind (some deployment) false (records.hasLiveInstance deployment.id)
  | .adopt deployment | .logAdoption deployment =>
      isClaimed visit.kind (some deployment) false false
  | .stop _ | .logStop _ => false

/-- The next process of a kind, or the next kind. -/
def Sweep.proceed (sweep : Sweep) (kind : RuntimeKind) (names : List String)
    (kinds : List RuntimeKind) : Sweep :=
  match names with
  | [] => { sweep with phase := .listing kinds }
  | name :: names =>
      { sweep with
        seenKeys := sweep.seenKeys ++ [processKey kind name]
        phase := .visiting ⟨kind, name, .lookup⟩ names kinds }

/-- What a visit finds of its process. -/
def Sweep.find (sweep : Sweep) (visit : Visit) (outside : Bool) : Sweep :=
  { sweep with
    found := Function.update sweep.found visit.kind
      (Function.update (sweep.found visit.kind) visit.name (some outside)) }

namespace State

variable (s : State)

/-- A visit that goes on to its next call. -/
def goOn (sweep : Sweep) (visit : Visit) (names : List String) (kinds : List RuntimeKind)
    (stage : Stage) : State :=
  { s with sweep := some { sweep with phase := .visiting { visit with stage } names kinds } }

/-- A visit that is over, with the memory as it leaves it. -/
def endVisit (sweep : Sweep) (visit : Visit) (names : List String) (kinds : List RuntimeKind)
    (firstSeenAt : String → Option ℤ) : State :=
  { s with
    firstSeenAt
    sweep := some <| (sweep.find visit (!s.records.claims sweep.now visit)).proceed visit.kind
      names kinds }

/-- `firstSeenAt.delete(key)`. -/
def forget (visit : Visit) : String → Option ℤ :=
  Function.update s.firstSeenAt (processKey visit.kind visit.name) none

/-- The end of `sweepProcess`, for a process outside the model. -/
def outOfModel (options : Options) (sweep : Sweep) (visit : Visit) (names : List String)
    (kinds : List RuntimeKind) (deployment : Option Deployment) : State :=
  let key := processKey visit.kind visit.name
  let firstSeen := (s.firstSeenAt key).getD sweep.now
  let firstSeenAt := Function.update s.firstSeenAt key (some firstSeen)
  if sweep.now - firstSeen < options.graceMs then s.endVisit sweep visit names kinds firstSeenAt
  else { s with
    firstSeenAt
    sweep := some { sweep.find visit (!s.records.claims sweep.now visit) with
      phase := .visiting { visit with stage := .stop deployment } names kinds } }

/-- `sweepProcess`, from one call to the next. -/
def sweepProcess (options : Options) (sweep : Sweep) (visit : Visit) (names : List String)
    (kinds : List RuntimeKind) (instanceId : String) : Option State :=
  match visit.stage with
  | .lookup =>
      match s.records.getDeploymentByContainerName visit.name with
      | none => some (s.outOfModel options sweep visit names kinds none)
      | some deployment =>
          if deployment.runtimeKind = visit.kind then
            some (s.goOn sweep visit names kinds (.leases deployment))
          else some (s.outOfModel options sweep visit names kinds (some deployment))
  | .leases deployment =>
      if s.records.store.hasActiveActivationLeases deployment.id sweep.now then
        some (s.endVisit sweep visit names kinds (s.forget visit))
      else some (s.goOn sweep visit names kinds (.instances deployment))
  | .instances deployment =>
      if s.records.hasLiveInstance deployment.id then
        some (s.endVisit sweep visit names kinds (s.forget visit))
      else if deployment.status = .running ∨ deployment.status = .draining then
        some (s.goOn sweep visit names kinds (.adopt deployment))
      else some (s.outOfModel options sweep visit names kinds (some deployment))
  | .adopt deployment =>
      match adoptRuntimeInstance s.records.store deployment.id deployment.hostPort instanceId
        sweep.now with
      | .error _ => none
      | .ok (_, none) => some (s.endVisit sweep visit names kinds (s.forget visit))
      | .ok (store, some _) =>
          some ({ s with records.instances := store.instances }.goOn sweep visit names kinds
            (.logAdoption deployment))
  | .logAdoption _ => some (s.endVisit sweep visit names kinds (s.forget visit))
  | .stop deployment =>
      let processes := Function.update s.processes visit.kind
        ((s.processes visit.kind).filter fun name => name ≠ visit.name)
      match deployment with
      | none => some ({ s with processes }.endVisit sweep visit names kinds (s.forget visit))
      | some deployment =>
          some ({ s with processes, firstSeenAt := s.forget visit }.goOn sweep visit names kinds
            (.logStop deployment))
  | .logStop _ => some (s.endVisit sweep visit names kinds s.firstSeenAt)

end State

/-! ## Networks -/

/-- A network outside the model, and whether its grace period is over. -/
def firstSeenNetwork (options : Options) (s : State) (sweep : Sweep) (network : Network) :
    (String → Option ℤ) × Bool :=
  let key := networkKey network.name
  let firstSeen := (s.firstSeenAt key).getD sweep.now
  (Function.update s.firstSeenAt key (some firstSeen),
    !decide (sweep.now - firstSeen < options.graceMs))

/-- One round of the loop over the networks. -/
def removeNetwork (options : Options) (s : State) (sweep : Sweep) (network : Network)
    (networks : List Network) (removed : Option Bool) : State :=
  let key := networkKey network.name
  let (firstSeenAt, elapsed) := firstSeenNetwork options s sweep network
  let sweep := { sweep with seenKeys := sweep.seenKeys ++ [key], phase := .removing networks }
  if elapsed ∧ removed = some true then
    { s with firstSeenAt := Function.update firstSeenAt key none, sweep := some sweep }
  else { s with firstSeenAt, sweep := some sweep }

/-! ## Steps -/

def step (options : Options) (s : State) : Action → Option State
  | .writeRecords records => some { s with records }
  | .writeProcesses kind names =>
      some { s with processes := Function.update s.processes kind names }
  | .writeNetworks networks => some { s with networks }
  | .begin now =>
      match s.sweep with
      | some _ => none
      | none => some { s with sweep := some ⟨now, [], .listing options.kinds, fun _ _ => none⟩ }
  | .listProcesses fails =>
      match s.sweep with
      | none => none
      | some sweep =>
          match sweep.phase with
          | .listing (kind :: kinds) =>
              let names := if fails then []
                else (s.processes kind).filter fun name => isDeploymentProcessName name
              some { s with sweep := some (sweep.proceed kind names kinds) }
          | _ => none
  | .answer instanceId =>
      match s.sweep with
      | none => none
      | some sweep =>
          match sweep.phase with
          | .visiting visit names kinds =>
              s.sweepProcess options sweep visit names kinds instanceId
          | _ => none
  | .throw =>
      match s.sweep with
      | none => none
      | some sweep =>
          match sweep.phase with
          | .visiting visit names kinds => some (s.endVisit sweep visit names kinds s.firstSeenAt)
          | _ => none
  | .listNetworks fails =>
      match s.sweep with
      | none => none
      | some sweep =>
          match sweep.phase with
          | .listing [] =>
              let networks := if .docker ∈ options.kinds ∧ ¬ fails then s.networks else []
              some { s with sweep := some { sweep with phase := .removing networks } }
          | _ => none
  | .removeNetwork removed =>
      match s.sweep with
      | none => none
      | some sweep =>
          match sweep.phase with
          | .removing (network :: networks) =>
              some (removeNetwork options s sweep network networks removed)
          | _ => none
  | .finish =>
      match s.sweep with
      | none => none
      | some sweep =>
          match sweep.phase with
          | .removing [] => some { s with
              -- what this sweep has not seen is forgotten
              firstSeenAt := fun key =>
                if sweep.seenKeys.contains key then s.firstSeenAt key else none
              sweeps := s.sweeps ++ [sweep.record]
              sweep := none }
          | _ => none

/-- No sweep has been, and nothing is remembered. -/
structure Initial (s : State) : Prop where
  firstSeenAt : s.firstSeenAt = fun _ => none
  sweeps : s.sweeps = []
  sweep : s.sweep = none

def machine (options : Options) : Machine State Action where
  init := Initial
  step := step options

/-! ## Proven orphans -/

/-- The sweeps up to now, with the present one once it has visited the process. -/
def State.history (s : State) (kind : RuntimeKind) (name : String) : List Record :=
  match s.sweep with
  | none => s.sweeps
  | some sweep =>
      if (sweep.found kind name).isSome then s.sweeps ++ [sweep.record] else s.sweeps

/-- Every sweep from one at this time on has found the process outside the model. -/
def OutsideSince (history : List Record) (kind : RuntimeKind) (name : String) (time : ℤ) : Prop :=
  ∃ before first span, history = before ++ first :: span ∧ first.now = time ∧
    ∀ record ∈ first :: span, record.found kind name = some true

/-- A process that is being stopped has the name of a deployment process, and has been outside the
model at every sweep over a span of the grace period. -/
def StopsProvenOrphans (options : Options) (s : State) : Prop :=
  ∀ sweep visit names kinds deployment, s.sweep = some sweep →
    sweep.phase = .visiting visit names kinds → visit.stage = .stop deployment →
      isDeploymentProcessName visit.name = true ∧
        ∃ time, options.graceMs ≤ sweep.now - time ∧
          OutsideSince (s.history visit.kind visit.name) visit.kind visit.name time

/-- A process that the last sweep has not found, or found in the model, starts from zero. -/
def StartsAgain (s : State) : Prop :=
  ∀ kind name, (∀ last, (s.history kind name).getLast? = some last →
    last.found kind name ≠ some true) → s.firstSeenAt (processKey kind name) = none

end Eveland.OrphanReaper
