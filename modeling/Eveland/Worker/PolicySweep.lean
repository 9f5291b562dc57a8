/-
# The observability policy and the files that carry it

An administrator saves a new revision of the policy. Each deployment has a policy file, which
its observer reads. The reconciler goes through the deployments once for each revision it has
not applied yet, and writes their files; a launch reads the policy once and writes the file of
its own deployment later. A build writes the file before the deployment is recorded.

There is one reconciler, and it has at most one run. Launches overlap it and each other at will,
and other parties write the status of a deployment at any time.
-/

import Eveland.Core.Deployments
import Eveland.Foundations.Machine
import Eveland.Foundations.Table

namespace Eveland.PolicySweep

/-! ## State -/

/-- A row of `deployments`. -/
structure Deployment where
  id : String
  projectId : String
  status : DeploymentStatus
  deriving DecidableEq, Repr

/-- The statuses the reconciler writes files for. -/
def isLiveStatus : DeploymentStatus → Bool
  | .starting | .running | .draining => true
  | _ => false

/-- What a launch starts: a deployment that is yet to be recorded, or one that is there. -/
inductive LaunchKind
  | build
  | existing
  deriving DecidableEq, Repr

/-- How far a launch has come. -/
inductive LaunchPhase
  | begun
  /-- `getObservabilityPolicy` has answered with this revision. -/
  | read (revision : ℕ)
  /-- `writeAgentRuntimePolicy` has renamed its file. -/
  | written
  /-- `recordDeployment` has inserted the row. -/
  | recorded
  deriving DecidableEq, Repr

/-- A launch that is in progress. -/
structure Launch where
  kind : LaunchKind
  projectId : String
  deploymentId : String
  phase : LaunchPhase
  deriving DecidableEq, Repr

/-- Where a run of the reconciler stands. -/
inductive Sweep
  | idle
  /-- It has read a revision that is not the applied one. -/
  | read (revision : ℕ)
  /-- It has these projects left to list, and these of the deployments it has listed last. -/
  | sweeping (revision : ℕ) (projects deployments : List String)
  deriving DecidableEq, Repr

/-- The revision a run goes through the deployments with. -/
def Sweep.revision : Sweep → Option ℕ
  | .idle => none
  | .read revision => some revision
  | .sweeping revision _ _ => some revision

/-- The policy, the rows, the policy files, the launches and the reconciler. -/
structure State where
  revision : ℕ
  projects : List String
  deployments : List Deployment
  /-- The revision in the policy file of a deployment. -/
  files : String → Option ℕ
  launches : List Launch
  appliedRevision : Option ℕ
  sweep : Sweep

inductive Action
  /-- `saveObservabilityPolicy`. -/
  | save (expectedRevision : ℕ)
  | createProject (projectId : String)
  /-- A `build_deploy` job begins, with the id its deployment will have. -/
  | beginBuild (projectId deploymentId : String)
  /-- A restart or an activation of a deployment begins. -/
  | beginLaunch (deploymentId : String)
  | readPolicy (launch : ℕ)
  | writePolicy (launch : ℕ)
  | recordDeployment (launch : ℕ)
  | settleStatus (launch : ℕ) (status : DeploymentStatus)
  /-- A launch returns or throws. -/
  | endLaunch (launch : ℕ)
  /-- Another party writes the status of a deployment. -/
  | setStatus (deploymentId : String) (status : DeploymentStatus)
  /-- A run of the reconciler reads the policy. -/
  | reconcile
  | listProjects
  | listDeployments
  /-- The run writes the file of the next deployment. -/
  | deliver
  /-- The run is through. -/
  | finish
  /-- The run throws. -/
  | abort

/-! ## Steps -/

namespace State

variable (s : State)

def getDeployment (deploymentId : String) : Option Deployment :=
  s.deployments.find? fun deployment => deployment.id = deploymentId

/-- `writeAgentRuntimePolicy`. -/
def writeFile (deploymentId : String) (revision : ℕ) : State :=
  { s with files := Function.update s.files deploymentId (some revision) }

/-- `transitionDeploymentStatus`. -/
def transitionDeploymentStatus (deploymentId : String) (target : DeploymentStatus)
    (sources : List DeploymentStatus) : State :=
  { s with
    deployments := Table.updateWhere
      (fun d => d.id = deploymentId && sources.contains d.status)
      (fun d => { d with status := target }) s.deployments }

/-- `settleDeploymentStatus`. -/
def settleDeploymentStatus (deploymentId : String) (status : DeploymentStatus) : State :=
  s.transitionDeploymentStatus deploymentId status [.running, .stopped, .failed]

/-- `updateDeploymentStatus`. -/
def updateDeploymentStatus (deploymentId : String) (status : DeploymentStatus) : State :=
  { s with
    deployments := Table.updateWhere (fun d => d.id = deploymentId)
      (fun d => { d with status }) s.deployments }

/-- The deployments of a project the reconciler goes on to. -/
def listLiveDeployments (projectId : String) : List String :=
  (s.deployments.filter fun d => d.projectId = projectId && isLiveStatus d.status).map
    Deployment.id

/-- The row of a deployment that a build has started. -/
def insertDeployment (deploymentId projectId : String) : State :=
  { s with deployments := s.deployments ++ [⟨deploymentId, projectId, .running⟩] }

/-- A launch moves on. -/
def setPhase (k : ℕ) (launch : Launch) (phase : LaunchPhase) : State :=
  { s with launches := s.launches.set k { launch with phase } }

end State

/-- The next statement of a launch that reads the policy. -/
def readPolicy (s : State) (k : ℕ) : Option State :=
  match s.launches[k]? with
  | none => none
  | some launch =>
      if launch.phase = .begun then some (s.setPhase k launch (.read s.revision)) else none

/-- The next statement of a launch that writes the policy file. -/
def writePolicy (s : State) (k : ℕ) : Option State :=
  match s.launches[k]? with
  | none => none
  | some launch =>
      match launch.phase with
      | .read revision =>
          some ((s.writeFile launch.deploymentId revision).setPhase k launch .written)
      | _ => none

/-- A build that has started its process records the deployment. -/
def recordDeployment (s : State) (k : ℕ) : Option State :=
  match s.launches[k]? with
  | none => none
  | some launch =>
      if launch.kind = .build ∧ launch.phase = .written then
        some ((s.insertDeployment launch.deploymentId launch.projectId).setPhase k launch .recorded)
      else none

/-- A restart or an activation that has started its process, or failed, writes the status. -/
def settleStatus (s : State) (k : ℕ) (status : DeploymentStatus) : Option State :=
  match s.launches[k]? with
  | none => none
  | some launch =>
      if launch.kind = .existing ∧
          (status = .running ∧ launch.phase = .written ∨ status = .stopped) then
        some (s.settleDeploymentStatus launch.deploymentId status)
      else none

def step (s : State) : Action → Option State
  | .save expectedRevision =>
      some (if s.revision = expectedRevision then { s with revision := s.revision + 1 } else s)
  | .createProject projectId => some { s with projects := s.projects ++ [projectId] }
  | .beginBuild projectId deploymentId =>
      if projectId ∈ s.projects ∧ s.deployments.all (fun d => d.id ≠ deploymentId) ∧
          s.launches.all (fun launch => launch.deploymentId ≠ deploymentId) then
        some { s with launches := s.launches ++ [⟨.build, projectId, deploymentId, .begun⟩] }
      else none
  | .beginLaunch deploymentId =>
      match s.getDeployment deploymentId with
      | none => none
      | some deployment =>
          -- a launch that lost the race to an archive must not resurrect the deployment
          if deployment.status = .archiving ∨ deployment.status = .archived then none
          else some { s with
            launches := s.launches ++ [⟨.existing, deployment.projectId, deploymentId, .begun⟩] }
  | .readPolicy k => readPolicy s k
  | .writePolicy k => writePolicy s k
  | .recordDeployment k => recordDeployment s k
  | .settleStatus k status => settleStatus s k status
  | .endLaunch k =>
      if k < s.launches.length then some { s with launches := s.launches.eraseIdx k } else none
  | .setStatus deploymentId status => some (s.updateDeploymentStatus deploymentId status)
  | .reconcile =>
      match s.sweep with
      | .idle =>
          -- a revision that is applied ends the run at once
          if s.appliedRevision = some s.revision then some s
          else some { s with sweep := .read s.revision }
      | _ => none
  | .listProjects =>
      match s.sweep with
      | .read revision => some { s with sweep := .sweeping revision s.projects [] }
      | _ => none
  | .listDeployments =>
      match s.sweep with
      | .sweeping revision (projectId :: projects) [] =>
          some { s with sweep := .sweeping revision projects (s.listLiveDeployments projectId) }
      | _ => none
  | .deliver =>
      match s.sweep with
      | .sweeping revision projects (deploymentId :: deployments) =>
          some { s.writeFile deploymentId revision with
            sweep := .sweeping revision projects deployments }
      | _ => none
  | .finish =>
      match s.sweep with
      | .sweeping revision [] [] => some { s with appliedRevision := some revision, sweep := .idle }
      | _ => none
  | .abort => if s.sweep = .idle then none else some { s with sweep := .idle }

/-- Nothing is in progress, and the reconciler has applied nothing yet. -/
structure Initial (s : State) : Prop where
  launches : s.launches = []
  applied : s.appliedRevision = none
  sweep : s.sweep = .idle
  projects : ∀ row ∈ s.deployments, row.projectId ∈ s.projects

def machine : Machine State Action where
  init := Initial
  step := step

/-- Whenever a complete run of the reconciler has followed the last revision and no launch is in
progress, the policy file of every deployment that is starting, running or draining carries that
revision. -/
def PolicyReaches (s : State) : Prop :=
  s.appliedRevision = some s.revision → s.launches = [] →
    ∀ row ∈ s.deployments, isLiveStatus row.status = true → s.files row.id = some s.revision

end Eveland.PolicySweep
