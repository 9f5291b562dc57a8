/-
# Deployment and runtime statuses

The states of a deployment and of the runtime instances that serve it, with the texts
stored for them.
-/

import Mathlib.Tactic.Common

namespace Eveland

/-- The states of a deployment. -/
inductive DeploymentStatus
  | notDeployed
  | building
  | starting
  | running
  | draining
  | stopped
  | archiving
  | archived
  | failed
  deriving DecidableEq, Repr

/-- The stored text of a status. -/
def DeploymentStatus.text : DeploymentStatus → String
  | .notDeployed => "not_deployed"
  | .building => "building"
  | .starting => "starting"
  | .running => "running"
  | .draining => "draining"
  | .stopped => "stopped"
  | .archiving => "archiving"
  | .archived => "archived"
  | .failed => "failed"

/-- The states of a runtime instance. -/
inductive RuntimeInstanceStatus
  | starting
  | ready
  | draining
  | stopped
  | failed
  deriving DecidableEq, Repr

/-- The states in which an instance has, or is getting, a process. -/
def RuntimeInstanceStatus.isLive : RuntimeInstanceStatus → Bool
  | .starting | .ready | .draining => true
  | .stopped | .failed => false

end Eveland
