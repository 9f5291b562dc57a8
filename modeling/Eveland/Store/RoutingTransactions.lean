/-
# Routing transactions, drains and archives

The calls that give deployments their traffic, statement by statement as they run under READ
COMMITTED, beside the two parties that take deployments out of it: the request that drains
one, and the job that archives one. Both of these read the routes first and the targets of
one route after the other, and write the status of the deployment in a later statement.

What a transaction writes is seen at its commit. A statement that would wait for another
transaction goes on here, and what it would have met is met at the commit: a target that
another transaction has removed is gone, and a key that another one has taken makes the call
throw. A call may also be rolled back at any point, and a party may stop between any two of
its statements.
-/

import Eveland.Store.RoutingStore

namespace Eveland.RoutingTransactions

open Outcome (ensure require)
open RoutingStore (Project Deployment AgentRoute RouteKind RouteTarget)

/-! ## Calls -/

/-- The calls that write targets. `routeId` is the identifier a new alias route draws. -/
inductive RoutingCall
  | promoteDeployment (projectId deploymentId : String)
  | updateRouteTargets (routeId : String) (targets : List RouteTargetInput)
  | ensureAliasRoute (projectId label baseDomain : String) (targets : List RouteTargetInput)
      (routeId : String)
  deriving DecidableEq

/-- The targets a call writes. -/
def RoutingCall.targets : RoutingCall → List RouteTargetInput
  | .promoteDeployment _ deploymentId => [RoutingStore.wholeWeight deploymentId]
  | .updateRouteTargets _ targets => targets
  | .ensureAliasRoute _ _ _ targets _ => targets

/-- The route a call is going to write to: one it has read, or the one it will find, or not
find, under a hostname. -/
inductive Destination
  | route (route : AgentRoute)
  | hostname (projectId hostname : String)
  deriving DecidableEq

/-- How far a call is. `isNew` says that it inserts the route. -/
inductive Phase
  | begun
  | checking (destination : Destination) (pending : List RouteTargetInput)
  | deleting (route : AgentRoute) (isNew : Bool)
  | committing (route : AgentRoute) (isNew : Bool) (removed : List ℕ)
  | ended
  deriving DecidableEq

/-- A running call. -/
structure Transaction where
  call : RoutingCall
  phase : Phase
  deriving DecidableEq

/-! ## Drains and archives -/

/-- `listProjectRoutes` under way: the routes whose targets are still to be read, and whether
one read so far holds the deployment. -/
structure Reading where
  remaining : List AgentRoute
  hit : Bool
  deriving DecidableEq

/-- How far a drain request is. -/
inductive DrainPhase
  | begun
  | found (projectId : String)
  | reading (reading : Reading)
  | ended
  deriving DecidableEq

/-- A request to drain a deployment. -/
structure Drain where
  projectId : String
  deploymentId : String
  phase : DrainPhase
  deriving DecidableEq

/-- How far an archive job is. Once it has claimed the deployment it knows the status to
hand back. -/
inductive ArchivePhase
  | begun
  | found (status : DeploymentStatus)
  | claimed (priorStatus : DeploymentStatus)
  | reading (priorStatus : DeploymentStatus) (reading : Reading)
  | removing (priorStatus : DeploymentStatus)
  | reverting (priorStatus : DeploymentStatus)
  | ended
  deriving DecidableEq

/-- An execution of a job that archives a deployment. -/
structure Archive where
  projectId : String
  deploymentId : String
  automatic : Bool
  phase : ArchivePhase
  deriving DecidableEq

/-- What the environment answers an archive job: whether the statement or the host call it is
at throws, and whether the deployment is protected by something other than its routes. -/
structure ArchiveChoice where
  throws : Bool
  protectedOtherwise : Bool
  deriving DecidableEq

/-! ## State -/

/-- A committed row of `route_targets` and its row version. -/
structure StoredTarget where
  target : RouteTarget
  version : ℕ
  deriving DecidableEq

/-- The committed tables and the parties. -/
structure State where
  projects : List Project
  deployments : List Deployment
  routes : List AgentRoute
  targets : List StoredTarget
  nextVersion : ℕ
  transactions : List Transaction
  drains : List Drain
  archives : List Archive

/-- The committed tables as the routing store reads them. -/
def State.store (s : State) : RoutingStore.Store :=
  { projects := s.projects, deployments := s.deployments, routes := s.routes,
    targets := s.targets.map StoredTarget.target }

/-- The targets of a route. -/
def State.targetsOf (s : State) (routeId : String) : List StoredTarget :=
  s.targets.filter fun stored => stored.target.routeId = routeId

/-- `updateDeploymentStatus`. -/
def State.updateDeploymentStatus (s : State) (deploymentId : String) (status : DeploymentStatus) :
    State :=
  { s with
    deployments := Table.updateWhere (fun d => d.id = deploymentId)
      (fun d => { d with status }) s.deployments }

/-- The deployment has one of these statuses. -/
def State.hasStatus (s : State) (deploymentId : String) (sources : List DeploymentStatus) : Bool :=
  s.deployments.any fun d => d.id = deploymentId && sources.contains d.status

/-- `transitionDeploymentStatus`: a compare-and-swap, which changes the status only where it
is one of those expected. -/
def State.transitionDeploymentStatus (s : State) (deploymentId : String)
    (target : DeploymentStatus) (sources : List DeploymentStatus) : State :=
  { s with
    deployments := Table.updateWhere (fun d => d.id = deploymentId && sources.contains d.status)
      (fun d => { d with status := target }) s.deployments }

/-! ## Transactions -/

/-- The check a call makes of one target, reading its deployment. -/
def checkTarget (s : State) (call : RoutingCall) (projectId : String)
    (target : RouteTargetInput) : Except String Unit :=
  match call with
  | .promoteDeployment .. => do
      let deployment ← require (s.store.findOwn projectId target)
        "Deployment does not belong to this project."
      ensure (deployment.status = .running)
        s!"A promoted deployment must be running, but this one is {deployment.status.text}."
  | .updateRouteTargets .. => RoutingStore.checkRouteTarget s.store projectId target
  | .ensureAliasRoute .. => RoutingStore.checkAliasTarget s.store projectId target

/-- The first statement of a call: what it reads to know its destination. -/
def locate (s : State) : RoutingCall → Except String Destination
  | .promoteDeployment projectId _ => do
      let route ← require (s.store.findStable projectId) "Project route not found."
      pure (.route route)
  | .updateRouteTargets routeId targets => do
      validateRouteTargets targets
      let route ← require (s.routes.find? fun r => r.id = routeId) "Agent route not found."
      ensure (route.kind ≠ .deployment) "Deployment preview routes are immutable."
      pure (.route route)
  | .ensureAliasRoute projectId label baseDomain targets _ => do
      validateRouteTargets targets
      ensure (isAlias label) "Alias must be a DNS-safe label."
      let project ← require (s.store.findProject projectId) "Project not found."
      let domain ← normalizeBaseDomain baseDomain
      pure (.hostname project.id (labelledHostname label project.slug domain))

/-- The project a destination belongs to. -/
def Destination.projectId : Destination → String
  | .route found => found.projectId
  | .hostname projectId _ => projectId

/-- The identifier a call gives a route it inserts. -/
def RoutingCall.newRouteId : RoutingCall → String
  | .ensureAliasRoute _ _ _ _ routeId => routeId
  | _ => ""

/-- The route a call writes to once all its targets are checked; an alias looks for one under
its hostname and inserts it where there is none. -/
def arrive (s : State) (call : RoutingCall) : Destination → Phase
  | .route route => .deleting route false
  | .hostname projectId hostname =>
      match s.routes.find? fun r => r.hostname = hostname with
      | some existing => .deleting existing false
      | none => .deleting
          { id := call.newRouteId, projectId, hostname, kind := .aliased, enabled := true,
            policyRevision := 1 } true

/-- The next statement of a call, up to its commit. -/
def Transaction.next (s : State) (tx : Transaction) : Option (Except String Phase) :=
  match tx.phase with
  | .begun => some ((locate s tx.call).map fun destination =>
      .checking destination tx.call.targets)
  | .checking destination [] => some (.ok (arrive s tx.call destination))
  | .checking destination (target :: rest) =>
      some ((checkTarget s tx.call destination.projectId target).map fun _ =>
        .checking destination rest)
  | .deleting route isNew =>
      some (.ok (.committing route isNew ((s.targetsOf route.id).map StoredTarget.version)))
  | .committing .. => none
  | .ended => none

/-- The route of a committing call: inserted, or given a new policy revision. -/
def writeRoute (s : State) (call : RoutingCall) (route : AgentRoute) (isNew : Bool) :
    Except String (List AgentRoute) :=
  if isNew then do
    ensure (s.routes.all fun r => r.id ≠ route.id) "duplicate agent_routes id"
    ensure (s.routes.all fun r => r.hostname ≠ route.hostname) "agent_routes_hostname_idx"
    pure (s.routes ++ [route])
  else
    let enables := match call with
      | .ensureAliasRoute .. => true
      | _ => false
    pure (Table.updateWhere (fun r => r.id = route.id)
      (fun r => { r with enabled := enables || r.enabled, policyRevision := r.policyRevision + 1 })
      s.routes)

/-- The commit: the targets that were removed are gone, those of the call are there, and so is
what the call wrote to its route. -/
def commitTargets (s : State) (call : RoutingCall) (route : AgentRoute) (isNew : Bool)
    (removed : List ℕ) : Except String State := do
  let kept := s.targets.filter fun stored => !removed.contains stored.version
  let routes ← writeRoute s call route isNew
  let _ ← RoutingStore.insertTargets { s.store with targets := kept.map StoredTarget.target }
    route.id call.targets
  pure { s with
    routes
    targets := kept ++ call.targets.map fun target =>
      ⟨RouteTarget.ofInput route.id target, s.nextVersion⟩
    nextVersion := s.nextVersion + 1 }

/-! ## Reading the routes -/

/-- The first statement of `listProjectRoutes`. -/
def startReading (s : State) (projectId : String) : Reading :=
  ⟨s.routes.filter fun r => r.projectId = projectId, false⟩

/-- The statement that reads the targets of the next route. Previews do not count. -/
def readRoute (s : State) (counts : RouteTarget → Bool) (route : AgentRoute)
    (rest : List AgentRoute) (hit : Bool) : Reading :=
  ⟨rest, hit || (route.kind ≠ .deployment &&
    (s.targetsOf route.id).any fun stored => counts stored.target)⟩

/-- What a drain request looks for: a target that gives the deployment weight. -/
def givesWeight (deploymentId : String) (target : RouteTarget) : Bool :=
  target.deploymentId = deploymentId && target.weight > 0

/-- What the retention check looks for: a target, whatever its weight. -/
def isTarget (deploymentId : String) (target : RouteTarget) : Bool :=
  target.deploymentId = deploymentId

/-- The next statement of a drain request. -/
def Drain.next (s : State) (drain : Drain) : Option (State × DrainPhase) :=
  match drain.phase with
  | .begun =>
      match s.store.findDeployment drain.deploymentId with
      | none => some (s, .ended)
      | some deployment =>
          if deployment.projectId = drain.projectId then some (s, .found deployment.projectId)
          else some (s, .ended)
  | .found projectId => some (s, .reading (startReading s projectId))
  | .reading ⟨route :: rest, hit⟩ =>
      some (s, .reading (readRoute s (givesWeight drain.deploymentId) route rest hit))
  | .reading ⟨[], hit⟩ =>
      if hit then some (s, .ended)
      else some (s.updateDeploymentStatus drain.deploymentId .draining, .ended)
  | .ended => none

/-- `AUTOMATIC_CLAIMABLE` and `MANUAL_CLAIMABLE`. -/
def claimableStatuses (automatic : Bool) : List DeploymentStatus :=
  if automatic then [.stopped, .archiving]
  else [.running, .draining, .stopped, .failed, .archiving]

/-- The next statement of `handleArchiveDeploymentJob`. -/
def Archive.next (s : State) (job : Archive) (choice : ArchiveChoice) :
    Option (State × ArchivePhase) :=
  match job.phase with
  | .begun =>
      if choice.throws then some (s, .ended)
      else match s.store.findDeployment job.deploymentId with
        | none => some (s, .ended)
        | some deployment =>
            if deployment.projectId = job.projectId &&
                (claimableStatuses job.automatic).contains deployment.status then
              some (s, .found deployment.status)
            else some (s, .ended)
  | .found status =>
      if !choice.throws && s.hasStatus job.deploymentId [status] then
        some (s.transitionDeploymentStatus job.deploymentId .archiving [status],
          .claimed (if status = .archiving then .stopped else status))
      else some (s, .ended)
  | .claimed priorStatus =>
      if choice.throws then some (s, .reverting priorStatus)
      else some (s, .reading priorStatus (startReading s job.projectId))
  | .reading priorStatus ⟨route :: rest, hit⟩ =>
      if choice.throws then some (s, .reverting priorStatus)
      else some (s, .reading priorStatus
        (readRoute s (isTarget job.deploymentId) route rest hit))
  | .reading priorStatus ⟨[], hit⟩ =>
      if choice.throws || hit || choice.protectedOtherwise then some (s, .reverting priorStatus)
      else some (s, .removing priorStatus)
  | .removing priorStatus =>
      -- The host calls, and then the last write of the job.
      if !choice.throws && s.hasStatus job.deploymentId [.archiving] then
        some (s.transitionDeploymentStatus job.deploymentId .archived [.archiving], .ended)
      else some (s, .reverting priorStatus)
  | .reverting priorStatus =>
      if choice.throws then some (s, .ended)
      else some (s.transitionDeploymentStatus job.deploymentId priorStatus [.archiving], .ended)
  | .ended => none

/-! ## Histories -/

/-- A party starts, goes on by a statement, or stops. -/
inductive Action
  | call (call : RoutingCall)
  | statement (index : ℕ)
  | commit (index : ℕ)
  | rollback (index : ℕ)
  | requestDrain (projectId deploymentId : String)
  | drain (index : ℕ)
  | stopDrain (index : ℕ)
  | archiveJob (projectId deploymentId : String) (automatic : Bool)
  | archive (index : ℕ) (choice : ArchiveChoice)
  | stopArchive (index : ℕ)
  deriving DecidableEq

/-- A transaction is at another point. -/
def State.setPhase (s : State) (index : ℕ) (tx : Transaction) (phase : Phase) : State :=
  { s with transactions := s.transactions.set index { tx with phase } }

/-- The effect of an action. -/
def step (s : State) : Action → Option State
  | .call call => some { s with transactions := s.transactions ++ [⟨call, .begun⟩] }
  | .statement index =>
      s.transactions[index]?.bind fun tx => (tx.next s).map fun
        | .ok phase => s.setPhase index tx phase
        | .error _ => s.setPhase index tx .ended
  | .commit index =>
      s.transactions[index]?.bind fun tx =>
        match tx.phase with
        | .committing route isNew removed =>
            match commitTargets s tx.call route isNew removed with
            | .ok t => some (t.setPhase index tx .ended)
            | .error _ => some (s.setPhase index tx .ended)
        | _ => none
  | .rollback index =>
      s.transactions[index]?.map fun tx => s.setPhase index tx .ended
  | .requestDrain projectId deploymentId =>
      some { s with drains := s.drains ++ [⟨projectId, deploymentId, .begun⟩] }
  | .drain index =>
      s.drains[index]?.bind fun drain => (drain.next s).map fun result =>
        { result.1 with drains := s.drains.set index { drain with phase := result.2 } }
  | .stopDrain index =>
      s.drains[index]?.map fun drain =>
        { s with drains := s.drains.set index { drain with phase := .ended } }
  | .archiveJob projectId deploymentId automatic =>
      some { s with archives := s.archives ++ [⟨projectId, deploymentId, automatic, .begun⟩] }
  | .archive index choice =>
      s.archives[index]?.bind fun job => (job.next s choice).map fun result =>
        { result.1 with archives := s.archives.set index { job with phase := result.2 } }
  | .stopArchive index =>
      s.archives[index]?.map fun job =>
        { s with archives := s.archives.set index { job with phase := .ended } }

/-! ## Traffic -/

/-- The target is one of a project or alias route. -/
def State.OnPublicRoute (s : State) (target : RouteTarget) : Prop :=
  ∃ route ∈ s.routes, route.id = target.routeId ∧ route.kind ≠ .deployment

/-- Some project or alias route gives the deployment weight. -/
def State.Weighted (s : State) (deploymentId : String) : Prop :=
  ∃ stored ∈ s.targets, givesWeight deploymentId stored.target = true ∧
    s.OnPublicRoute stored.target

/-- No deployment that has weight is draining or archived. -/
def TrafficServed (s : State) : Prop :=
  ∀ deployment ∈ s.deployments, s.Weighted deployment.id →
    deployment.status ≠ .draining ∧ deployment.status ≠ .archived

/-- No call, request or job is in progress. -/
def Quiescent (s : State) : Prop :=
  (∀ tx ∈ s.transactions, tx.phase = .ended) ∧ (∀ drain ∈ s.drains, drain.phase = .ended) ∧
    ∀ job ∈ s.archives, job.phase = .ended

/-- The tables of one project, whose targets belong to its routes and whose traffic is served,
and no party. -/
structure State.Initial (s : State) : Prop where
  oneProject : ∃ projectId, (∀ project ∈ s.projects, project.id = projectId) ∧
    (∀ deployment ∈ s.deployments, deployment.projectId = projectId) ∧
    ∀ route ∈ s.routes, route.projectId = projectId
  routeKeys : Table.UniqueOn AgentRoute.id s.routes
  deploymentKeys : Table.UniqueOn Deployment.id s.deployments
  references : ∀ stored ∈ s.targets, ∃ route ∈ s.routes, route.id = stored.target.routeId
  served : TrafficServed s
  idle : s.transactions = [] ∧ s.drains = [] ∧ s.archives = []

/-- The parties over the tables of one project. -/
def machine : Machine State Action where
  init := State.Initial
  step := step

end Eveland.RoutingTransactions
