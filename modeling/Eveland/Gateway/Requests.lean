/-
# Gateway requests

The life of a request in the gateway, one awaited call after another: the operation and the
session it continues are looked up, a target is resolved, a create-once operation is bound,
the deployment is activated, the request is forwarded, and the session that the upstream
created is bound to the deployment that created it.

A request works with the route it was given when it arrived. That value may come from the
route cache, and the route and its targets are read in two statements, so any number of policy
changes may lie between it and the stored route; every value is possible here.
-/

import Mathlib.Tactic.Common
import Eveland.Core.Deployments
import Eveland.Core.EveRequests
import Eveland.Core.Routing
import Eveland.Foundations.Machine
import Eveland.Foundations.Table

namespace Eveland.Gateway

/-! ## Rows -/

/-- A target of a resolved route. -/
structure Target where
  routeId : String
  deploymentId : String
  weight : ℤ
  variantName : Option String
  hostPort : ℕ
  status : DeploymentStatus
  deriving DecidableEq, Repr

/-- `ResolvedAgentRoute`. -/
structure ResolvedAgentRoute where
  id : String
  projectId : String
  policyRevision : ℕ
  enabled : Bool
  targets : List Target
  deriving DecidableEq, Repr

/-- Where the affinity key of a public request came from. -/
inductive AffinitySource
  | cookie
  | versionKey
  | generated
  deriving DecidableEq, Repr

/-- A row of `session_bindings`. -/
structure SessionBinding where
  projectId : String
  eveSessionId : String
  routeId : String
  deploymentId : String
  variantName : Option String
  experimentId : Option String
  trigger : BindingTrigger
  requestId : String
  remoteIp : Option String
  affinityFingerprint : Option String
  affinitySource : Option AffinitySource
  updatedAt : ℤ
  deriving DecidableEq, Repr

/-- A row of `operation_bindings`. -/
structure OperationBinding where
  projectId : String
  operationKey : String
  routeId : String
  deploymentId : String
  trigger : BindingTrigger
  variantName : Option String
  experimentId : Option String
  updatedAt : ℤ
  deriving DecidableEq, Repr

/-- What the gateway reads of a deployment. -/
structure Deployment where
  id : String
  hostPort : ℕ
  status : DeploymentStatus
  eveVersionSupported : Bool
  deriving DecidableEq, Repr

/-- The unique index `session_bindings_project_eve_idx`. -/
def SessionBinding.key (row : SessionBinding) : String × String :=
  (row.projectId, row.eveSessionId)

/-- The unique index `operation_bindings_project_key_idx`. -/
def OperationBinding.key (row : OperationBinding) : String × String :=
  (row.projectId, row.operationKey)

/-- The tables the gateway reads and writes, as they are committed. -/
structure Store where
  projects : List String
  deployments : List Deployment
  sessionBindings : List SessionBinding
  operationBindings : List OperationBinding

namespace Store

variable (s : Store)

/-- `getDeployment`. -/
def getDeployment (id : String) : Option Deployment := s.deployments.find? fun d => d.id = id

/-- `findSessionBinding`. -/
def findSessionBinding (projectId eveSessionId : String) : Option SessionBinding :=
  s.sessionBindings.find? fun row => row.key = (projectId, eveSessionId)

/-- `findOperationBinding`. -/
def findOperationBinding (projectId operationKey : String) : Option OperationBinding :=
  s.operationBindings.find? fun row => row.key = (projectId, operationKey)

/-- `touchSessionBinding`. -/
def touchSessionBinding (projectId eveSessionId : String) (now : ℤ) : Store :=
  { s with
    sessionBindings := Table.updateWhere (fun row => row.key = (projectId, eveSessionId))
      (fun row => { row with updatedAt := now }) s.sessionBindings }

/-- `touchOperationBinding`. -/
def touchOperationBinding (projectId operationKey : String) (now : ℤ) : Store :=
  { s with
    operationBindings := Table.updateWhere (fun row => row.key = (projectId, operationKey))
      (fun row => { row with updatedAt := now }) s.operationBindings }

/-- The commit of a row that `bindOperation` inserted. -/
def commitOperationBinding (row : OperationBinding) : Store :=
  { s with operationBindings := s.operationBindings ++ [row] }

/-- `bindSession`: the row is inserted, or takes the place of the row with its key. -/
def bindSession (row : SessionBinding) : Store :=
  { s with
    sessionBindings := Table.upsertWhere (fun old => old.key = row.key) (fun _ => row) row
      s.sessionBindings }

/-- The deletion of a project takes its bindings with it. -/
def deleteProject (projectId : String) : Store :=
  { s with
    projects := s.projects.filter fun p => p ≠ projectId
    sessionBindings := s.sessionBindings.filter fun row => row.projectId ≠ projectId
    operationBindings := s.operationBindings.filter fun row => row.projectId ≠ projectId }

/-- A deployment as it is now: new, or with another status. -/
def putDeployment (deployment : Deployment) : Store :=
  { s with
    deployments := Table.upsertWhere (fun d => d.id = deployment.id) (fun _ => deployment)
      deployment s.deployments }

/-- `unsupportedDeploymentResponse`: whether the version gate lets the deployment pass. -/
def supportsDeployment (id : String) : Bool :=
  (s.getDeployment id).any fun d => d.eveVersionSupported

end Store

/-! ## Requests -/

/-- `GatewaySessionProvenance`. -/
inductive Provenance
  | api (requestId : String) (remoteIp : Option String) (fingerprint : String)
      (source : AffinitySource)
  | playground (requestId : String)
  deriving DecidableEq, Repr

/-- `provenance.kind`. -/
def Provenance.kind : Provenance → BindingTrigger
  | .api .. => .api
  | .playground _ => .playground

/-- The options of the gateway. -/
structure Config where
  /-- Whether it has an activation client, and so may wake a stopped deployment. -/
  activationClient : Bool
  idlePolicy : SessionBindingIdlePolicy
  /-- `createOperationKey` under the affinity secret: a keyed digest. -/
  createOperationKey : String → String
  decodeURIComponent : String → Option String

/-- A request as it arrives, with the route found for it. -/
structure Arrival where
  route : ResolvedAgentRoute
  method : String
  pathname : String
  /-- The JSON of its body, where the gateway reads that. -/
  body : Option Json
  targetKey : String
  provenance : Provenance

/-- The Eve operation of a request; a public request may also make an MCP call. -/
def Arrival.eveRequest (config : Config) (a : Arrival) : Option EveSessionRequest :=
  match classifyEveSessionRequest config.decodeURIComponent a.method a.pathname, a.provenance with
  | some request, _ => some request
  | none, .api .. => classifyMcpInvocation a.body
  | none, .playground _ => none

/-- `operationKey`: only a request for a new session has one. -/
def Arrival.operationKey (config : Config) (a : Arrival) : Option String :=
  match a.eveRequest config with
  | some request =>
      if request.kind = .initial then (operationIdFromBody a.body).map config.createOperationKey
      else none
  | none => none

/-- Whether a request gets past the checks made before the bindings are looked up. -/
def Arrival.admitted (config : Config) (a : Arrival) : Bool :=
  a.route.enabled &&
    match a.provenance with
    | .playground _ => (a.eveRequest config).isSome
    | .api .. =>
        !(isWorkflowQueueNamespace a.pathname && !isWorkflowWebhookRoute a.pathname) &&
          !(isEveSessionNamespace a.pathname &&
            (classifyEveSessionRequest config.decodeURIComponent a.method a.pathname).isNone)

/-- What `resolveTarget` reads of a binding. -/
structure RoutingBinding where
  deploymentId : String
  variantName : Option String
  deriving DecidableEq, Repr

def OperationBinding.routing (row : OperationBinding) : RoutingBinding :=
  ⟨row.deploymentId, row.variantName⟩

def SessionBinding.routing (row : SessionBinding) : RoutingBinding :=
  ⟨row.deploymentId, row.variantName⟩

/-- `binding ?? effectiveOperationBinding`. -/
def routingBinding (binding : Option SessionBinding) (operation : Option OperationBinding) :
    Option RoutingBinding :=
  match binding with
  | some row => some row.routing
  | none => operation.map OperationBinding.routing

/-- The statuses in which a bound deployment still answers. -/
def answersBound (allowStopped : Bool) (status : DeploymentStatus) : Bool :=
  status = .running || status = .draining || (allowStopped && status = .stopped)

/-- The statuses in which a deployment takes new sessions. -/
def takesSessions (allowStopped : Bool) (status : DeploymentStatus) : Bool :=
  status = .running || (allowStopped && status = .stopped)

/-- The part of a target that the policy is made of. -/
def Target.input (target : Target) : RouteTargetInput :=
  { deploymentId := target.deploymentId, weight := target.weight,
    variantName := target.variantName }

/-- `resolveTarget`. -/
def resolveTarget (s : Store) (route : ResolvedAgentRoute) (binding : Option RoutingBinding)
    (affinityKey : String) (allowStopped : Bool) : Except String (Option Target) :=
  match binding with
  | some binding =>
      let routed := route.targets.find? fun target =>
        target.deploymentId = binding.deploymentId && answersBound allowStopped target.status
      match routed with
      | some target => .ok (some target)
      | none =>
          .ok (((s.getDeployment binding.deploymentId).filter fun deployment =>
            answersBound allowStopped deployment.status).map fun deployment =>
              { routeId := route.id, deploymentId := deployment.id, weight := 0,
                variantName := binding.variantName, hostPort := deployment.hostPort,
                status := deployment.status })
  | none =>
      let eligible := route.targets.filter fun target => takesSessions allowStopped target.status
      if eligible.length = 0 then .ok none
      -- The weights that are left do not total what a selection needs.
      else if eligible.length < route.targets.length then .ok eligible.head?
      else selectWeightedTarget Target.input eligible affinityKey
        (some (route.id, route.policyRevision))

/-- `routeExperimentId`. -/
def routeExperimentId (route : ResolvedAgentRoute) : Option String :=
  if route.targets.length > 1 then some s!"{route.id}:r{route.policyRevision}" else none

/-- An upstream response. Its body is the JSON object that the gateway reads off a JSON
response or an event stream; one it does not read, or that is too long, has none. -/
structure UpstreamResponse where
  status : ℕ
  /-- The header `x-eve-session-id`. -/
  eveSessionId : Option String
  body : Option Json

/-- `upstream.ok`. -/
def UpstreamResponse.ok (upstream : UpstreamResponse) : Bool :=
  200 ≤ upstream.status && upstream.status ≤ 299

/-- The session that `applyGatewaySessionResponse` binds: the one a successful response to a
request that creates sessions names. -/
def createdSession (request : Option EveSessionRequest) (upstream : UpstreamResponse) :
    Option String :=
  match request with
  | some request =>
      if upstream.ok && request.kind.creates then
        let eveSessionId :=
          if request.kind = .mcpStart then upstream.body.bind mcpInvocationIdFromValue
          else upstream.eveSessionId.or (getEveString upstream.body "sessionId")
        eveSessionId.filter fun id => id ≠ ""
      else none
  | none => none

/-- The row `bindOperation` inserts. -/
def operationRow (a : Arrival) (operationKey : String) (target : Target) (now : ℤ) :
    OperationBinding :=
  { projectId := a.route.projectId, operationKey, routeId := a.route.id,
    deploymentId := target.deploymentId, trigger := a.provenance.kind,
    variantName := target.variantName, experimentId := routeExperimentId a.route,
    updatedAt := now }

/-- The row `bindSession` is called with: the target of the request, under the names of the
operation binding it holds, and `bindingProvenance`. -/
def sessionRow (a : Arrival) (operation : Option OperationBinding) (target : Target)
    (eveSessionId : String) (now : ℤ) : SessionBinding :=
  let row : SessionBinding :=
    { projectId := a.route.projectId, eveSessionId
      routeId := (operation.map fun row => row.routeId).getD a.route.id
      deploymentId := target.deploymentId
      variantName := (operation.map fun row => row.variantName).getD target.variantName
      experimentId := (operation.map fun row => row.experimentId).getD (routeExperimentId a.route)
      trigger := a.provenance.kind, requestId := "", remoteIp := none
      affinityFingerprint := none, affinitySource := none, updatedAt := now }
  match a.provenance with
  | .api requestId remoteIp fingerprint source =>
      { row with requestId, remoteIp, affinityFingerprint := some fingerprint,
                 affinitySource := some source }
  | .playground requestId => { row with requestId }

@[simp]
theorem sessionRow_key (a : Arrival) (operation : Option OperationBinding) (target : Target)
    (eveSessionId : String) (now : ℤ) :
    (sessionRow a operation target eveSessionId now).key = (a.route.projectId, eveSessionId) := by
  unfold sessionRow
  cases a.provenance <;> rfl

@[simp]
theorem sessionRow_projectId (a : Arrival) (operation : Option OperationBinding)
    (target : Target) (eveSessionId : String) (now : ℤ) :
    (sessionRow a operation target eveSessionId now).projectId = a.route.projectId :=
  congrArg Prod.fst (sessionRow_key a operation target eveSessionId now)

@[simp]
theorem sessionRow_deploymentId (a : Arrival) (operation : Option OperationBinding)
    (target : Target) (eveSessionId : String) (now : ℤ) :
    (sessionRow a operation target eveSessionId now).deploymentId = target.deploymentId := by
  unfold sessionRow
  cases a.provenance <;> rfl

/-! ## Steps -/

/-- The call a request is at. An operation binding it carries is the one it is held to. -/
inductive Phase
  | findOperation
  | touchOperation (operationKey : String)
  | findSession (operation : Option OperationBinding)
  | touchSession (operation : Option OperationBinding) (found : SessionBinding)
  | resolve (operation : Option OperationBinding) (binding : Option SessionBinding)
  | gate (operation : Option OperationBinding) (target : Target)
  /-- `bindOperation`, its insert. -/
  | insertOperation (operationKey : String) (target : Target)
  /-- `bindOperation` has inserted its row. -/
  | commitOperation (target : Target) (row : OperationBinding)
  /-- `bindOperation` met a conflict. -/
  | selectOperation (operationKey : String) (target : Target)
  | activate (operation : Option OperationBinding) (target : Target)
  | forward (operation : Option OperationBinding) (target : Target) (port : ℕ)
  | await (operation : Option OperationBinding) (target : Target)
  | bindSession (operation : Option OperationBinding) (target : Target) (eveSessionId : String)
  | done (status : ℕ)

/-- The row that a request has inserted and not committed. -/
def Phase.uncommitted : Phase → Option OperationBinding
  | .commitOperation _ row => some row
  | _ => none

structure Request where
  arrival : Arrival
  phase : Phase

/-- What the environment answers, or the time at which the next call is made. -/
inductive Move
  | next (now : ℤ)
  | activated (endpointPort : ℕ)
  | respond (upstream : UpstreamResponse)
  /-- The call rejects, or the client leaves; a transaction of the call is rolled back. -/
  | fail (status : ℕ)

/-- A request handed to an upstream. -/
structure Forward where
  projectId : String
  operationKey : Option String
  deploymentId : String
  port : ℕ
  deriving DecidableEq, Repr

/-- What one step of a request leaves behind. -/
structure StepResult where
  store : Store
  phase : Phase
  committed : Option OperationBinding := none
  forwarded : Option Forward := none

/-- A step that neither commits an operation binding nor forwards. -/
def StepResult.to (store : Store) (phase : Phase) : StepResult := { store, phase }

@[simp]
theorem StepResult.to_store (s : Store) (phase : Phase) : (StepResult.to s phase).store = s := rfl

@[simp]
theorem StepResult.to_phase (s : Store) (phase : Phase) :
    (StepResult.to s phase).phase = phase := rfl

@[simp]
theorem StepResult.to_committed (s : Store) (phase : Phase) :
    (StepResult.to s phase).committed = none := rfl

@[simp]
theorem StepResult.to_forwarded (s : Store) (phase : Phase) :
    (StepResult.to s phase).forwarded = none := rfl

/-- What follows once `bindOperation` has returned the stored row. -/
def afterClaim (target : Target) (claimed : OperationBinding) : Phase :=
  if claimed.deploymentId ≠ target.deploymentId then .resolve (some claimed) none
  else .activate (some claimed) target

/-- What follows once the target has passed the version gate. -/
def afterGate (config : Config) (a : Arrival) (operation : Option OperationBinding)
    (target : Target) : Phase :=
  match a.operationKey config, operation with
  | some operationKey, none => .insertOperation operationKey target
  | _, operation => .activate operation target

/-- What follows where no binding has the session a request names: the playground refuses
it, the public path passes it on. -/
def afterUnknownSession (a : Arrival) (operation : Option OperationBinding) : Phase :=
  match a.provenance with
  | .playground _ => .done 404
  | .api .. => .resolve operation none

/-- What follows a lookup of a binding: a missing one, an idle one, or one to touch. -/
def afterLookup (config : Config) {ρ : Type} (found : Option ρ) (trigger : ρ → BindingTrigger)
    (updatedAt : ρ → ℤ) (now : ℤ) (missing : Phase) (active : ρ → Phase) : Phase :=
  match found with
  | none => missing
  | some row =>
      match isSessionBindingActive (trigger row) (updatedAt row) now config.idlePolicy with
      | .error _ => .done 500
      | .ok false => .done 410
      | .ok true => active row

/-- One step of a request, where `conflicting` says whether another transaction has inserted
the operation's row and not ended: the insert waits for it. -/
def advance (config : Config) (s : Store) (conflicting : String × String → Bool) (a : Arrival) :
    Phase → Move → Option StepResult
  | .done _, _ => none
  | _, .fail status => some (.to s (.done status))
  -- `resolveGatewayOperationBinding`
  | .findOperation, .next now =>
      match a.operationKey config with
      | none => some (.to s (.findSession none))
      | some operationKey =>
          some <| .to s <|
            afterLookup config (s.findOperationBinding a.route.projectId operationKey)
              (fun row => row.trigger) (fun row => row.updatedAt) now (.findSession none)
              fun _ => .touchOperation operationKey
  | .touchOperation operationKey, .next now =>
      let s := s.touchOperationBinding a.route.projectId operationKey now
      match s.findOperationBinding a.route.projectId operationKey with
      | none => some (.to s (.done 410))
      | some touched => some (.to s (.findSession (some touched)))
  -- `resolveGatewaySessionBinding`
  | .findSession operation, .next now =>
      match (a.eveRequest config).bind fun request => request.sessionId with
      | none => some (.to s (.resolve operation none))
      | some eveSessionId =>
          some <| .to s <|
            afterLookup config (s.findSessionBinding a.route.projectId eveSessionId)
              (fun row => row.trigger) (fun row => row.updatedAt) now
              (afterUnknownSession a operation) (.touchSession operation)
  | .touchSession operation found, .next now =>
      let s := s.touchSessionBinding a.route.projectId found.eveSessionId now
      match s.findSessionBinding a.route.projectId found.eveSessionId with
      | none => some (.to s (.done 410))
      | some _ => some (.to s (.resolve operation (some found)))
  -- `executeGatewaySessionProxy`
  | .resolve operation binding, .next _ =>
      match resolveTarget s a.route (routingBinding binding operation) a.targetKey
          config.activationClient with
      | .error _ => some (.to s (.done 500))
      | .ok none => some (.to s (.done 503))
      | .ok (some target) => some (.to s (.gate operation target))
  | .gate operation target, .next _ =>
      if s.supportsDeployment target.deploymentId then
        some (.to s (afterGate config a operation target))
      else some (.to s (.done 409))
  | .insertOperation operationKey target, .next now =>
      if conflicting (a.route.projectId, operationKey) then none
      else
        match s.findOperationBinding a.route.projectId operationKey with
        | some _ => some (.to s (.selectOperation operationKey target))
        | none =>
            if s.projects.contains a.route.projectId then
              some (.to s (.commitOperation target (operationRow a operationKey target now)))
            else some (.to s (.done 500))
  | .commitOperation target row, .next _ =>
      some { store := s.commitOperationBinding row, phase := afterClaim target row,
             committed := some row }
  | .selectOperation operationKey target, .next _ =>
      match s.findOperationBinding a.route.projectId operationKey with
      | none => some (.to s (.done 500))
      | some claimed => some (.to s (afterClaim target claimed))
  | .activate operation target, .next _ =>
      if config.activationClient then none
      else some (.to s (.forward operation target target.hostPort))
  | .activate operation target, .activated endpointPort =>
      if config.activationClient then
        some (.to s (.forward operation target endpointPort))
      else none
  | .forward operation target port, .next _ =>
      some { store := s, phase := .await operation target,
             forwarded := some
               { projectId := a.route.projectId, operationKey := a.operationKey config,
                 deploymentId := target.deploymentId, port } }
  | .await operation target, .respond upstream =>
      match createdSession (a.eveRequest config) upstream with
      | none => some (.to s (.done upstream.status))
      | some eveSessionId => some (.to s (.bindSession operation target eveSessionId))
  | .bindSession operation target eveSessionId, .next now =>
      if s.projects.contains a.route.projectId then
        some { store := s.bindSession (sessionRow a operation target eveSessionId now),
               phase := .done 200 }
      else some (.to s (.done 500))
  | _, _ => none

/-- The store, the requests, and what has happened so far: the operation bindings that were
committed, first to last, and the requests that reached an upstream. -/
structure State where
  store : Store
  requests : List Request
  commits : List OperationBinding
  forwards : List Forward

/-- A request arrives or takes a step; a deployment changes; a project is deleted. -/
inductive Action
  | arrive (arrival : Arrival)
  | request (index : ℕ) (move : Move)
  | putDeployment (deployment : Deployment)
  | deleteProject (projectId : String)

namespace State

variable (s : State)

/-- Whether a transaction has inserted an operation binding with this key and not ended. -/
def inserting (key : String × String) : Bool :=
  s.requests.any fun request => request.phase.uncommitted.any fun row => row.key = key

/-- Whether a transaction holds a row that refers to the project. -/
def refersTo (projectId : String) : Bool :=
  s.requests.any fun request => request.phase.uncommitted.any fun row =>
    row.projectId = projectId

/-- The state after a step of the request at an index. -/
def commit (index : ℕ) (arrival : Arrival) (result : StepResult) : State :=
  { store := result.store
    requests := s.requests.set index { arrival, phase := result.phase }
    commits := s.commits ++ result.committed.toList
    forwards := s.forwards ++ result.forwarded.toList }

end State

/-- What an action does. A project waits for the transactions that refer to it before it is
deleted. -/
def step (config : Config) (s : State) : Action → Option State
  | .arrive arrival =>
      if arrival.admitted config then
        some { s with requests := s.requests ++ [{ arrival, phase := .findOperation }] }
      else none
  | .request index move =>
      s.requests[index]?.bind fun request =>
        (advance config s.store s.inserting request.arrival request.phase move).map
          (s.commit index request.arrival)
  | .putDeployment deployment => some { s with store := s.store.putDeployment deployment }
  | .deleteProject projectId =>
      if s.refersTo projectId then none
      else some { s with store := s.store.deleteProject projectId }

/-- The gateway of one store, from its first request on. -/
def machine (config : Config) : Machine State Action where
  init s := s.requests = [] ∧ s.commits = [] ∧ s.forwards = [] ∧
    s.store.sessionBindings = [] ∧ s.store.operationBindings = []
  step := step config

/-! ## A small gateway -/

/-- A gateway that may wake stopped deployments. -/
def sampleConfig : Config :=
  { activationClient := true, idlePolicy := {}
    createOperationKey := fun operationId => "hmac-sha256-" ++ operationId
    decodeURIComponent := some }

/-- A route at one revision of its policy, with one running target. -/
def sampleRoute (policyRevision : ℕ) (deploymentId : String) : ResolvedAgentRoute :=
  { id := "route", projectId := "project", policyRevision, enabled := true
    targets := [⟨"route", deploymentId, 10000, none, 4000, .running⟩] }

/-- A request of the playground for a new session. -/
def sampleArrival (route : ResolvedAgentRoute) (requestId : String) (body : Option Json) :
    Arrival :=
  { route, method := "POST", pathname := "/eve/v1/session", body, targetKey := "key"
    provenance := .playground requestId }

/-- One project with two deployments, and no request yet. -/
def sampleState : State :=
  { store :=
      { projects := ["project"]
        deployments := [⟨"old", 4000, .running, true⟩, ⟨"new", 4000, .running, true⟩]
        sessionBindings := [], operationBindings := [] }
    requests := [], commits := [], forwards := [] }

end Eveland.Gateway
