/-
# The routing store

Agent routes, their targets, and the calls that create and change them, each of them one
transaction run to its commit. Identifiers and deployment keys that a call draws are
arguments of the call; one that is taken makes the call throw.

The parts of `recordDeployment` and `promoteDeployment` that change the project row and
the scheduler target are not the routes' business and are left out here.
-/

import Eveland.Core.Deployments
import Eveland.Core.Ids
import Eveland.Core.Routing
import Eveland.Foundations.Machine
import Eveland.Foundations.Table

namespace Eveland.RoutingStore

open Outcome (ensure require each)

/-! ## Rows -/

/-- A row of `projects`. -/
structure Project where
  id : String
  slug : Slug

/-- A row of `deployments`. -/
structure Deployment where
  id : String
  projectId : String
  deploymentKey : String
  status : DeploymentStatus
  deriving DecidableEq, Repr

/-- What a route is for: a project's stable address, the preview of one deployment, or an
alias. -/
inductive RouteKind
  | project
  | deployment
  | aliased
  deriving DecidableEq, Repr

/-- A row of `agent_routes`. -/
structure AgentRoute where
  id : String
  projectId : String
  hostname : String
  kind : RouteKind
  enabled : Bool
  policyRevision : ℕ
  deriving DecidableEq, Repr

/-- A row of `route_targets`. -/
structure RouteTarget where
  routeId : String
  deploymentId : String
  weight : ℤ
  variantName : Option String
  deriving DecidableEq, Repr

/-- The row of a target a caller gives. -/
def RouteTarget.ofInput (routeId : String) (target : RouteTargetInput) : RouteTarget :=
  { routeId, deploymentId := target.deploymentId, weight := target.weight,
    variantName := target.variantName }

/-- The tables of the routing store. -/
structure Store where
  projects : List Project
  deployments : List Deployment
  routes : List AgentRoute
  targets : List RouteTarget

namespace Store

variable (s : Store)

def findProject (id : String) : Option Project := s.projects.find? fun p => p.id = id

def findDeployment (id : String) : Option Deployment := s.deployments.find? fun d => d.id = id

/-- The targets of a route. -/
def targetsOf (routeId : String) : List RouteTarget :=
  s.targets.filter fun t => t.routeId = routeId

/-- The stable route of a project. -/
def findStable (projectId : String) : Option AgentRoute :=
  s.routes.find? fun r => r.projectId = projectId && r.kind = .project

/-- `previewMatch`: a preview route of the project that has the deployment as a target. -/
def findPreview (projectId deploymentId : String) : Option AgentRoute :=
  s.routes.find? fun r => r.projectId = projectId && r.kind = .deployment &&
    (s.targetsOf r.id).any fun t => t.deploymentId = deploymentId

end Store

/-! ## Projects and deployments -/

/-- The insert into `projects`. -/
def insertProject (s : Store) (projectId : String) (slug : Slug) : Except String Store := do
  ensure (s.projects.all fun p => p.id ≠ projectId) "duplicate projects id"
  ensure (s.projects.all fun p => p.slug ≠ slug) "duplicate projects slug"
  pure { s with projects := s.projects ++ [⟨projectId, slug⟩] }

/-- `createProject`. -/
def createProject (fold : List Char → List Char) (s : Store) (projectId name : String)
    (requireExactSlug : Bool) : Except String Store := do
  let slug ← claimProjectSlug fold name requireExactSlug fun slug =>
    s.projects.any fun p => p.slug = slug
  insertProject s projectId slug

/-- The creation of a project from a preflight, which takes the slug of its name or none. -/
def createProjectFromPreflight (fold : List Char → List Char) (s : Store)
    (projectId name : String) : Except String Store := do
  let slug ← slugifyProjectName fold name
  insertProject s projectId slug

/-- `recordDeployment`, with the key `claimDeploymentKey` ends up with. -/
def recordDeployment (s : Store) (projectId deploymentId deploymentKey : String) :
    Except String Store := do
  ensure (s.projects.any fun p => p.id = projectId) "deployments.project_id references no project"
  ensure (isDeploymentKey deploymentKey) "deployments_key_check"
  ensure (s.deployments.all fun d => d.id ≠ deploymentId) "duplicate deployments id"
  ensure (s.deployments.all fun d =>
    !(d.projectId = projectId && d.deploymentKey = deploymentKey)) "deployments_project_key_idx"
  pure { s with
    deployments := s.deployments ++ [⟨deploymentId, projectId, deploymentKey, .running⟩] }

/-! ## Routes -/

/-- `UPDATE agent_routes ... WHERE id = row.id`, to a row of the same id. -/
def Store.putRoute (s : Store) (row : AgentRoute) : Store :=
  { s with routes := Table.updateWhere (fun r => r.id = row.id) (fun _ => row) s.routes }

/-- The update of a route's hostname and `enabled`. -/
def renameRoute (s : Store) (route : AgentRoute) (hostname : String) :
    Except String (Store × AgentRoute) := do
  ensure (s.routes.all fun r => !(r.id ≠ route.id && r.hostname = hostname))
    "agent_routes_hostname_idx"
  let row := { route with hostname, enabled := true }
  pure (s.putRoute row, row)

/-- The insert of a route. -/
def insertRoute (s : Store) (routeId projectId hostname : String) (kind : RouteKind) :
    Except String (Store × AgentRoute) := do
  ensure (s.routes.all fun r => r.id ≠ routeId) "duplicate agent_routes id"
  ensure (s.routes.all fun r => r.hostname ≠ hostname) "agent_routes_hostname_idx"
  let row : AgentRoute :=
    { id := routeId, projectId, hostname, kind, enabled := true, policyRevision := 1 }
  pure ({ s with routes := s.routes ++ [row] }, row)

/-- A new policy revision of a route. -/
def bumpRevision (s : Store) (route : AgentRoute) : Store :=
  s.putRoute { route with policyRevision := route.policyRevision + 1 }

/-- The insert of targets, under their unique index and their weight check. -/
def insertTargets (s : Store) (routeId : String) (targets : List RouteTargetInput) :
    Except String Store := do
  ensure ((targets.map fun t => t.deploymentId).Nodup && targets.all fun t =>
      !((s.targetsOf routeId).any fun row => row.deploymentId = t.deploymentId))
    "route_targets_route_deployment_idx"
  ensure (targets.all fun t => 0 ≤ t.weight && t.weight ≤ 10000) "route_targets_weight_check"
  pure { s with targets := s.targets ++ targets.map (RouteTarget.ofInput routeId) }

/-- The delete of a route's targets and the insert of others. -/
def replaceTargets (s : Store) (routeId : String) (targets : List RouteTargetInput) :
    Except String Store :=
  insertTargets { s with targets := s.targets.filter fun t => t.routeId ≠ routeId } routeId targets

/-- One deployment with all of the weight. -/
def wholeWeight (deploymentId : String) : RouteTargetInput :=
  { deploymentId, weight := 10000, variantName := none }

/-- The insert of a preview's target, which on conflict resets its weight and variant. -/
def upsertTarget (s : Store) (routeId deploymentId : String) : Store :=
  { s with
    targets := Table.upsertWhere
      (fun t => t.routeId = routeId && t.deploymentId = deploymentId)
      (fun t => { t with weight := 10000, variantName := none })
      (RouteTarget.ofInput routeId (wholeWeight deploymentId)) s.targets }

/-- The stable route, and its only target unless it has one already. -/
def ensureStableTarget (s : Store) (routeId deploymentId : String) : Except String Store :=
  if (s.targetsOf routeId).isEmpty then insertTargets s routeId [wholeWeight deploymentId]
  else .ok s

/-- Update the route that was found, or insert one. -/
def materializeRoute (s : Store) (found : Option AgentRoute)
    (routeId projectId hostname : String) (kind : RouteKind) :
    Except String (Store × AgentRoute) :=
  match found with
  | some route => renameRoute s route hostname
  | none => insertRoute s routeId projectId hostname kind

/-- `ensureDeploymentRoutes`; the stable route and the preview. -/
def ensureDeploymentRoutes (s : Store) (projectId deploymentId baseDomain : String)
    (stableId previewId : String) : Except String (Store × AgentRoute × AgentRoute) := do
  let domain ← normalizeBaseDomain baseDomain
  let project ← require (s.findProject projectId)
    "Cannot create Agent routes for an unknown project or deployment."
  let deployment ← require (s.deployments.find? fun d =>
    d.id = deploymentId && d.projectId = projectId)
    "Cannot create Agent routes for an unknown project or deployment."
  let (s, stable) ← materializeRoute s (s.findStable projectId) stableId projectId
    (projectHostname project.slug domain) .project
  let (s, preview) ← materializeRoute s (s.findPreview projectId deploymentId) previewId projectId
    (labelledHostname deployment.deploymentKey project.slug domain) .deployment
  let s ← ensureStableTarget s stable.id deploymentId
  pure (upsertTarget s preview.id deploymentId, stable, preview)

/-- The deployment of a target, when it is one of the project. -/
def Store.findOwn (s : Store) (projectId : String) (target : RouteTargetInput) :
    Option Deployment :=
  (s.findDeployment target.deploymentId).filter fun d => d.projectId = projectId

/-- The check `updateRouteTargets` makes of each target. -/
def checkRouteTarget (s : Store) (projectId : String) (target : RouteTargetInput) :
    Except String Unit := do
  let deployment ← require (s.findOwn projectId target)
    "Route target deployment does not belong to the project."
  ensure (!(target.weight > 0 && deployment.status ≠ .running)) "A weighted route target must be running."

/-- The check `ensureAliasRoute` makes of each target. -/
def checkAliasTarget (s : Store) (projectId : String) (target : RouteTargetInput) :
    Except String Unit := do
  let deployment ← require (s.findOwn projectId target)
    "Alias target must be a running deployment in this project."
  ensure (!(target.weight > 0 && deployment.status ≠ .running))
    "Alias target must be a running deployment in this project."

/-- `updateRouteTargets`. -/
def updateRouteTargets (s : Store) (routeId : String) (targets : List RouteTargetInput) :
    Except String Store := do
  validateRouteTargets targets
  let route ← require (s.routes.find? fun r => r.id = routeId) "Agent route not found."
  ensure (route.kind ≠ .deployment) "Deployment preview routes are immutable."
  each (checkRouteTarget s route.projectId) targets
  let s ← replaceTargets s routeId targets
  pure (bumpRevision s route)

/-- `promoteDeployment`. -/
def promoteDeployment (s : Store) (projectId deploymentId : String) : Except String Store := do
  let route ← require (s.findStable projectId) "Project route not found."
  let deployment ← require (s.deployments.find? fun d =>
    d.id = deploymentId && d.projectId = projectId) "Deployment does not belong to this project."
  ensure (deployment.status = .running)
    s!"A promoted deployment must be running, but this one is {deployment.status.text}."
  let s ← replaceTargets s route.id [wholeWeight deploymentId]
  pure (bumpRevision s route)

/-- The route `ensureAliasRoute` writes to: the one that has the hostname, whatever it is,
or a new alias. -/
def materializeAlias (s : Store) (routeId projectId hostname : String) :
    Except String (Store × AgentRoute) :=
  match s.routes.find? fun r => r.hostname = hostname with
  | some existing =>
      let row := { existing with enabled := true, policyRevision := existing.policyRevision + 1 }
      .ok (s.putRoute row, row)
  | none => insertRoute s routeId projectId hostname .aliased

/-- `ensureAliasRoute`. -/
def ensureAliasRoute (s : Store) (projectId label baseDomain : String)
    (targets : List RouteTargetInput) (routeId : String) : Except String Store := do
  validateRouteTargets targets
  ensure (isAlias label) "Alias must be a DNS-safe label."
  let project ← require (s.findProject projectId) "Project not found."
  each (checkAliasTarget s projectId) targets
  let domain ← normalizeBaseDomain baseDomain
  let (s, route) ← materializeAlias s routeId projectId
    (labelledHostname label project.slug domain)
  replaceTargets s route.id targets

end Eveland.RoutingStore
