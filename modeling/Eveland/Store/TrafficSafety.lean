/-
# Deployments with traffic are neither draining nor archived

A drain request and an archive job write a status on the strength of routes they have read,
and a routing call writes targets on the strength of a status it has read, and neither locks
what it has read. So the law rests on the order of their steps: a deployment must not be given
weight once it is draining or archived, nor on a route that a party which is about to drain or
archive it has already read, nor while an archive job holds it that took it from draining.
-/

import Eveland.Store.RoutingTransactions

namespace Eveland.RoutingTransactions

open RoutingStore (Project Deployment AgentRoute RouteKind RouteTarget)

/-! ## The condition -/

/-- The reading has found nothing and does not come to the route any more. -/
def Reading.isPast (reading : Reading) (routeId : String) : Bool :=
  !reading.hit && reading.remaining.all fun route => route.id ≠ routeId

/-- The request is going to drain the deployment, and does not come to the route any more. -/
def Drain.isPast (drain : Drain) (deploymentId routeId : String) : Bool :=
  drain.deploymentId = deploymentId &&
    match drain.phase with
    | .reading reading => reading.isPast routeId
    | _ => false

/-- The job is going to archive the deployment, and does not come to the route any more. -/
def Archive.isPast (job : Archive) (deploymentId routeId : String) : Bool :=
  job.deploymentId = deploymentId &&
    match job.phase with
    | .reading _ reading => reading.isPast routeId
    | .removing _ => true
    | _ => false

/-- The status a job hands back should it not archive. -/
def ArchivePhase.prior : ArchivePhase → Option DeploymentStatus
  | .claimed priorStatus => some priorStatus
  | .reading priorStatus _ => some priorStatus
  | .removing priorStatus => some priorStatus
  | .reverting priorStatus => some priorStatus
  | _ => none

/-- The job has claimed the deployment while it was draining. -/
def Archive.tookDraining (job : Archive) (deploymentId : String) : Bool :=
  job.deploymentId = deploymentId && job.phase.prior = some .draining

/-- Weight that a route gives the deployment from now on is seen by all who are about to drain
or archive it. -/
def State.mayServe (s : State) (routeId deploymentId : String) : Bool :=
  (s.deployments.all fun d =>
    !(d.id = deploymentId && (d.status = .draining || d.status = .archived))) &&
  (s.drains.all fun drain => !drain.isPast deploymentId routeId) &&
  (s.archives.all fun job =>
    !job.isPast deploymentId routeId && !job.tookDraining deploymentId)

/-- A call that commits gives weight only to deployments that may serve. -/
def Timely (s : State) : Action → Bool
  | .commit index =>
      match s.transactions[index]? with
      | some ⟨call, .committing route _ _⟩ =>
          route.kind = .deployment || call.targets.all fun target =>
            !(target.weight > 0) || s.mayServe route.id target.deploymentId
      | _ => true
  | _ => true

/-! ## The invariant -/

/-- The row gives the deployment weight on a project or alias route. -/
structure State.Live (s : State) (deploymentId : String) (stored : StoredTarget) : Prop where
  mem : stored ∈ s.targets
  weight : givesWeight deploymentId stored.target = true
  onPublicRoute : s.OnPublicRoute stored.target

/-- There is a route of this identifier and kind. -/
def State.HasRoute (s : State) (route : AgentRoute) : Prop :=
  ∃ stored ∈ s.routes, stored.id = route.id ∧ stored.kind = route.kind

/-- What a call knows of its route. -/
def Phase.Sound (s : State) (projectId : String) : Phase → Prop
  | .begun => True
  | .checking (.route route) _ => s.HasRoute route
  | .checking (.hostname owner _) _ => owner = projectId
  | .deleting route isNew => if isNew then route.projectId = projectId else s.HasRoute route
  | .committing route isNew _ => if isNew then route.projectId = projectId else s.HasRoute route
  | .ended => True

/-- What a drain request has read is so still, where it matters. -/
structure Drain.Sound (s : State) (projectId : String) (drain : Drain) : Prop where
  project : ∀ owner, drain.phase = .found owner → owner = projectId
  routes : ∀ reading, drain.phase = .reading reading →
    ∀ route ∈ reading.remaining, s.HasRoute route
  notPast : ∀ stored, s.Live drain.deploymentId stored →
    drain.isPast drain.deploymentId stored.target.routeId = false

/-- What an archive job has read is so still, where it matters. -/
structure Archive.Sound (s : State) (projectId : String) (job : Archive) : Prop where
  project : job.phase = .begun ∨ job.phase = .ended ∨ job.projectId = projectId
  routes : ∀ priorStatus reading, job.phase = .reading priorStatus reading →
    ∀ route ∈ reading.remaining, s.HasRoute route
  notArchived : job.phase ≠ .found .archived ∧ job.phase.prior ≠ some .archived
  notPast : ∀ stored, s.Live job.deploymentId stored →
    job.isPast job.deploymentId stored.target.routeId = false
  notDraining : ∀ stored, s.Live job.deploymentId stored → job.phase.prior ≠ some .draining

/-- The invariant of the tables and all parties. -/
structure Coherent (projectId : String) (s : State) : Prop where
  projects : ∀ project ∈ s.projects, project.id = projectId
  deployments : ∀ deployment ∈ s.deployments, deployment.projectId = projectId
  routes : ∀ route ∈ s.routes, route.projectId = projectId
  routeKeys : Table.UniqueOn AgentRoute.id s.routes
  references : ∀ stored ∈ s.targets, ∃ route ∈ s.routes, route.id = stored.target.routeId
  served : TrafficServed s
  calls : ∀ tx ∈ s.transactions, tx.phase.Sound s projectId
  drains : ∀ drain ∈ s.drains, drain.Sound s projectId
  archives : ∀ job ∈ s.archives, job.Sound s projectId

theorem State.Initial.coherent {s : State} (h : s.Initial) : ∃ projectId, Coherent projectId s := by
  obtain ⟨projectId, hprojects, hdeployments, hroutes⟩ := h.oneProject
  obtain ⟨htransactions, hdrains, harchives⟩ := h.idle
  refine ⟨projectId, hprojects, hdeployments, hroutes, h.routeKeys, h.references, h.served,
    ?_, ?_, ?_⟩
  · simp [htransactions]
  · simp [hdrains]
  · simp [harchives]

/-! ## What the parties rest on -/

/-- The routes and targets of `t` are those of `s`. -/
structure SameTraffic (s t : State) : Prop where
  routes : t.routes = s.routes
  targets : t.targets = s.targets

theorem SameTraffic.live {s t : State} (h : SameTraffic s t) {deploymentId : String}
    {stored : StoredTarget} (hlive : t.Live deploymentId stored) : s.Live deploymentId stored where
  mem := h.targets ▸ hlive.mem
  weight := hlive.weight
  onPublicRoute := by
    have hpublic := hlive.onPublicRoute
    rw [State.OnPublicRoute, h.routes] at hpublic
    exact hpublic

theorem State.Weighted.live {s : State} {deploymentId : String} (h : s.Weighted deploymentId) :
    ∃ stored, s.Live deploymentId stored := by
  obtain ⟨stored, hmem, hweight, hpublic⟩ := h
  exact ⟨stored, hmem, hweight, hpublic⟩

theorem State.Live.weighted {s : State} {deploymentId : String} {stored : StoredTarget}
    (h : s.Live deploymentId stored) : s.Weighted deploymentId :=
  ⟨stored, h.mem, h.weight, h.onPublicRoute⟩

/-- A party keeps what it knows as long as routes stay and no row comes to give its
deployment weight. -/
theorem Drain.Sound.mono {s t : State} {projectId : String} {drain : Drain}
    (h : drain.Sound s projectId) (hroutes : ∀ route, s.HasRoute route → t.HasRoute route)
    (hnew : ∀ stored, t.Live drain.deploymentId stored → s.Live drain.deploymentId stored ∨
      drain.isPast drain.deploymentId stored.target.routeId = false) :
    drain.Sound t projectId where
  project := h.project
  routes reading hreading route hroute := hroutes route (h.routes reading hreading route hroute)
  notPast stored hlive := (hnew stored hlive).elim (h.notPast stored) fun hnot => hnot

theorem Archive.Sound.mono {s t : State} {projectId : String} {job : Archive}
    (h : job.Sound s projectId) (hroutes : ∀ route, s.HasRoute route → t.HasRoute route)
    (hnew : ∀ stored, t.Live job.deploymentId stored → s.Live job.deploymentId stored ∨
      job.isPast job.deploymentId stored.target.routeId = false ∧
        job.phase.prior ≠ some .draining) :
    job.Sound t projectId where
  project := h.project
  routes priorStatus reading hreading route hroute :=
    hroutes route (h.routes priorStatus reading hreading route hroute)
  notArchived := h.notArchived
  notPast stored hlive := (hnew stored hlive).elim (h.notPast stored) And.left
  notDraining stored hlive := (hnew stored hlive).elim (h.notDraining stored) And.right

theorem Phase.Sound.mono {s t : State} {projectId : String} {phase : Phase}
    (h : phase.Sound s projectId) (hroutes : ∀ route, s.HasRoute route → t.HasRoute route) :
    phase.Sound t projectId := by
  cases phase with
  | begun => trivial
  | checking destination pending =>
      cases destination with
      | route found => exact hroutes found h
      | hostname owner hostname => exact h
  | deleting route isNew =>
      cases isNew with
      | true => exact h
      | false => exact hroutes route h
  | committing route isNew removed =>
      cases isNew with
      | true => exact h
      | false => exact hroutes route h
  | ended => trivial

theorem SameTraffic.hasRoute {s t : State} (h : SameTraffic s t) {route : AgentRoute}
    (hroute : s.HasRoute route) : t.HasRoute route := by
  rw [State.HasRoute, h.routes]
  exact hroute

/-- A step that leaves the routes and targets alone, keeps the owners of the deployments and
serves the traffic keeps what it says of its parties. -/
theorem Coherent.of_sameTraffic {s t : State} {projectId : String} (h : Coherent projectId s)
    (hsame : SameTraffic s t) (hprojects : t.projects = s.projects)
    (hdeployments : ∀ deployment ∈ t.deployments, deployment.projectId = projectId)
    (hserved : TrafficServed t)
    (hcalls : ∀ tx ∈ t.transactions, tx.phase.Sound s projectId)
    (hdrains : ∀ drain ∈ t.drains, drain.Sound s projectId)
    (harchives : ∀ job ∈ t.archives, job.Sound s projectId) : Coherent projectId t where
  projects := by
    rw [hprojects]
    exact h.projects
  deployments := hdeployments
  routes := by
    rw [hsame.routes]
    exact h.routes
  routeKeys := by
    rw [hsame.routes]
    exact h.routeKeys
  references := by
    rw [hsame.routes, hsame.targets]
    exact h.references
  served := hserved
  calls tx htx := (hcalls tx htx).mono fun _ => hsame.hasRoute
  drains drain hdrain :=
    (hdrains drain hdrain).mono (fun _ => hsame.hasRoute) fun _ hlive => Or.inl (hsame.live hlive)
  archives job hjob :=
    (harchives job hjob).mono (fun _ => hsame.hasRoute) fun _ hlive => Or.inl (hsame.live hlive)

/-! ## Reading the routes -/

theorem Reading.isPast_eq_false {reading : Reading} {routeId : String} :
    reading.isPast routeId = false ↔
      reading.hit = true ∨ ∃ route ∈ reading.remaining, route.id = routeId := by
  cases hhit : reading.hit <;> simp [Reading.isPast, hhit]

/-- All routes of the project are listed. -/
theorem startReading_notPast {s : State} {projectId deploymentId : String} {stored : StoredTarget}
    (hroutes : ∀ route ∈ s.routes, route.projectId = projectId)
    (hlive : s.Live deploymentId stored) :
    (startReading s projectId).isPast stored.target.routeId = false := by
  obtain ⟨route, hroute, hid, _⟩ := hlive.onPublicRoute
  rw [Reading.isPast_eq_false]
  exact Or.inr ⟨route, List.mem_filter.mpr ⟨hroute, by simp [hroutes route hroute]⟩, hid⟩

/-- Whoever reads a route on which there is weight finds it. -/
theorem readRoute_notPast {s : State} {deploymentId : String} {counts : RouteTarget → Bool}
    {route : AgentRoute} {rest : List AgentRoute} {hit : Bool} {stored : StoredTarget}
    (hkeys : Table.UniqueOn AgentRoute.id s.routes) (hroute : s.HasRoute route)
    (hlive : s.Live deploymentId stored) (hcounts : counts stored.target = true)
    (hnot : Reading.isPast ⟨route :: rest, hit⟩ stored.target.routeId = false) :
    (readRoute s counts route rest hit).isPast stored.target.routeId = false := by
  rw [Reading.isPast_eq_false] at hnot ⊢
  rcases hnot with hhit | ⟨found, hfound, hid⟩
  · left
    simp only at hhit
    simp [readRoute, hhit]
  · rcases List.mem_cons.mp hfound with rfl | hrest
    · left
      -- The listed route still has the kind it was listed with.
      obtain ⟨listed, hlisted, hlistedId, hkind⟩ := hroute
      obtain ⟨other, hother, hotherId, hpublic⟩ := hlive.onPublicRoute
      have hsame : listed = other :=
        hkeys.eq hlisted hother (by rw [hlistedId, hid, hotherId])
      have hread : stored ∈ s.targetsOf found.id :=
        List.mem_filter.mpr ⟨hlive.mem, by simp [hid]⟩
      have hany : (s.targetsOf found.id).any (fun stored => counts stored.target) = true :=
        List.any_eq_true.mpr ⟨stored, hread, hcounts⟩
      have hkindNe : found.kind ≠ .deployment := by
        rw [← hkind, hsame]
        exact hpublic
      simp [readRoute, hany, hkindNe]
    · exact Or.inr ⟨found, hrest, hid⟩

/-! ## Writing a status -/

/-- After a status write the traffic is served if the rows it changed may have their new
status. -/
theorem TrafficServed.of_status {s t : State} (h : TrafficServed s) (hsame : SameTraffic s t)
    (hchanged : ∀ deployment ∈ t.deployments, deployment ∈ s.deployments ∨
      (s.Weighted deployment.id →
        deployment.status ≠ .draining ∧ deployment.status ≠ .archived)) : TrafficServed t := by
  intro deployment hdeployment hweighted
  obtain ⟨stored, hlive⟩ := hweighted.live
  have hbefore : s.Weighted deployment.id := (hsame.live hlive).weighted
  rcases hchanged deployment hdeployment with hold | hnew
  · exact h deployment hold hbefore
  · exact hnew hbefore

/-- Draining a deployment that has no weight. -/
theorem updateDeploymentStatus_served {s : State} {deploymentId : String}
    (h : TrafficServed s) (hnone : ¬s.Weighted deploymentId) :
    TrafficServed (s.updateDeploymentStatus deploymentId .draining) := by
  refine h.of_status ⟨rfl, rfl⟩ ?_
  intro deployment hdeployment
  rcases Table.mem_updateWhere.mp hdeployment with ⟨hold, _⟩ | ⟨old, _, hid, rfl⟩
  · exact Or.inl hold
  · right
    intro hweighted
    have hid : old.id = deploymentId := of_decide_eq_true hid
    exact absurd (hid ▸ hweighted) hnone

/-- A compare-and-swap to a status that a deployment with weight may have, or of a deployment
that has none. -/
theorem transitionDeploymentStatus_served {s : State} {deploymentId : String}
    {target : DeploymentStatus} {sources : List DeploymentStatus} (h : TrafficServed s)
    (hmay : s.Weighted deploymentId → target ≠ .draining ∧ target ≠ .archived) :
    TrafficServed (s.transitionDeploymentStatus deploymentId target sources) := by
  refine h.of_status ⟨rfl, rfl⟩ ?_
  intro deployment hdeployment
  rcases Table.mem_updateWhere.mp hdeployment with ⟨hold, _⟩ | ⟨old, _, hselected, rfl⟩
  · exact Or.inl hold
  · right
    intro hweighted
    have hid : old.id = deploymentId := of_decide_eq_true (Bool.and_eq_true_iff.mp hselected).1
    exact hmay (hid ▸ hweighted)

theorem updateDeploymentStatus_owners {s : State} {projectId deploymentId : String}
    {status : DeploymentStatus}
    (h : ∀ deployment ∈ s.deployments, deployment.projectId = projectId) :
    ∀ deployment ∈ (s.updateDeploymentStatus deploymentId status).deployments,
      deployment.projectId = projectId := by
  intro deployment hdeployment
  rcases Table.mem_updateWhere.mp hdeployment with ⟨hold, _⟩ | ⟨old, hold, _, rfl⟩
  · exact h deployment hold
  · exact h old hold

theorem transitionDeploymentStatus_owners {s : State} {projectId deploymentId : String}
    {target : DeploymentStatus} {sources : List DeploymentStatus}
    (h : ∀ deployment ∈ s.deployments, deployment.projectId = projectId) :
    ∀ deployment ∈ (s.transitionDeploymentStatus deploymentId target sources).deployments,
      deployment.projectId = projectId := by
  intro deployment hdeployment
  rcases Table.mem_updateWhere.mp hdeployment with ⟨hold, _⟩ | ⟨old, hold, _, rfl⟩
  · exact h deployment hold
  · exact h old hold

/-! ## Drain requests -/

/-- What the statement of a party may do to the tables. -/
structure StatusWrite (projectId : String) (s t : State) : Prop where
  traffic : SameTraffic s t
  projects : t.projects = s.projects
  deployments : ∀ deployment ∈ t.deployments, deployment.projectId = projectId
  served : TrafficServed t
  calls : t.transactions = s.transactions
  drains : t.drains = s.drains
  archives : t.archives = s.archives

theorem StatusWrite.none {s : State} {projectId : String} (h : Coherent projectId s) :
    StatusWrite projectId s s :=
  ⟨⟨rfl, rfl⟩, rfl, h.deployments, h.served, rfl, rfl, rfl⟩

theorem StatusWrite.transition {s : State} {projectId deploymentId : String}
    {target : DeploymentStatus} {sources : List DeploymentStatus} (h : Coherent projectId s)
    (hmay : s.Weighted deploymentId → target ≠ .draining ∧ target ≠ .archived) :
    StatusWrite projectId s (s.transitionDeploymentStatus deploymentId target sources) :=
  ⟨⟨rfl, rfl⟩, rfl, transitionDeploymentStatus_owners h.deployments,
    transitionDeploymentStatus_served h.served hmay, rfl, rfl, rfl⟩

/-- A drain request that is not past any route. -/
theorem Drain.Sound.of_phase {s : State} {projectId : String} {drain : Drain} {phase : DrainPhase}
    (hproject : ∀ owner, phase = .found owner → owner = projectId)
    (hreading : ∀ reading, phase ≠ .reading reading) :
    ({ drain with phase } : Drain).Sound s projectId where
  project := hproject
  routes reading h := absurd h (hreading reading)
  notPast stored _ := by
    cases phase with
    | reading reading => exact absurd rfl (hreading reading)
    | _ => simp [Drain.isPast]

theorem Drain.Sound.begun {s : State} {projectId : String} (owner deploymentId : String) :
    (Drain.mk owner deploymentId .begun).Sound s projectId where
  project _ h := by cases h
  routes _ h := by cases h
  notPast _ _ := by simp [Drain.isPast]

/-- A drain request that is reading. -/
theorem Drain.Sound.of_reading {s : State} {projectId : String} {drain : Drain}
    {reading : Reading} (hroutes : ∀ route ∈ reading.remaining, s.HasRoute route)
    (hnotPast : ∀ stored, s.Live drain.deploymentId stored →
      reading.isPast stored.target.routeId = false) :
    ({ drain with phase := .reading reading } : Drain).Sound s projectId where
  project owner h := by cases h
  routes current h := by
    cases h
    exact hroutes
  notPast stored hlive := by simp [Drain.isPast, hnotPast stored hlive]

/-- A statement of a drain request keeps what the request knows, and drains only what has no
weight. -/
theorem Drain.next_sound {s t : State} {projectId : String} {drain : Drain} {phase : DrainPhase}
    (hs : Coherent projectId s) (hdrain : drain.Sound s projectId)
    (hnext : drain.next s = some (t, phase)) :
    StatusWrite projectId s t ∧ ({ drain with phase } : Drain).Sound s projectId := by
  have hended : ({ drain with phase := .ended } : Drain).Sound s projectId :=
    Drain.Sound.of_phase (fun _ h => by cases h) (fun _ h => by cases h)
  unfold Drain.next at hnext
  split at hnext
  · split at hnext
    · cases hnext
      exact ⟨StatusWrite.none hs, hended⟩
    · next deployment hfound =>
        split at hnext
        · cases hnext
          refine ⟨StatusWrite.none hs, Drain.Sound.of_phase ?_ (fun _ h => by cases h)⟩
          intro owner howner
          cases howner
          exact hs.deployments deployment (List.mem_of_find?_eq_some hfound)
        · cases hnext
          exact ⟨StatusWrite.none hs, hended⟩
  · next owner hphase =>
      cases hnext
      refine ⟨StatusWrite.none hs, Drain.Sound.of_reading ?_ ?_⟩
      · exact fun route hroute => ⟨route, List.mem_of_mem_filter hroute, rfl, rfl⟩
      · intro stored hlive
        rw [hdrain.project owner hphase]
        exact startReading_notPast hs.routes hlive
  · next route rest hit hphase =>
      cases hnext
      have hroutes := hdrain.routes _ hphase
      refine ⟨StatusWrite.none hs, Drain.Sound.of_reading ?_ ?_⟩
      · exact fun other hother => hroutes other (List.mem_cons_of_mem _ hother)
      · intro stored hlive
        have hnot := hdrain.notPast stored hlive
        simp only [Drain.isPast, hphase, decide_true, Bool.true_and] at hnot
        exact readRoute_notPast hs.routeKeys (hroutes route List.mem_cons_self) hlive
          hlive.weight hnot
  · next hit hphase =>
      split at hnext
      · cases hnext
        exact ⟨StatusWrite.none hs, hended⟩
      · next hmissed =>
          cases hnext
          have hnone : ¬s.Weighted drain.deploymentId := by
            intro hweighted
            obtain ⟨stored, hlive⟩ := hweighted.live
            have hnot := hdrain.notPast stored hlive
            simp [Drain.isPast, hphase, Reading.isPast, hmissed] at hnot
          exact ⟨⟨⟨rfl, rfl⟩, rfl, updateDeploymentStatus_owners hs.deployments,
            updateDeploymentStatus_served hs.served hnone, rfl, rfl, rfl⟩, hended⟩
  · cases hnext

/-! ## Archive jobs -/

/-- An archive job that is not past any route. -/
theorem Archive.Sound.of_phase {s : State} {projectId : String} {job : Archive}
    {phase : ArchivePhase}
    (hproject : phase = .begun ∨ phase = .ended ∨ job.projectId = projectId)
    (hreading : ∀ priorStatus reading, phase ≠ .reading priorStatus reading)
    (hremoving : ∀ priorStatus, phase ≠ .removing priorStatus)
    (harchived : phase ≠ .found .archived ∧ phase.prior ≠ some .archived)
    (hdraining : ∀ stored, s.Live job.deploymentId stored → phase.prior ≠ some .draining) :
    ({ job with phase } : Archive).Sound s projectId where
  project := hproject
  routes priorStatus reading h := absurd h (hreading priorStatus reading)
  notArchived := harchived
  notPast stored _ := by
    cases phase with
    | reading priorStatus reading => exact absurd rfl (hreading priorStatus reading)
    | removing priorStatus => exact absurd rfl (hremoving priorStatus)
    | _ => simp [Archive.isPast]
  notDraining := hdraining

theorem Archive.Sound.begun {s : State} {projectId : String} (owner deploymentId : String)
    (automatic : Bool) : (Archive.mk owner deploymentId automatic .begun).Sound s projectId where
  project := Or.inl rfl
  routes _ _ h := by cases h
  notArchived := ⟨(fun h => by cases h), fun h => by cases h⟩
  notPast _ _ := by simp [Archive.isPast]
  notDraining _ _ h := by cases h

/-- An archive job that is reading. -/
theorem Archive.Sound.of_reading {s : State} {projectId : String} {job : Archive}
    {priorStatus : DeploymentStatus} {reading : Reading} (hproject : job.projectId = projectId)
    (hroutes : ∀ route ∈ reading.remaining, s.HasRoute route)
    (harchived : priorStatus ≠ .archived)
    (hnotPast : ∀ stored, s.Live job.deploymentId stored →
      reading.isPast stored.target.routeId = false)
    (hdraining : ∀ stored, s.Live job.deploymentId stored → priorStatus ≠ .draining) :
    ({ job with phase := .reading priorStatus reading } : Archive).Sound s projectId where
  project := Or.inr (Or.inr hproject)
  routes _ current h := by
    cases h
    exact hroutes
  notArchived := ⟨(fun h => by cases h), fun h => harchived (Option.some.inj h)⟩
  notPast stored hlive := by simp [Archive.isPast, hnotPast stored hlive]
  notDraining stored hlive h := hdraining stored hlive (Option.some.inj h)

theorem claimableStatuses_archived (automatic : Bool) :
    (claimableStatuses automatic).contains .archived = false := by
  cases automatic <;> rfl

/-- A target with weight is a target. -/
theorem isTarget_of_givesWeight {deploymentId : String} {target : RouteTarget}
    (h : givesWeight deploymentId target = true) : isTarget deploymentId target = true :=
  (Bool.and_eq_true_iff.mp h).1

/-- A job that has not taken a status it may not hand back gives it back. -/
theorem Archive.Sound.reverting {s : State} {projectId : String} {job : Archive}
    {priorStatus : DeploymentStatus} (h : job.Sound s projectId)
    (hphase : job.phase.prior = some priorStatus) :
    ({ job with phase := .reverting priorStatus } : Archive).Sound s projectId := by
  refine Archive.Sound.of_phase (Or.inr (Or.inr ?_)) (fun _ _ h => by cases h)
    (fun _ h => by cases h) ⟨(fun h => by cases h), ?_⟩ ?_
  · rcases h.project with hbegun | hended | hproject
    · rw [hbegun] at hphase
      cases hphase
    · rw [hended] at hphase
      cases hphase
    · exact hproject
  · exact fun hprior => h.notArchived.2 (hphase.trans hprior)
  · exact fun stored hlive hprior => h.notDraining stored hlive (hphase.trans hprior)

theorem State.hasStatus_eq_true {s : State} {deploymentId : String} {status : DeploymentStatus} :
    s.hasStatus deploymentId [status] = true ↔
      ∃ deployment ∈ s.deployments, deployment.id = deploymentId ∧ deployment.status = status := by
  simp [State.hasStatus]

/-- A statement of an archive job keeps what the job knows; it archives only what has no weight
and hands back only what the deployment may have. -/
theorem Archive.next_sound {s t : State} {projectId : String} {job : Archive}
    {choice : ArchiveChoice} {phase : ArchivePhase} (hs : Coherent projectId s)
    (hjob : job.Sound s projectId) (hnext : job.next s choice = some (t, phase)) :
    StatusWrite projectId s t ∧ ({ job with phase } : Archive).Sound s projectId := by
  have hended : ({ job with phase := .ended } : Archive).Sound s projectId :=
    Archive.Sound.of_phase (Or.inr (Or.inl rfl)) (fun _ _ h => by cases h) (fun _ h => by cases h)
      ⟨(fun h => by cases h), fun h => by cases h⟩ (fun _ _ h => by cases h)
  have hnone := StatusWrite.none hs
  unfold Archive.next at hnext
  split at hnext
  · split at hnext
    · cases hnext
      exact ⟨hnone, hended⟩
    · split at hnext
      · cases hnext
        exact ⟨hnone, hended⟩
      · next deployment hfound =>
          split at hnext
          · next hclaimable =>
              cases hnext
              obtain ⟨howner, hclaimable⟩ := Bool.and_eq_true_iff.mp hclaimable
              have howner : deployment.projectId = job.projectId := of_decide_eq_true howner
              refine ⟨hnone, Archive.Sound.of_phase (Or.inr (Or.inr ?_)) (fun _ _ h => by cases h)
                (fun _ h => by cases h) ⟨?_, fun h => by cases h⟩ (fun _ _ h => by cases h)⟩
              · rw [← howner]
                exact hs.deployments deployment (List.mem_of_find?_eq_some hfound)
              · intro harchived
                rw [ArchivePhase.found.inj harchived, claimableStatuses_archived] at hclaimable
                cases hclaimable
          · cases hnext
            exact ⟨hnone, hended⟩
  · next status hphase =>
      split at hnext
      · next hclaims =>
          cases hnext
          have hstatus := State.hasStatus_eq_true.mp (Bool.and_eq_true_iff.mp hclaims).2
          obtain ⟨deployment, hdeployment, hid, hstatus⟩ := hstatus
          have hproject : job.projectId = projectId := by
            simpa [hphase] using hjob.project
          have hnotArchived : status ≠ .archived := fun h => hjob.notArchived.1 (h ▸ hphase)
          refine ⟨StatusWrite.transition hs (fun _ => by simp), Archive.Sound.of_phase
            (Or.inr (Or.inr hproject)) (fun _ _ h => by cases h) (fun _ h => by cases h)
            ⟨(fun h => by cases h), ?_⟩ ?_⟩
          · intro hprior
            have hprior := Option.some.inj hprior
            split at hprior
            · cases hprior
            · exact hnotArchived hprior
          · intro stored hlive hprior
            have hprior := Option.some.inj hprior
            have hserved := hs.served deployment hdeployment (hid ▸ hlive.weighted)
            split at hprior
            · cases hprior
            · exact hserved.1 (hstatus.trans hprior)
      · cases hnext
        exact ⟨hnone, hended⟩
  · next priorStatus hphase =>
      have hprior : job.phase.prior = some priorStatus := by rw [hphase]; rfl
      split at hnext
      · cases hnext
        exact ⟨hnone, hjob.reverting hprior⟩
      · cases hnext
        have hproject : job.projectId = projectId := by
          simpa [hphase] using hjob.project
        refine ⟨hnone, Archive.Sound.of_reading hproject ?_ ?_ ?_ ?_⟩
        · exact fun route hroute => ⟨route, List.mem_of_mem_filter hroute, rfl, rfl⟩
        · exact fun h => hjob.notArchived.2 (h ▸ hprior)
        · intro stored hlive
          rw [hproject]
          exact startReading_notPast hs.routes hlive
        · exact fun stored hlive h => hjob.notDraining stored hlive (h ▸ hprior)
  · next priorStatus route rest hit hphase =>
      have hprior : job.phase.prior = some priorStatus := by rw [hphase]; rfl
      split at hnext
      · cases hnext
        exact ⟨hnone, hjob.reverting hprior⟩
      · cases hnext
        have hroutes := hjob.routes _ _ hphase
        refine ⟨hnone, Archive.Sound.of_reading (by simpa [hphase] using hjob.project) ?_ ?_ ?_ ?_⟩
        · exact fun other hother => hroutes other (List.mem_cons_of_mem _ hother)
        · exact fun h => hjob.notArchived.2 (h ▸ hprior)
        · intro stored hlive
          have hnot := hjob.notPast stored hlive
          simp only [Archive.isPast, hphase, decide_true, Bool.true_and] at hnot
          exact readRoute_notPast hs.routeKeys (hroutes route List.mem_cons_self) hlive
            (isTarget_of_givesWeight hlive.weight) hnot
        · exact fun stored hlive h => hjob.notDraining stored hlive (h ▸ hprior)
  · next priorStatus hit hphase =>
      have hprior : job.phase.prior = some priorStatus := by rw [hphase]; rfl
      split at hnext
      · cases hnext
        exact ⟨hnone, hjob.reverting hprior⟩
      · next hpasses =>
          cases hnext
          -- Nothing was found, so there is no weight that the job could have missed.
          have hmissed : hit = false := by
            cases hit with
            | false => rfl
            | true => simp at hpasses
          refine ⟨hnone, ⟨Or.inr (Or.inr (by simpa [hphase] using hjob.project)),
            (fun _ _ h => by cases h), ⟨(fun h => by cases h), ?_⟩, ?_, ?_⟩⟩
          · exact fun h => hjob.notArchived.2 (h ▸ hprior)
          · intro stored hlive
            have hnot := hjob.notPast stored hlive
            simp [Archive.isPast, hphase, Reading.isPast, hmissed] at hnot
          · exact fun stored hlive h => hjob.notDraining stored hlive (h ▸ hprior)
  · next priorStatus hphase =>
      have hprior : job.phase.prior = some priorStatus := by rw [hphase]; rfl
      split at hnext
      · cases hnext
        refine ⟨StatusWrite.transition hs ?_, hended⟩
        intro hweighted
        obtain ⟨stored, hlive⟩ := hweighted.live
        have hnot := hjob.notPast stored hlive
        simp [Archive.isPast, hphase] at hnot
      · cases hnext
        exact ⟨hnone, hjob.reverting hprior⟩
  · next priorStatus hphase =>
      have hprior : job.phase.prior = some priorStatus := by rw [hphase]; rfl
      split at hnext
      · cases hnext
        exact ⟨hnone, hended⟩
      · cases hnext
        refine ⟨StatusWrite.transition hs ?_, hended⟩
        intro hweighted
        obtain ⟨stored, hlive⟩ := hweighted.live
        exact ⟨fun h => hjob.notDraining stored hlive (h ▸ hprior),
          fun h => hjob.notArchived.2 (h ▸ hprior)⟩
  · cases hnext

/-! ## Routing calls -/

theorem Phase.Sound.arrive {s : State} {projectId : String} {call : RoutingCall}
    {destination : Destination} {pending : List RouteTargetInput}
    (h : (Phase.checking destination pending).Sound s projectId) :
    (arrive s call destination).Sound s projectId := by
  cases destination with
  | route found => exact h
  | hostname owner hostname =>
      simp only [RoutingTransactions.arrive]
      split
      · next existing hfound => exact ⟨existing, List.mem_of_find?_eq_some hfound, rfl, rfl⟩
      · exact h

/-- What a call reads first leads it to a route that exists, or to its own project. -/
theorem locate_sound {s : State} {projectId : String} {call : RoutingCall}
    {destination : Destination} {pending : List RouteTargetInput} (hs : Coherent projectId s)
    (hlocate : locate s call = .ok destination) :
    (Phase.checking destination pending).Sound s projectId := by
  cases call with
  | promoteDeployment owner deploymentId =>
      obtain ⟨route, hroute, hlocate⟩ := Outcome.bind_eq_ok.mp hlocate
      cases hlocate
      exact ⟨route, List.mem_of_find?_eq_some (Outcome.require_eq_ok.mp hroute), rfl, rfl⟩
  | updateRouteTargets routeId targets =>
      obtain ⟨_, _, hlocate⟩ := Outcome.bind_eq_ok.mp hlocate
      obtain ⟨route, hroute, hlocate⟩ := Outcome.bind_eq_ok.mp hlocate
      obtain ⟨_, _, hlocate⟩ := Outcome.bind_eq_ok.mp hlocate
      cases hlocate
      exact ⟨route, List.mem_of_find?_eq_some (Outcome.require_eq_ok.mp hroute), rfl, rfl⟩
  | ensureAliasRoute owner label baseDomain targets routeId =>
      obtain ⟨_, _, hlocate⟩ := Outcome.bind_eq_ok.mp hlocate
      obtain ⟨_, _, hlocate⟩ := Outcome.bind_eq_ok.mp hlocate
      obtain ⟨project, hproject, hlocate⟩ := Outcome.bind_eq_ok.mp hlocate
      obtain ⟨domain, _, hlocate⟩ := Outcome.bind_eq_ok.mp hlocate
      cases hlocate
      exact hs.projects project (List.mem_of_find?_eq_some (Outcome.require_eq_ok.mp hproject))

/-- The next statement of a call keeps what the call knows. -/
theorem Transaction.next_sound {s : State} {projectId : String} {tx : Transaction} {phase : Phase}
    (hs : Coherent projectId s) (htx : tx.phase.Sound s projectId)
    (hnext : tx.next s = some (.ok phase)) : phase.Sound s projectId := by
  unfold Transaction.next at hnext
  split at hnext
  · obtain ⟨destination, hlocate, rfl⟩ := Outcome.map_eq_ok.mp (Option.some.inj hnext)
    exact locate_sound hs hlocate
  · next destination hphase =>
      cases hnext
      rw [hphase] at htx
      exact htx.arrive
  · next destination target rest hphase =>
      obtain ⟨_, _, rfl⟩ := Outcome.map_eq_ok.mp (Option.some.inj hnext)
      rw [hphase] at htx
      cases destination <;> exact htx
  · next route isNew hphase =>
      cases hnext
      rw [hphase] at htx
      exact htx
  · cases hnext
  · cases hnext

/-! ## Commits -/

/-- What a commit does to the routes: it inserts the one of the call under a free identifier,
or changes neither identifier, kind nor project of any. -/
theorem writeRoute_cases {s : State} {call : RoutingCall} {route : AgentRoute} {isNew : Bool}
    {routes : List AgentRoute} (hwrite : writeRoute s call route isNew = .ok routes) :
    (isNew = true ∧ routes = s.routes ++ [route] ∧ ∀ r ∈ s.routes, r.id ≠ route.id) ∨
      (isNew = false ∧ ∃ f : AgentRoute → AgentRoute,
        (∀ r, (f r).id = r.id ∧ (f r).kind = r.kind ∧ (f r).projectId = r.projectId) ∧
          routes = Table.updateWhere (fun r => r.id = route.id) f s.routes) := by
  unfold writeRoute at hwrite
  cases isNew with
  | true =>
      rw [if_pos rfl] at hwrite
      obtain ⟨_, hfresh, hwrite⟩ := Outcome.bind_eq_ok.mp hwrite
      obtain ⟨_, _, hwrite⟩ := Outcome.bind_eq_ok.mp hwrite
      cases hwrite
      refine Or.inl ⟨rfl, rfl, fun r hr => ?_⟩
      simpa using List.all_eq_true.mp (Outcome.ensure_eq_ok.mp hfresh) r hr
  | false =>
      rw [if_neg (by decide)] at hwrite
      cases hwrite
      refine Or.inr ⟨rfl, _, ?_, rfl⟩
      exact fun _ => ⟨rfl, rfl, rfl⟩

/-- What a commit leaves. -/
structure Committed (s t : State) (call : RoutingCall) (route : AgentRoute) (isNew : Bool) :
    Prop where
  routes : writeRoute s call route isNew = .ok t.routes
  targets : ∀ stored ∈ t.targets, stored ∈ s.targets ∨
    ∃ target ∈ call.targets, stored.target = RouteTarget.ofInput route.id target
  projects : t.projects = s.projects
  deployments : t.deployments = s.deployments
  transactions : t.transactions = s.transactions
  drains : t.drains = s.drains
  archives : t.archives = s.archives

theorem commitTargets_committed {s t : State} {call : RoutingCall} {route : AgentRoute}
    {isNew : Bool} {removed : List ℕ}
    (hcommit : commitTargets s call route isNew removed = .ok t) :
    Committed s t call route isNew := by
  unfold commitTargets at hcommit
  obtain ⟨routes, hroutes, hcommit⟩ := Outcome.bind_eq_ok.mp hcommit
  obtain ⟨_, _, hcommit⟩ := Outcome.bind_eq_ok.mp hcommit
  cases hcommit
  refine ⟨hroutes, ?_, rfl, rfl, rfl, rfl, rfl⟩
  intro stored hstored
  rcases List.mem_append.mp hstored with hkept | hadded
  · exact Or.inl (List.mem_of_mem_filter hkept)
  · obtain ⟨target, htarget, rfl⟩ := List.mem_map.mp hadded
    exact Or.inr ⟨target, htarget, rfl⟩

/-- Routes stay through a commit. -/
theorem Committed.hasRoute {s t : State} {call : RoutingCall} {route : AgentRoute} {isNew : Bool}
    (h : Committed s t call route isNew) {other : AgentRoute} (hother : s.HasRoute other) :
    t.HasRoute other := by
  obtain ⟨stored, hstored, hid, hkind⟩ := hother
  rcases writeRoute_cases h.routes with ⟨_, hroutes, _⟩ | ⟨_, f, hf, hroutes⟩
  · rw [State.HasRoute, hroutes]
    exact ⟨stored, List.mem_append_left _ hstored, hid, hkind⟩
  · rw [State.HasRoute, hroutes]
    by_cases hsame : stored.id = route.id
    · exact ⟨f stored, Table.mem_updateWhere.mpr (Or.inr ⟨stored, hstored, by simpa using hsame,
        rfl⟩), (hf stored).1.trans hid, (hf stored).2.1.trans hkind⟩
    · exact ⟨stored, Table.mem_updateWhere_of_not hstored (by simpa using hsame), hid, hkind⟩

/-- A row that was there is on no other public route than before. -/
theorem Committed.onPublicRoute {s t : State} {call : RoutingCall} {route : AgentRoute}
    {isNew : Bool} (h : Committed s t call route isNew) {target : RouteTarget}
    (hreference : ∃ other ∈ s.routes, other.id = target.routeId)
    (hpublic : t.OnPublicRoute target) : s.OnPublicRoute target := by
  obtain ⟨found, hfound, hid, hkind⟩ := hpublic
  rcases writeRoute_cases h.routes with ⟨_, hroutes, hfresh⟩ | ⟨_, f, hf, hroutes⟩
  · rw [hroutes] at hfound
    rcases List.mem_append.mp hfound with hold | hnew
    · exact ⟨found, hold, hid, hkind⟩
    · obtain rfl := List.mem_singleton.mp hnew
      obtain ⟨other, hother, hotherId⟩ := hreference
      exact absurd (hotherId.trans hid.symm) (hfresh other hother)
  · rw [hroutes] at hfound
    rcases Table.mem_updateWhere.mp hfound with ⟨hold, _⟩ | ⟨old, hold, _, rfl⟩
    · exact ⟨found, hold, hid, hkind⟩
    · exact ⟨old, hold, (hf old).1.symm.trans hid, fun hold => hkind ((hf old).2.1.trans hold)⟩

/-- The route of a call is the one its targets are on. -/
theorem Committed.kind_of_onPublicRoute {s t : State} {projectId : String} {call : RoutingCall}
    {route : AgentRoute} {isNew : Bool} {removed : List ℕ}
    (h : Committed s t call route isNew) (hs : Coherent projectId s)
    (hphase : (Phase.committing route isNew removed).Sound s projectId) {target : RouteTarget}
    (hroute : target.routeId = route.id) (hpublic : t.OnPublicRoute target) :
    route.kind ≠ .deployment := by
  obtain ⟨found, hfound, hid, hkind⟩ := hpublic
  rcases writeRoute_cases h.routes with ⟨_, hroutes, hfresh⟩ | ⟨hnew, f, hf, hroutes⟩
  · rw [hroutes] at hfound
    rcases List.mem_append.mp hfound with hold | hnew
    · exact absurd (hid.trans hroute) (hfresh found hold)
    · obtain rfl := List.mem_singleton.mp hnew
      exact hkind
  · subst hnew
    obtain ⟨stored, hstored, hstoredId, hstoredKind⟩ : s.HasRoute route := hphase
    have hbefore : ∃ old ∈ s.routes, old.id = found.id ∧ old.kind = found.kind := by
      rw [hroutes] at hfound
      rcases Table.mem_updateWhere.mp hfound with ⟨hold, _⟩ | ⟨old, hold, _, rfl⟩
      · exact ⟨found, hold, rfl, rfl⟩
      · exact ⟨old, hold, (hf old).1.symm, (hf old).2.1.symm⟩
    obtain ⟨old, hold, holdId, holdKind⟩ := hbefore
    have hsame : old = stored := hs.routeKeys.eq hold hstored (by
      rw [holdId, hid, hroute, hstoredId])
    rw [← hstoredKind, ← hsame, holdKind]
    exact hkind

/-- What may serve, seen by the deployments and by each party. -/
theorem State.mayServe_eq_true {s : State} {routeId deploymentId : String}
    (h : s.mayServe routeId deploymentId = true) :
    (∀ deployment ∈ s.deployments, deployment.id = deploymentId →
      deployment.status ≠ .draining ∧ deployment.status ≠ .archived) ∧
    (∀ drain ∈ s.drains, drain.isPast deploymentId routeId = false) ∧
    ∀ job ∈ s.archives, job.isPast deploymentId routeId = false ∧
      (job.deploymentId = deploymentId → job.phase.prior ≠ some .draining) := by
  simp only [State.mayServe, Bool.and_eq_true, List.all_eq_true, Bool.not_eq_true',
    Archive.tookDraining] at h
  obtain ⟨⟨hdeployments, hdrains⟩, harchives⟩ := h
  refine ⟨?_, hdrains, ?_⟩
  · intro deployment hdeployment hid
    simpa [hid] using hdeployments deployment hdeployment
  · intro job hjob
    refine ⟨(harchives job hjob).1, fun hid => ?_⟩
    simpa [hid] using (harchives job hjob).2

/-- A commit that is timely keeps the invariant. -/
theorem Coherent.committed {s t : State} {projectId : String} {call : RoutingCall}
    {route : AgentRoute} {isNew : Bool} {removed : List ℕ} (hs : Coherent projectId s)
    (hphase : (Phase.committing route isNew removed).Sound s projectId)
    (htimely : route.kind = .deployment ∨ ∀ target ∈ call.targets, target.weight > 0 →
      s.mayServe route.id target.deploymentId = true)
    (h : Committed s t call route isNew) : Coherent projectId t := by
  -- A row that gives weight did so before, or is one the call may write.
  have hlive : ∀ deploymentId stored, t.Live deploymentId stored →
      s.Live deploymentId stored ∨ (stored.target.routeId = route.id ∧
        s.mayServe route.id deploymentId = true) := by
    intro deploymentId stored hlive
    rcases h.targets stored hlive.mem with hold | ⟨target, htarget, heq⟩
    · exact Or.inl ⟨hold, hlive.weight,
        h.onPublicRoute (hs.references stored hold) hlive.onPublicRoute⟩
    · right
      have hroute : stored.target.routeId = route.id := by
        rw [heq]
        rfl
      have hkind := h.kind_of_onPublicRoute hs hphase hroute hlive.onPublicRoute
      have hweight := hlive.weight
      rw [heq] at hweight
      obtain ⟨hid, hpos⟩ := Bool.and_eq_true_iff.mp hweight
      have hid : target.deploymentId = deploymentId := of_decide_eq_true hid
      refine ⟨hroute, ?_⟩
      rw [← hid]
      exact htimely.resolve_left hkind target htarget (of_decide_eq_true hpos)
  have hroutes : (∀ found ∈ t.routes, found.projectId = projectId) ∧
      Table.UniqueOn AgentRoute.id t.routes := by
    rcases writeRoute_cases h.routes with ⟨hnew, hroutes, hfresh⟩ | ⟨_, f, hf, hroutes⟩
    · subst hnew
      have howner : route.projectId = projectId := hphase
      rw [hroutes]
      refine ⟨?_, hs.routeKeys.append hfresh⟩
      intro found hfound
      rcases List.mem_append.mp hfound with hold | hadded
      · exact hs.routes found hold
      · rw [List.mem_singleton.mp hadded]
        exact howner
    · rw [hroutes]
      refine ⟨?_, hs.routeKeys.updateWhere fun r => (hf r).1⟩
      intro found hfound
      rcases Table.mem_updateWhere.mp hfound with ⟨hold, _⟩ | ⟨old, hold, _, rfl⟩
      · exact hs.routes found hold
      · rw [(hf old).2.2]
        exact hs.routes old hold
  constructor
  · rw [h.projects]
    exact hs.projects
  · rw [h.deployments]
    exact hs.deployments
  · exact hroutes.1
  · exact hroutes.2
  · intro stored hstored
    rcases h.targets stored hstored with hold | ⟨target, _, heq⟩
    · obtain ⟨other, hother, hid⟩ := hs.references stored hold
      obtain ⟨found, hfound, hfoundId, _⟩ := h.hasRoute ⟨other, hother, rfl, rfl⟩
      exact ⟨found, hfound, hfoundId.trans hid⟩
    · have hroute : stored.target.routeId = route.id := by
        rw [heq]
        rfl
      rw [hroute]
      rcases writeRoute_cases h.routes with ⟨_, hadded, _⟩ | ⟨hnew, _⟩
      · rw [hadded]
        exact ⟨route, List.mem_append_right _ List.mem_cons_self, rfl⟩
      · subst hnew
        obtain ⟨found, hfound, hid, _⟩ := h.hasRoute hphase
        exact ⟨found, hfound, hid⟩
  · intro deployment hdeployment hweighted
    rw [h.deployments] at hdeployment
    obtain ⟨stored, hstored⟩ := hweighted.live
    rcases hlive _ stored hstored with hold | ⟨_, hserves⟩
    · exact hs.served deployment hdeployment hold.weighted
    · exact (State.mayServe_eq_true hserves).1 deployment hdeployment rfl
  · intro tx htx
    rw [h.transactions] at htx
    exact (hs.calls tx htx).mono fun _ => h.hasRoute
  · intro drain hdrain
    rw [h.drains] at hdrain
    refine (hs.drains drain hdrain).mono (fun _ => h.hasRoute) fun stored hstored => ?_
    refine (hlive _ stored hstored).imp_right ?_
    rintro ⟨hroute, hserves⟩
    rw [hroute]
    exact (State.mayServe_eq_true hserves).2.1 drain hdrain
  · intro job hjob
    rw [h.archives] at hjob
    refine (hs.archives job hjob).mono (fun _ => h.hasRoute) fun stored hstored => ?_
    refine (hlive _ stored hstored).imp_right ?_
    rintro ⟨hroute, hserves⟩
    have hserve := (State.mayServe_eq_true hserves).2.2 job hjob
    rw [hroute]
    exact ⟨hserve.1, hserve.2 rfl⟩

/-! ## Every step -/

/-- A step after which the parties know no more than the statements allow. -/
theorem Coherent.of_write {s t u : State} {projectId : String} (hs : Coherent projectId s)
    (h : StatusWrite projectId s t) (htables : u.projects = t.projects ∧
      u.deployments = t.deployments ∧ SameTraffic t u)
    (hcalls : ∀ tx ∈ u.transactions, tx.phase.Sound s projectId)
    (hdrains : ∀ drain ∈ u.drains, drain.Sound s projectId)
    (harchives : ∀ job ∈ u.archives, job.Sound s projectId) : Coherent projectId u := by
  obtain ⟨hprojects, hdeployments, hsame⟩ := htables
  have hserved : TrafficServed u :=
    h.served.of_status hsame fun deployment hdeployment => Or.inl (hdeployments ▸ hdeployment)
  refine hs.of_sameTraffic
    ⟨hsame.routes.trans h.traffic.routes, hsame.targets.trans h.traffic.targets⟩
    (hprojects.trans h.projects) ?_ hserved hcalls hdrains harchives
  rw [hdeployments]
  exact h.deployments

/-- A step that only moves one party. -/
theorem Coherent.of_parties {s t : State} {projectId : String} (hs : Coherent projectId s)
    (htables : t.projects = s.projects ∧ t.deployments = s.deployments ∧ SameTraffic s t)
    (hcalls : ∀ tx ∈ t.transactions, tx ∈ s.transactions ∨ tx.phase.Sound s projectId)
    (hdrains : ∀ drain ∈ t.drains, drain ∈ s.drains ∨ drain.Sound s projectId)
    (harchives : ∀ job ∈ t.archives, job ∈ s.archives ∨ job.Sound s projectId) :
    Coherent projectId t :=
  hs.of_write (StatusWrite.none hs) htables
    (fun tx htx => (hcalls tx htx).elim (hs.calls tx) fun h => h)
    (fun drain hdrain => (hdrains drain hdrain).elim (hs.drains drain) fun h => h)
    (fun job hjob => (harchives job hjob).elim (hs.archives job) fun h => h)

theorem Coherent.setPhase {s : State} {projectId : String} {index : ℕ} {tx : Transaction}
    {phase : Phase} (hs : Coherent projectId s) (hphase : phase.Sound s projectId) :
    Coherent projectId (s.setPhase index tx phase) := by
  refine hs.of_parties ⟨rfl, rfl, rfl, rfl⟩ ?_ (fun _ h => Or.inl h) (fun _ h => Or.inl h)
  intro other hother
  refine (List.mem_or_eq_of_mem_set hother).imp_right ?_
  rintro rfl
  exact hphase

/-- Every step that is timely keeps the invariant. -/
theorem step_coherent {s t : State} {projectId : String} {action : Action}
    (hs : Coherent projectId s) (htimely : Timely s action = true)
    (hstep : step s action = some t) : Coherent projectId t := by
  cases action with
  | call call =>
      cases hstep
      refine hs.of_parties ⟨rfl, rfl, rfl, rfl⟩ ?_ (fun _ h => Or.inl h) (fun _ h => Or.inl h)
      intro tx htx
      refine (List.mem_append.mp htx).imp_right fun hnew => ?_
      rw [List.mem_singleton.mp hnew]
      trivial
  | statement index =>
      obtain ⟨tx, htx, hmoves⟩ := Option.bind_eq_some_iff.mp hstep
      obtain ⟨result, hnext, rfl⟩ := Option.map_eq_some_iff.mp hmoves
      cases result with
      | error e => exact hs.setPhase trivial
      | ok phase =>
          exact hs.setPhase
            (Transaction.next_sound hs (hs.calls tx (List.mem_of_getElem? htx)) hnext)
  | commit index =>
      obtain ⟨⟨call, phase⟩, htx, hcommit⟩ := Option.bind_eq_some_iff.mp hstep
      split at hcommit
      · next route isNew removed hphase =>
          obtain rfl : phase = .committing route isNew removed := hphase
          split at hcommit
          · next u hu =>
              cases hcommit
              have hcall := hs.calls _ (List.mem_of_getElem? htx)
              refine (hs.committed hcall ?_ (commitTargets_committed hu)).setPhase trivial
              rw [Timely, htx] at htimely
              rcases Bool.or_eq_true_iff.mp htimely with hkind | htargets
              · exact Or.inl (of_decide_eq_true hkind)
              · right
                intro target htarget hpos
                have hserves := List.all_eq_true.mp htargets target htarget
                simpa [hpos] using hserves
          · cases hcommit
            exact hs.setPhase trivial
      · cases hcommit
  | rollback index =>
      obtain ⟨tx, _, rfl⟩ := Option.map_eq_some_iff.mp hstep
      exact hs.setPhase trivial
  | requestDrain owner deploymentId =>
      cases hstep
      refine hs.of_parties ⟨rfl, rfl, rfl, rfl⟩ (fun _ h => Or.inl h) ?_ (fun _ h => Or.inl h)
      intro drain hdrain
      refine (List.mem_append.mp hdrain).imp_right fun hnew => ?_
      rw [List.mem_singleton.mp hnew]
      exact Drain.Sound.begun owner deploymentId
  | drain index =>
      obtain ⟨drain, hdrain, hmoves⟩ := Option.bind_eq_some_iff.mp hstep
      obtain ⟨⟨u, phase⟩, hnext, rfl⟩ := Option.map_eq_some_iff.mp hmoves
      obtain ⟨hwrite, hmoved⟩ :=
        Drain.next_sound hs (hs.drains drain (List.mem_of_getElem? hdrain)) hnext
      refine hs.of_write hwrite ⟨rfl, rfl, rfl, rfl⟩ ?_ ?_ ?_
      · rw [hwrite.calls]
        exact hs.calls
      · intro other hother
        rcases List.mem_or_eq_of_mem_set hother with hold | rfl
        · exact hs.drains other hold
        · exact hmoved
      · rw [hwrite.archives]
        exact hs.archives
  | stopDrain index =>
      obtain ⟨drain, _, rfl⟩ := Option.map_eq_some_iff.mp hstep
      refine hs.of_parties ⟨rfl, rfl, rfl, rfl⟩ (fun _ h => Or.inl h) ?_ (fun _ h => Or.inl h)
      intro other hother
      refine (List.mem_or_eq_of_mem_set hother).imp_right ?_
      rintro rfl
      exact Drain.Sound.of_phase (fun _ h => by cases h) (fun _ h => by cases h)
  | archiveJob owner deploymentId automatic =>
      cases hstep
      refine hs.of_parties ⟨rfl, rfl, rfl, rfl⟩ (fun _ h => Or.inl h) (fun _ h => Or.inl h) ?_
      intro job hjob
      refine (List.mem_append.mp hjob).imp_right fun hnew => ?_
      rw [List.mem_singleton.mp hnew]
      exact Archive.Sound.begun owner deploymentId automatic
  | archive index choice =>
      obtain ⟨job, hjob, hmoves⟩ := Option.bind_eq_some_iff.mp hstep
      obtain ⟨⟨u, phase⟩, hnext, rfl⟩ := Option.map_eq_some_iff.mp hmoves
      obtain ⟨hwrite, hmoved⟩ :=
        Archive.next_sound hs (hs.archives job (List.mem_of_getElem? hjob)) hnext
      refine hs.of_write hwrite ⟨rfl, rfl, rfl, rfl⟩ ?_ ?_ ?_
      · rw [hwrite.calls]
        exact hs.calls
      · rw [hwrite.drains]
        exact hs.drains
      · intro other hother
        rcases List.mem_or_eq_of_mem_set hother with hold | rfl
        · exact hs.archives other hold
        · exact hmoved
  | stopArchive index =>
      obtain ⟨job, _, rfl⟩ := Option.map_eq_some_iff.mp hstep
      refine hs.of_parties ⟨rfl, rfl, rfl, rfl⟩ (fun _ h => Or.inl h) (fun _ h => Or.inl h) ?_
      intro other hother
      refine (List.mem_or_eq_of_mem_set hother).imp_right ?_
      rintro rfl
      exact Archive.Sound.of_phase (Or.inr (Or.inl rfl)) (fun _ _ h => by cases h)
        (fun _ h => by cases h) ⟨(fun h => by cases h), fun h => by cases h⟩
        (fun _ _ h => by cases h)

/-- **Traffic.** In every run of routing calls, drain requests and archive jobs, in any number
and order, in which calls commit weight only for deployments that may serve, no deployment
that has weight on a project or alias route is draining or archived, in any state. -/
theorem traffic_is_served {s t : State} {actions : List Action} (hinit : s.Initial)
    (hrun : machine.exec s actions = some t)
    (htimely : machine.Meets (fun s action => Timely s action = true) s actions) :
    TrafficServed t := by
  obtain ⟨projectId, hs⟩ := hinit.coherent
  exact (machine.exec_invariant (fun _ _ _ hs htimely hstep => step_coherent hs htimely hstep)
    hs htimely hrun).served

/-! ## A promotion beside an archive -/

/-- Four deployments run, and the stable route gives the latest all of its weight. -/
def fourDeployments : State :=
  { projects := []
    deployments := [⟨"first", "project", "aaaa", .running⟩, ⟨"second", "project", "bbbb", .running⟩,
      ⟨"third", "project", "cccc", .running⟩, ⟨"fourth", "project", "dddd", .running⟩]
    routes := [⟨"route", "project", "agent.localhost", .project, true, 1⟩]
    targets := [⟨⟨"route", "fourth", 10000, none⟩, 0⟩], nextVersion := 1
    transactions := [], drains := [], archives := [] }

theorem fourDeployments_initial : fourDeployments.Initial where
  oneProject := ⟨"project", by simp [fourDeployments]⟩
  routeKeys := by simp [Table.UniqueOn, fourDeployments]
  deploymentKeys := by simp [Table.UniqueOn, fourDeployments]
  references := by simp [fourDeployments]
  served := by
    intro deployment hdeployment _
    have hrunning : ∀ d ∈ fourDeployments.deployments, d.status = .running := by decide
    rw [hrunning deployment hdeployment]
    decide
  idle := ⟨rfl, rfl, rfl⟩

/-- Nothing throws, and nothing but its routes protects the deployment. -/
def calm : ArchiveChoice := ⟨false, false⟩

/-- The third deployment is promoted, and then the fourth is drained and the first archived. -/
def replacedInTurn : List Action :=
  [.call (.promoteDeployment "project" "third"), .statement 0, .statement 0, .statement 0,
   .statement 0, .commit 0,
   .requestDrain "project" "fourth", .drain 0, .drain 0, .drain 0, .drain 0,
   .archiveJob "project" "first" false, .archive 0 calm, .archive 0 calm, .archive 0 calm,
   .archive 0 calm, .archive 0 calm, .archive 0 calm]

/-- `replacedInTurn` leaves the traffic to a deployment that runs. -/
theorem traffic_is_served_replacedInTurn :
    ∃ t, machine.exec fourDeployments replacedInTurn = some t ∧ TrafficServed t ∧
      t.deployments.map Deployment.status = [.archived, .running, .running, .draining] := by
  have htimely : machine.Meets (fun s action => Timely s action = true) fourDeployments
      replacedInTurn := by decide
  exact ⟨_, rfl, traffic_is_served fourDeployments_initial rfl htimely, rfl⟩

/-- The first deployment is promoted again: the promotion has read its status and commits after
an archive job has read the routes and before it writes its last status. -/
def archivedWhilePromoted : List Action :=
  [.call (.promoteDeployment "project" "first"), .statement 0, .statement 0, .statement 0,
   .statement 0,
   .archiveJob "project" "first" false, .archive 0 calm, .archive 0 calm, .archive 0 calm,
   .archive 0 calm, .archive 0 calm,
   .commit 0,
   .archive 0 calm]

/-- The stable route then gives all of its weight to an archived deployment. -/
theorem archived_deployment_has_traffic :
    ¬ ∀ (s t : State) (actions : List Action), s.Initial →
      machine.exec s actions = some t → Quiescent t → TrafficServed t := by
  intro hall
  have hquiescent : Quiescent
      ((machine.exec fourDeployments archivedWhilePromoted).getD fourDeployments) := by
    refine ⟨?_, ?_, ?_⟩ <;> decide
  have hserved :=
    hall fourDeployments _ archivedWhilePromoted fourDeployments_initial rfl hquiescent
  have hstatus := hserved ⟨"first", "project", "aaaa", .archived⟩ List.mem_cons_self
    ⟨⟨⟨"route", "first", 10000, none⟩, 1⟩, List.mem_cons_self, rfl,
      _, List.mem_cons_self, rfl, by decide⟩
  exact hstatus.2 rfl

end Eveland.RoutingTransactions
