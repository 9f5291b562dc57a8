/-
# Changes of one route

Every call that writes routes changes them one at a time: a route is inserted or updated
and its targets become others. What holds of such a change, that it keeps the hostnames
and targets of every project apart and leaves other routes alone, carries over to the
calls built of them.
-/

import Eveland.Store.RoutingStore

namespace Eveland.RoutingStore

/-! ## The invariant of all calls -/

/-- The hostname of a route is one of its own project. -/
def HostnameOf (slug : Slug) (domain : String) (route : AgentRoute) : Prop :=
  match route.kind with
  | .project => route.hostname = projectHostname slug domain
  | _ => ∃ label, route.hostname = labelledHostname label slug domain

/-- A deployment of the project. -/
def Store.Owns (s : Store) (projectId deploymentId : String) : Prop :=
  ∃ d ∈ s.deployments, d.id = deploymentId ∧ d.projectId = projectId

/-- What every call keeps of the store. -/
structure Sound (baseDomain : String) (s : Store) : Prop where
  projectIds : Table.UniqueOn Project.id s.projects
  slugs : Table.UniqueOn Project.slug s.projects
  routeIds : Table.UniqueOn AgentRoute.id s.routes
  hostnames : ∀ r ∈ s.routes, ∃ p ∈ s.projects, p.id = r.projectId ∧
    ∀ domain, normalizeBaseDomain baseDomain = .ok domain → HostnameOf p.slug domain r
  owned : ∀ t ∈ s.targets, ∃ r ∈ s.routes, r.id = t.routeId ∧
    s.Owns r.projectId t.deploymentId

/-- Two routes of one hostname, up to its alias, belong to one project. -/
theorem Sound.project_eq {baseDomain domain label : String} {s : Store}
    (h : Sound baseDomain s) (hdomain : normalizeBaseDomain baseDomain = .ok domain)
    {project : Project} (hproject : project ∈ s.projects) {route : AgentRoute}
    (hroute : route ∈ s.routes)
    (hhostname : route.hostname = labelledHostname label project.slug domain) :
    route.projectId = project.id ∧ route.kind ≠ .project := by
  obtain ⟨owner, howner, hid, hformat⟩ := h.hostnames route hroute
  have hformat := hformat domain hdomain
  have hslug : owner.slug = project.slug ∧ route.kind ≠ .project := by
    unfold HostnameOf at hformat
    cases hkind : route.kind with
    | project =>
        rw [hkind] at hformat
        exact absurd (hhostname.symm.trans hformat) (labelledHostname_ne_projectHostname _ _ _ _)
    | deployment =>
        rw [hkind] at hformat
        obtain ⟨label', hlabel'⟩ := hformat
        exact ⟨(labelledHostname_inj (hlabel'.symm.trans hhostname)).2, by decide⟩
    | aliased =>
        rw [hkind] at hformat
        obtain ⟨label', hlabel'⟩ := hformat
        exact ⟨(labelledHostname_inj (hlabel'.symm.trans hhostname)).2, by decide⟩
  exact ⟨by rw [← hid, h.slugs.eq howner hproject hslug.1], hslug.2⟩

/-! ## Changing one route -/

/-- One route is inserted or updated to `row`, and its targets become `targets`. -/
structure Change (row : AgentRoute) (targets : List RouteTarget) (s t : Store) : Prop where
  projects : t.projects = s.projects
  deployments : t.deployments = s.deployments
  keyed : Table.UniqueOn AgentRoute.id s.routes → Table.UniqueOn AgentRoute.id t.routes
  mem : ∀ r, r ∈ t.routes ↔ r = row ∨ (r ∈ s.routes ∧ r.id ≠ row.id)
  origin : (∃ old ∈ s.routes, old.id = row.id ∧ old.projectId = row.projectId ∧
    old.kind = row.kind) ∨ ∀ r ∈ s.routes, r.id ≠ row.id
  here : t.targetsOf row.id = targets
  others : ∀ routeId, routeId ≠ row.id → t.targetsOf routeId = s.targetsOf routeId

namespace Change

variable {baseDomain : String} {row : AgentRoute} {targets : List RouteTarget} {s t : Store}

theorem putRoute {old : AgentRoute} (hold : old ∈ s.routes) (hid : row.id = old.id)
    (hproject : row.projectId = old.projectId) (hkind : row.kind = old.kind) :
    Change row (s.targetsOf row.id) s (s.putRoute row) where
  projects := rfl
  deployments := rfl
  keyed hkeyed := by
    have hsame : (s.putRoute row).routes =
        Table.updateWhere (fun r => r.id = row.id) (fun r => { row with id := r.id }) s.routes := by
      apply List.map_congr_left
      intro r _
      by_cases hr : r.id = row.id
      · simp [hr]
      · simp [hr]
    rw [hsame]
    exact hkeyed.updateWhere fun _ => rfl
  mem r := by
    rw [Store.putRoute, Table.mem_updateWhere]
    constructor
    · rintro (⟨hr, hne⟩ | ⟨prior, _, _, rfl⟩)
      · exact Or.inr ⟨hr, by simpa using hne⟩
      · exact Or.inl rfl
    · rintro (rfl | ⟨hr, hne⟩)
      · exact Or.inr ⟨old, hold, by simp [hid], rfl⟩
      · exact Or.inl ⟨hr, by simpa using hne⟩
  origin := Or.inl ⟨old, hold, hid.symm, hproject.symm, hkind.symm⟩
  here := rfl
  others _ _ := rfl

theorem append (hfresh : ∀ r ∈ s.routes, r.id ≠ row.id) :
    Change row (s.targetsOf row.id) s { s with routes := s.routes ++ [row] } where
  projects := rfl
  deployments := rfl
  keyed hkeyed := hkeyed.append hfresh
  mem r := by
    rw [List.mem_append, List.mem_singleton]
    constructor
    · rintro (hr | rfl)
      · exact Or.inr ⟨hr, hfresh r hr⟩
      · exact Or.inl rfl
    · rintro (rfl | ⟨hr, _⟩)
      · exact Or.inr rfl
      · exact Or.inl hr
  origin := Or.inr hfresh
  here := rfl
  others _ _ := rfl

/-- A change of the targets alone. -/
theorem retarget (hrow : row ∈ s.routes) (hkeyed : Table.UniqueOn AgentRoute.id s.routes)
    (hprojects : t.projects = s.projects) (hdeployments : t.deployments = s.deployments)
    (hroutes : t.routes = s.routes)
    (hothers : ∀ routeId, routeId ≠ row.id → t.targetsOf routeId = s.targetsOf routeId) :
    Change row (t.targetsOf row.id) s t where
  projects := hprojects
  deployments := hdeployments
  keyed _ := hroutes ▸ hkeyed
  mem r := by
    rw [hroutes]
    constructor
    · intro hr
      by_cases hid : r.id = row.id
      · exact Or.inl (hkeyed.eq hr hrow hid)
      · exact Or.inr ⟨hr, hid⟩
    · rintro (rfl | ⟨hr, _⟩)
      · exact hrow
      · exact hr
  origin := Or.inl ⟨row, hrow, rfl, rfl, rfl⟩
  here := rfl
  others := hothers

theorem mem_self (h : Change row targets s t) : row ∈ t.routes := (h.mem row).mpr (Or.inl rfl)

/-- Two changes of one route make one. -/
theorem trans {row' : AgentRoute} {targets' : List RouteTarget} {u : Store}
    (h : Change row targets s t) (h' : Change row' targets' t u) (hid : row'.id = row.id)
    (hproject : row'.projectId = row.projectId) (hkind : row'.kind = row.kind) :
    Change row' targets' s u where
  projects := h'.projects.trans h.projects
  deployments := h'.deployments.trans h.deployments
  keyed hkeyed := h'.keyed (h.keyed hkeyed)
  mem r := by
    rw [h'.mem, h.mem]
    constructor
    · rintro (rfl | ⟨rfl | ⟨hr, _⟩, hne⟩)
      · exact Or.inl rfl
      · exact absurd hid.symm hne
      · exact Or.inr ⟨hr, hne⟩
    · rintro (rfl | ⟨hr, hne⟩)
      · exact Or.inl rfl
      · exact Or.inr ⟨Or.inr ⟨hr, hid ▸ hne⟩, hne⟩
  origin := by
    rw [hid, hproject, hkind]
    exact h.origin
  here := h'.here
  others routeId hne := (h'.others routeId hne).trans (h.others routeId (hid ▸ hne))

theorem owns (h : Change row targets s t) {projectId deploymentId : String} :
    t.Owns projectId deploymentId ↔ s.Owns projectId deploymentId := by
  rw [Store.Owns, Store.Owns, h.deployments]

end Change

/-- The hostname of a route belongs to the project the route belongs to. -/
def Named (baseDomain : String) (s : Store) (route : AgentRoute) : Prop :=
  ∃ p ∈ s.projects, p.id = route.projectId ∧
    ∀ domain, normalizeBaseDomain baseDomain = .ok domain → HostnameOf p.slug domain route

/-- A change of one route keeps the invariant when the route is named after its project and
its targets are deployments of it. -/
theorem Sound.change {baseDomain : String} {row : AgentRoute} {targets : List RouteTarget}
    {s t : Store} (h : Sound baseDomain s) (hchange : Change row targets s t)
    (hnamed : Named baseDomain s row)
    (htargets : ∀ target ∈ targets, s.Owns row.projectId target.deploymentId) :
    Sound baseDomain t where
  projectIds := hchange.projects ▸ h.projectIds
  slugs := hchange.projects ▸ h.slugs
  routeIds := hchange.keyed h.routeIds
  hostnames r hr := by
    rw [hchange.projects]
    rcases (hchange.mem r).mp hr with rfl | ⟨hold, _⟩
    · exact hnamed
    · exact h.hostnames r hold
  owned target htarget := by
    have hmem : target ∈ t.targetsOf target.routeId :=
      List.mem_filter.mpr ⟨htarget, by simp⟩
    by_cases hid : target.routeId = row.id
    · rw [hid, hchange.here] at hmem
      exact ⟨row, hchange.mem_self, hid.symm, hchange.owns.mpr (htargets target hmem)⟩
    · rw [hchange.others _ hid] at hmem
      obtain ⟨r, hr, hrid, howns⟩ := h.owned target (List.mem_filter.mp hmem).1
      exact ⟨r, (hchange.mem r).mpr (Or.inr ⟨hr, hrid ▸ hid⟩), hrid, hchange.owns.mpr howns⟩

/-- The stored targets of a route, old or new, are deployments of its project. -/
theorem Sound.targetsOf_owned {baseDomain : String} {row : AgentRoute}
    {targets : List RouteTarget} {s t : Store} (h : Sound baseDomain s)
    (hchange : Change row targets s t) :
    ∀ target ∈ s.targetsOf row.id, s.Owns row.projectId target.deploymentId := by
  intro target htarget
  obtain ⟨hstored, hid⟩ := List.mem_filter.mp htarget
  obtain ⟨r, hr, hrid, howns⟩ := h.owned target hstored
  have hrow : r.id = row.id := hrid.trans (by simpa using hid)
  rcases hchange.origin with ⟨old, hold, holdId, hproject, _⟩ | hfresh
  · rw [← hproject, ← h.routeIds.eq hr hold (hrow.trans holdId.symm)]
    exact howns
  · exact absurd hrow (hfresh r hr)

/-! ## Other projects -/

/-- The routes of other projects, and their targets, are as they were. -/
def KeepsForeign (projectId : String) (s t : Store) : Prop :=
  ∀ r : AgentRoute, r.projectId ≠ projectId →
    (r ∈ t.routes ↔ r ∈ s.routes) ∧ (r ∈ s.routes → t.targetsOf r.id = s.targetsOf r.id)

theorem KeepsForeign.of_eq {projectId : String} {s t : Store} (hroutes : t.routes = s.routes)
    (htargets : t.targets = s.targets) : KeepsForeign projectId s t := by
  intro r _
  rw [hroutes, Store.targetsOf, Store.targetsOf, htargets]
  exact ⟨Iff.rfl, fun _ => rfl⟩

theorem KeepsForeign.trans {projectId : String} {s t u : Store}
    (h : KeepsForeign projectId s t) (h' : KeepsForeign projectId t u) :
    KeepsForeign projectId s u := fun r hr =>
  ⟨(h' r hr).1.trans (h r hr).1, fun hmem =>
    ((h' r hr).2 ((h r hr).1.mpr hmem)).trans ((h r hr).2 hmem)⟩

/-- A route that is changed is one of its own project before and after. -/
theorem Change.keepsForeign {row : AgentRoute} {targets : List RouteTarget} {s t : Store}
    (hchange : Change row targets s t) (hkeyed : Table.UniqueOn AgentRoute.id s.routes) :
    KeepsForeign row.projectId s t := by
  intro r hforeign
  have hne : r ∈ s.routes → r.id ≠ row.id := by
    intro hr hid
    rcases hchange.origin with ⟨old, hold, holdId, hproject, _⟩ | hfresh
    · rw [hkeyed.eq hr hold (hid.trans holdId.symm)] at hforeign
      exact hforeign hproject
    · exact hfresh r hr hid
  refine ⟨?_, fun hr => hchange.others r.id (hne hr)⟩
  rw [hchange.mem]
  constructor
  · rintro (rfl | ⟨hr, _⟩)
    · exact absurd rfl hforeign
    · exact hr
  · intro hr
    exact Or.inr ⟨hr, hne hr⟩

/-! ## Preview routes -/

/-- The store, and for each preview route the deployment it was created for. The latter is
not stored; it records the history. -/
structure Tracked where
  store : Store
  createdFor : List (String × String)

/-- The record of the previews once a preview of the deployment was written. -/
def recordPreview (s : Store) (createdFor : List (String × String)) (preview : AgentRoute)
    (deploymentId : String) : List (String × String) :=
  if s.routes.any fun r => r.id = preview.id then createdFor
  else createdFor ++ [(preview.id, deploymentId)]

/-- The targets of a preview: one deployment, with all of the weight. -/
def IsPreviewOf (deploymentId : String) (targets : List RouteTarget) : Prop :=
  targets.map (fun t => (t.deploymentId, t.weight)) = [(deploymentId, 10000)]

/-- Every preview route has one target, the deployment it was created for, with all of the
weight. -/
def PreviewsFixed (s : Tracked) : Prop :=
  ∀ r ∈ s.store.routes, r.kind = .deployment → ∀ d, (r.id, d) ∈ s.createdFor →
    IsPreviewOf d (s.store.targetsOf r.id)

/-- What every call keeps of the record of the previews. -/
structure Recorded (s : Tracked) : Prop where
  unique : Table.UniqueOn Prod.fst s.createdFor
  exists_route : ∀ entry ∈ s.createdFor, ∃ r ∈ s.store.routes, r.id = entry.1
  exists_entry : ∀ r ∈ s.store.routes, r.kind = .deployment → ∃ d, (r.id, d) ∈ s.createdFor

/-- A change of a route leaves the previews fixed exactly when it leaves this one fixed. -/
theorem previewsFixed_change {row : AgentRoute} {targets : List RouteTarget} {s t : Store}
    {createdFor : List (String × String)} (hchange : Change row targets s t)
    (hfixed : PreviewsFixed ⟨s, createdFor⟩) :
    PreviewsFixed ⟨t, createdFor⟩ ↔ (row.kind = .deployment → ∀ d, (row.id, d) ∈ createdFor →
      IsPreviewOf d targets) := by
  constructor
  · intro hafter hkind d hd
    have := hafter row hchange.mem_self hkind d hd
    rwa [hchange.here] at this
  · intro hrow r hr hkind d hd
    rcases (hchange.mem r).mp hr with rfl | ⟨hold, hne⟩
    · rw [hchange.here]
      exact hrow hkind d hd
    · rw [hchange.others r.id hne]
      exact hfixed r hold hkind d hd

/-- A change of a route that is no new preview keeps the record. -/
theorem Recorded.change {row : AgentRoute} {targets : List RouteTarget} {s t : Store}
    {createdFor : List (String × String)} (h : Recorded ⟨s, createdFor⟩)
    (hchange : Change row targets s t)
    (hold : row.kind = .deployment → ∃ d, (row.id, d) ∈ createdFor) :
    Recorded ⟨t, createdFor⟩ where
  unique := h.unique
  exists_route entry hentry := by
    obtain ⟨r, hr, hid⟩ := h.exists_route entry hentry
    by_cases hrow : r.id = row.id
    · exact ⟨row, hchange.mem_self, hrow.symm.trans hid⟩
    · exact ⟨r, (hchange.mem r).mpr (Or.inr ⟨hr, hrow⟩), hid⟩
  exists_entry r hr hkind := by
    rcases (hchange.mem r).mp hr with rfl | ⟨hr, _⟩
    · exact hold hkind
    · exact h.exists_entry r hr hkind

/-! ## What the calls change -/

theorem renameRoute_change {s t : Store} {route row : AgentRoute} {hostname : String}
    (hroute : route ∈ s.routes) (hrename : renameRoute s route hostname = .ok (t, row)) :
    row = { route with hostname, enabled := true } ∧ Change row (s.targetsOf row.id) s t := by
  obtain ⟨_, _, hok⟩ := Outcome.bind_eq_ok.mp hrename
  cases hok
  exact ⟨rfl, Change.putRoute hroute rfl rfl rfl⟩

theorem insertRoute_change {s t : Store} {routeId projectId hostname : String}
    {kind : RouteKind} {row : AgentRoute}
    (hinsert : insertRoute s routeId projectId hostname kind = .ok (t, row)) :
    row = { id := routeId, projectId, hostname, kind, enabled := true, policyRevision := 1 } ∧
      (∀ r ∈ s.routes, r.id ≠ row.id) ∧ Change row (s.targetsOf row.id) s t := by
  obtain ⟨_, hfresh, hinsert⟩ := Outcome.bind_eq_ok.mp hinsert
  obtain ⟨_, _, hok⟩ := Outcome.bind_eq_ok.mp hinsert
  cases hok
  have hfresh : ∀ r ∈ s.routes, r.id ≠ routeId := fun r hr => by
    simpa using List.all_eq_true.mp (Outcome.ensure_eq_ok.mp hfresh) r hr
  exact ⟨rfl, hfresh, Change.append hfresh⟩

/-- The route that is materialized: the one found under a new hostname, or a new one. -/
theorem materializeRoute_change {s t : Store} {found : Option AgentRoute}
    {routeId projectId hostname : String} {kind : RouteKind} {row : AgentRoute}
    (hfound : ∀ r, found = some r → r ∈ s.routes ∧ r.projectId = projectId ∧ r.kind = kind)
    (hmaterialize : materializeRoute s found routeId projectId hostname kind = .ok (t, row)) :
    row.projectId = projectId ∧ row.kind = kind ∧ row.hostname = hostname ∧
      Change row (s.targetsOf row.id) s t ∧
      ((∃ r, found = some r ∧ r.id = row.id) ∨
        (found = none ∧ ∀ r ∈ s.routes, r.id ≠ row.id)) := by
  cases hcase : found with
  | some route =>
      rw [hcase] at hmaterialize
      obtain ⟨hroute, hproject, hkind⟩ := hfound route hcase
      obtain ⟨rfl, hchange⟩ := renameRoute_change hroute hmaterialize
      exact ⟨hproject, hkind, rfl, hchange, Or.inl ⟨route, rfl, rfl⟩⟩
  | none =>
      rw [hcase] at hmaterialize
      obtain ⟨rfl, hfresh, hchange⟩ := insertRoute_change hmaterialize
      exact ⟨rfl, rfl, rfl, hchange, Or.inr ⟨rfl, hfresh⟩⟩

theorem insertTargets_eq {s t : Store} {routeId : String} {targets : List RouteTargetInput}
    (hinsert : insertTargets s routeId targets = .ok t) :
    t = { s with targets := s.targets ++ targets.map (RouteTarget.ofInput routeId) } := by
  obtain ⟨_, _, hinsert⟩ := Outcome.bind_eq_ok.mp hinsert
  obtain ⟨_, _, hok⟩ := Outcome.bind_eq_ok.mp hinsert
  cases hok
  rfl

/-- Inserted targets are appended to those of their route. -/
theorem targetsOf_insert (s : Store) (routeId other : String) (targets : List RouteTargetInput) :
    ({ s with targets := s.targets ++ targets.map (RouteTarget.ofInput routeId) } :
      Store).targetsOf other =
      s.targetsOf other ++
        if other = routeId then targets.map (RouteTarget.ofInput routeId) else [] := by
  rw [Store.targetsOf, Store.targetsOf, List.filter_append]
  congr 1
  split
  · next hsame =>
      rw [List.filter_eq_self]
      intro target htarget
      obtain ⟨input, _, rfl⟩ := List.mem_map.mp htarget
      simp [RouteTarget.ofInput, hsame]
  · next hne =>
      rw [List.filter_eq_nil_iff]
      intro target htarget
      obtain ⟨input, _, rfl⟩ := List.mem_map.mp htarget
      simp [RouteTarget.ofInput, Ne.symm hne]

theorem replaceTargets_change {s t : Store} {row : AgentRoute} {targets : List RouteTargetInput}
    (hrow : row ∈ s.routes) (hkeyed : Table.UniqueOn AgentRoute.id s.routes)
    (hreplace : replaceTargets s row.id targets = .ok t) :
    Change row (targets.map (RouteTarget.ofInput row.id)) s t := by
  obtain rfl := insertTargets_eq hreplace
  have hchange := Change.retarget (t := { s with
    targets := (s.targets.filter fun t => t.routeId ≠ row.id) ++
      targets.map (RouteTarget.ofInput row.id) }) hrow hkeyed rfl rfl rfl ?_
  · rwa [targetsOf_insert { s with targets := s.targets.filter fun t => t.routeId ≠ row.id },
      if_pos rfl, Store.targetsOf, List.filter_filter, List.filter_eq_nil_iff.mpr,
      List.nil_append] at hchange
    simp
  · intro routeId hne
    rw [targetsOf_insert { s with targets := s.targets.filter fun t => t.routeId ≠ row.id },
      if_neg hne, List.append_nil, Store.targetsOf, Store.targetsOf, List.filter_filter]
    apply List.filter_congr
    intro target _
    by_cases hid : target.routeId = routeId <;> simp [hid, hne]

/-- New targets under a new policy revision. -/
theorem replaceTargets_bump_change {s m : Store} {route : AgentRoute}
    {targets : List RouteTargetInput} (hroute : route ∈ s.routes)
    (hkeyed : Table.UniqueOn AgentRoute.id s.routes)
    (hreplace : replaceTargets s route.id targets = .ok m) :
    Change { route with policyRevision := route.policyRevision + 1 }
      (targets.map (RouteTarget.ofInput route.id)) s (bumpRevision m route) := by
  have hchange := replaceTargets_change hroute hkeyed hreplace
  have hbump : Change { route with policyRevision := route.policyRevision + 1 }
      (m.targetsOf route.id) m (bumpRevision m route) :=
    Change.putRoute hchange.mem_self rfl rfl rfl
  rw [hchange.here] at hbump
  exact hchange.trans hbump rfl rfl rfl

/-- The targets a check accepts are deployments of the project. -/
theorem owns_of_findOwn {s : Store} {projectId : String} {target : RouteTargetInput}
    {deployment : Deployment} (hfound : s.findOwn projectId target = some deployment) :
    s.Owns projectId target.deploymentId := by
  obtain ⟨hfound, hproject⟩ := Option.filter_eq_some_iff.mp hfound
  exact ⟨deployment, List.mem_of_find?_eq_some hfound, by simpa using List.find?_some hfound,
    by simpa using hproject⟩

/-- What `updateRouteTargets` and `promoteDeployment` do to a route that is no preview, and
`ensureAliasRoute` to the route it finds or inserts. -/
structure Retargets (baseDomain : String) (projectId : String) (targets : List RouteTargetInput)
    (row : AgentRoute) (s t : Store) : Prop where
  project : row.projectId = projectId
  named : Named baseDomain s row
  owned : ∀ target ∈ targets, s.Owns projectId target.deploymentId
  change : Change row (targets.map (RouteTarget.ofInput row.id)) s t

/-- A new revision of a stored route is named as the route is. -/
theorem Sound.named_of_mem {baseDomain : String} {s : Store} (h : Sound baseDomain s)
    {route row : AgentRoute} (hroute : route ∈ s.routes) (hproject : row.projectId = route.projectId)
    (hkind : row.kind = route.kind) (hhostname : row.hostname = route.hostname) :
    Named baseDomain s row := by
  obtain ⟨p, hp, hid, hformat⟩ := h.hostnames route hroute
  refine ⟨p, hp, hid.trans hproject.symm, fun domain hdomain => ?_⟩
  have := hformat domain hdomain
  unfold HostnameOf at this ⊢
  rwa [hkind, hhostname]

theorem updateRouteTargets_retargets {baseDomain : String} {s t : Store} {routeId : String}
    {targets : List RouteTargetInput} (h : Sound baseDomain s)
    (hupdate : updateRouteTargets s routeId targets = .ok t) :
    ∃ route row, s.routes.find? (fun r => r.id = routeId) = some route ∧
      row.kind = route.kind ∧ row.kind ≠ .deployment ∧
      Retargets baseDomain route.projectId targets row s t := by
  unfold updateRouteTargets at hupdate
  obtain ⟨_, _, hupdate⟩ := Outcome.bind_eq_ok.mp hupdate
  obtain ⟨route, hfound, hupdate⟩ := Outcome.bind_eq_ok.mp hupdate
  obtain ⟨_, hkind, hupdate⟩ := Outcome.bind_eq_ok.mp hupdate
  obtain ⟨_, hchecked, hupdate⟩ := Outcome.bind_eq_ok.mp hupdate
  obtain ⟨m, hreplace, hok⟩ := Outcome.bind_eq_ok.mp hupdate
  cases hok
  have hfound := Outcome.require_eq_ok.mp hfound
  have hroute := List.mem_of_find?_eq_some hfound
  have hid : route.id = routeId := by simpa using List.find?_some hfound
  rw [← hid] at hreplace
  refine ⟨route, { route with policyRevision := route.policyRevision + 1 }, hfound, rfl,
    by simpa using hkind, rfl, h.named_of_mem hroute rfl rfl rfl, ?_,
    replaceTargets_bump_change hroute h.routeIds hreplace⟩
  intro target htarget
  obtain ⟨deployment, hown, _⟩ :=
    Outcome.bind_eq_ok.mp (Outcome.each_eq_ok.mp hchecked target htarget)
  exact owns_of_findOwn (Outcome.require_eq_ok.mp hown)

theorem promoteDeployment_retargets {baseDomain : String} {s t : Store}
    {projectId deploymentId : String} (h : Sound baseDomain s)
    (hpromote : promoteDeployment s projectId deploymentId = .ok t) :
    ∃ row, row.kind = .project ∧
      Retargets baseDomain projectId [wholeWeight deploymentId] row s t := by
  unfold promoteDeployment at hpromote
  obtain ⟨route, hfound, hpromote⟩ := Outcome.bind_eq_ok.mp hpromote
  obtain ⟨deployment, hdeployment, hpromote⟩ := Outcome.bind_eq_ok.mp hpromote
  obtain ⟨_, _, hpromote⟩ := Outcome.bind_eq_ok.mp hpromote
  obtain ⟨m, hreplace, hok⟩ := Outcome.bind_eq_ok.mp hpromote
  cases hok
  have hfound := Outcome.require_eq_ok.mp hfound
  have hroute := List.mem_of_find?_eq_some hfound
  have hkey := List.find?_some hfound
  simp only [Bool.and_eq_true, decide_eq_true_eq] at hkey
  have hdeployment := Outcome.require_eq_ok.mp hdeployment
  have howns := List.find?_some hdeployment
  simp only [Bool.and_eq_true, decide_eq_true_eq] at howns
  refine ⟨{ route with policyRevision := route.policyRevision + 1 }, hkey.2, hkey.1,
    h.named_of_mem hroute rfl rfl rfl, ?_,
    replaceTargets_bump_change hroute h.routeIds hreplace⟩
  intro target htarget
  rw [List.mem_singleton.mp htarget]
  exact ⟨deployment, List.mem_of_find?_eq_some hdeployment, howns.1, howns.2⟩

/-- `ensureAliasRoute` writes to the route that has the hostname, which is no stable route,
or to a new alias. -/
theorem ensureAliasRoute_retargets {baseDomain : String} {s t : Store}
    {projectId label routeId : String} {targets : List RouteTargetInput} (h : Sound baseDomain s)
    (hensure : ensureAliasRoute s projectId label baseDomain targets routeId = .ok t) :
    ∃ project domain row, s.findProject projectId = some project ∧
      normalizeBaseDomain baseDomain = .ok domain ∧ ValidTargets targets ∧
      Retargets baseDomain projectId targets row s t ∧
      ((∃ existing, s.routes.find? (fun r =>
            r.hostname = labelledHostname label project.slug domain) = some existing ∧
          row.id = existing.id ∧ row.kind = existing.kind) ∨
        (s.routes.find? (fun r =>
            r.hostname = labelledHostname label project.slug domain) = none ∧
          row.kind = .aliased)) := by
  unfold ensureAliasRoute at hensure
  obtain ⟨_, hvalid, hensure⟩ := Outcome.bind_eq_ok.mp hensure
  obtain ⟨_, _, hensure⟩ := Outcome.bind_eq_ok.mp hensure
  obtain ⟨project, hproject, hensure⟩ := Outcome.bind_eq_ok.mp hensure
  obtain ⟨_, hchecked, hensure⟩ := Outcome.bind_eq_ok.mp hensure
  obtain ⟨domain, hdomain, hensure⟩ := Outcome.bind_eq_ok.mp hensure
  obtain ⟨⟨m, row⟩, halias, hreplace⟩ := Outcome.bind_eq_ok.mp hensure
  have hproject := Outcome.require_eq_ok.mp hproject
  have hstored := List.mem_of_find?_eq_some hproject
  have hid : project.id = projectId := by simpa using List.find?_some hproject
  have howned : ∀ target ∈ targets, s.Owns projectId target.deploymentId := by
    intro target htarget
    obtain ⟨deployment, hown, _⟩ :=
      Outcome.bind_eq_ok.mp (Outcome.each_eq_ok.mp hchecked target htarget)
    exact owns_of_findOwn (Outcome.require_eq_ok.mp hown)
  have hvalid := validateRouteTargets_eq_ok.mp hvalid
  unfold materializeAlias at halias
  split at halias
  · next existing hexisting =>
      cases halias
      have hroute := List.mem_of_find?_eq_some hexisting
      have hhostname := List.find?_some hexisting
      simp only [decide_eq_true_eq] at hhostname
      -- The hostname names the caller's project, so the route found is one of its own.
      obtain ⟨hown, _⟩ := h.project_eq hdomain hstored hroute hhostname
      have hput : Change { existing with
          enabled := true, policyRevision := existing.policyRevision + 1 } _ s _ :=
        Change.putRoute hroute rfl rfl rfl
      have hreplaced := replaceTargets_change hput.mem_self (hput.keyed h.routeIds) hreplace
      exact ⟨project, domain,
        { existing with enabled := true, policyRevision := existing.policyRevision + 1 },
        hproject, hdomain, hvalid,
        ⟨hown.trans hid, h.named_of_mem hroute rfl rfl rfl, howned,
          hput.trans hreplaced rfl rfl rfl⟩,
        Or.inl ⟨existing, hexisting, rfl, rfl⟩⟩
  · next hnone =>
      obtain ⟨rfl, hfresh, hinsert⟩ := insertRoute_change halias
      have hreplaced := replaceTargets_change hinsert.mem_self (hinsert.keyed h.routeIds) hreplace
      refine ⟨project, domain, _, hproject, hdomain, hvalid,
        ⟨rfl, ⟨project, hstored, hid, ?_⟩, howned, hinsert.trans hreplaced rfl rfl rfl⟩,
        Or.inr ⟨hnone, rfl⟩⟩
      intro domain' hdomain'
      cases hdomain.symm.trans hdomain'
      exact ⟨label, rfl⟩

/-! ## Creating a preview -/

theorem isPreviewOf_iff {deploymentId : String} {targets : List RouteTarget} :
    IsPreviewOf deploymentId targets ↔
      ∃ target, targets = [target] ∧ target.deploymentId = deploymentId ∧
        target.weight = 10000 := by
  simp [IsPreviewOf, List.map_eq_singleton_iff]

/-- The upsert of a target, seen from its own route. -/
theorem targetsOf_upsertTarget (s : Store) (routeId deploymentId : String) :
    (upsertTarget s routeId deploymentId).targetsOf routeId =
      if (s.targetsOf routeId).any fun t => t.deploymentId = deploymentId then
        Table.updateWhere (fun t => t.deploymentId = deploymentId)
          (fun t => { t with weight := 10000, variantName := none }) (s.targetsOf routeId)
      else s.targetsOf routeId ++ [RouteTarget.ofInput routeId (wholeWeight deploymentId)] := by
  have hany : (s.targets.any fun t => t.routeId = routeId && t.deploymentId = deploymentId) =
      (s.targetsOf routeId).any fun t => t.deploymentId = deploymentId := by
    rw [Store.targetsOf, List.any_filter]
  rw [upsertTarget, Store.targetsOf, Table.upsertWhere, hany]
  by_cases hexists : (s.targetsOf routeId).any (fun t => t.deploymentId = deploymentId) = true
  · rw [if_pos hexists, if_pos hexists, Table.filter_updateWhere (by simp)]
    apply List.map_congr_left
    intro t ht
    have hroute : t.routeId = routeId := by simpa using (List.mem_filter.mp ht).2
    simp [hroute]
  · rw [if_neg hexists, if_neg hexists, List.filter_append]
    congr 1
    simp [RouteTarget.ofInput]

theorem targetsOf_upsertTarget_of_ne (s : Store) {routeId other : String} (deploymentId : String)
    (hne : other ≠ routeId) :
    (upsertTarget s routeId deploymentId).targetsOf other = s.targetsOf other := by
  rw [upsertTarget, Store.targetsOf, Table.upsertWhere]
  split
  · rw [Table.filter_updateWhere (by simp)]
    apply Table.updateWhere_eq_self
    intro t ht hsel
    have hroute : t.routeId = other := by simpa using (List.mem_filter.mp ht).2
    simp [hroute, hne] at hsel
  · rw [List.filter_append, Store.targetsOf]
    simp [RouteTarget.ofInput, Ne.symm hne]

theorem upsertTarget_owned {s : Store} {routeId deploymentId projectId : String}
    (howned : ∀ target ∈ s.targetsOf routeId, s.Owns projectId target.deploymentId)
    (howns : s.Owns projectId deploymentId) :
    ∀ target ∈ (upsertTarget s routeId deploymentId).targetsOf routeId,
      s.Owns projectId target.deploymentId := by
  intro target htarget
  rw [targetsOf_upsertTarget] at htarget
  split at htarget
  · rcases Table.mem_updateWhere.mp htarget with ⟨hold, _⟩ | ⟨old, hold, _, rfl⟩
    · exact howned target hold
    · exact howned old hold
  · rcases List.mem_append.mp htarget with hold | hnew
    · exact howned target hold
    · rw [List.mem_singleton.mp hnew]
      exact howns

/-- A preview whose one target is upserted again stays as it is. -/
theorem upsertTarget_isPreviewOf {s : Store} {routeId deploymentId : String}
    (hpreview : IsPreviewOf deploymentId (s.targetsOf routeId) ∨ s.targetsOf routeId = []) :
    IsPreviewOf deploymentId ((upsertTarget s routeId deploymentId).targetsOf routeId) := by
  rw [targetsOf_upsertTarget]
  rcases hpreview with hpreview | hempty
  · obtain ⟨target, htargets, hid, _⟩ := isPreviewOf_iff.mp hpreview
    rw [htargets]
    simp [hid, Table.updateWhere, IsPreviewOf]
  · rw [hempty]
    simp [IsPreviewOf, RouteTarget.ofInput, wholeWeight]

/-- A route without a stored row has no targets. -/
theorem Sound.targetsOf_eq_nil {baseDomain : String} {s : Store} (h : Sound baseDomain s)
    {routeId : String} (hnone : ∀ r ∈ s.routes, r.id ≠ routeId) : s.targetsOf routeId = [] := by
  rw [Store.targetsOf, List.filter_eq_nil_iff]
  intro target htarget hid
  obtain ⟨r, hr, hrid, _⟩ := h.owned target htarget
  exact hnone r hr (hrid.trans (by simpa using hid))

theorem ensureStableTarget_change {s t : Store} {row : AgentRoute} {deploymentId : String}
    (hrow : row ∈ s.routes) (hkeyed : Table.UniqueOn AgentRoute.id s.routes)
    (hensure : ensureStableTarget s row.id deploymentId = .ok t) :
    ∃ targets, Change row targets s t ∧ ∀ target ∈ targets,
      target ∈ s.targetsOf row.id ∨ target.deploymentId = deploymentId := by
  unfold ensureStableTarget at hensure
  split at hensure
  · obtain rfl := insertTargets_eq hensure
    refine ⟨_, Change.retarget hrow hkeyed rfl rfl rfl fun routeId hne => ?_, ?_⟩
    · rw [targetsOf_insert, if_neg hne, List.append_nil]
    · intro target htarget
      rw [targetsOf_insert, if_pos rfl] at htarget
      rcases List.mem_append.mp htarget with hold | hnew
      · exact Or.inl hold
      · rw [List.map_singleton, List.mem_singleton] at hnew
        exact Or.inr (hnew ▸ rfl)
  · cases hensure
    exact ⟨_, Change.retarget hrow hkeyed rfl rfl rfl fun _ _ => rfl, fun _ h => Or.inl h⟩

theorem upsertTarget_change {s : Store} {row : AgentRoute} (hrow : row ∈ s.routes)
    (hkeyed : Table.UniqueOn AgentRoute.id s.routes) (deploymentId : String) :
    Change row ((upsertTarget s row.id deploymentId).targetsOf row.id) s
      (upsertTarget s row.id deploymentId) :=
  Change.retarget hrow hkeyed rfl rfl rfl fun _ hne =>
    targetsOf_upsertTarget_of_ne s deploymentId hne

/-- The two routes `ensureDeploymentRoutes` writes, and the four writes it makes: the stable
route, the preview, the target of the stable route and the target of the preview. -/
structure Materializes (baseDomain projectId deploymentId : String) (s t : Store)
    (stable preview : AgentRoute) (s₁ s₂ s₃ : Store) : Prop where
  owns : s.Owns projectId deploymentId
  stableProject : stable.projectId = projectId
  stableKind : stable.kind = .project
  stableNamed : Named baseDomain s stable
  previewProject : preview.projectId = projectId
  previewKind : preview.kind = .deployment
  previewNamed : Named baseDomain s₁ preview
  stableRow : Change stable (s.targetsOf stable.id) s s₁
  previewRow : Change preview (s₁.targetsOf preview.id) s₁ s₂
  stableTarget : ∃ targets, Change stable targets s₂ s₃ ∧ ∀ target ∈ targets,
    target ∈ s₂.targetsOf stable.id ∨ target.deploymentId = deploymentId
  previewTarget : t = upsertTarget s₃ preview.id deploymentId
  /-- The preview is a stored one that has the deployment as a target, or a new one. -/
  found : (∃ r ∈ s₁.routes, r.kind = .deployment ∧ r.id = preview.id ∧
      ∃ target ∈ s₁.targetsOf r.id, target.deploymentId = deploymentId) ∨
    ∀ r ∈ s₁.routes, r.id ≠ preview.id

theorem ensureDeploymentRoutes_materializes {baseDomain : String} {s t : Store}
    {projectId deploymentId stableId previewId : String} {stable preview : AgentRoute}
    (h : Sound baseDomain s)
    (hensure : ensureDeploymentRoutes s projectId deploymentId baseDomain stableId previewId =
      .ok (t, stable, preview)) :
    ∃ s₁ s₂ s₃, Materializes baseDomain projectId deploymentId s t stable preview s₁ s₂ s₃ := by
  unfold ensureDeploymentRoutes at hensure
  obtain ⟨domain, hdomain, hensure⟩ := Outcome.bind_eq_ok.mp hensure
  obtain ⟨project, hproject, hensure⟩ := Outcome.bind_eq_ok.mp hensure
  obtain ⟨deployment, hdeployment, hensure⟩ := Outcome.bind_eq_ok.mp hensure
  obtain ⟨⟨s₁, stable'⟩, hstable, hensure⟩ := Outcome.bind_eq_ok.mp hensure
  obtain ⟨⟨s₂, preview'⟩, hpreview, hensure⟩ := Outcome.bind_eq_ok.mp hensure
  obtain ⟨s₃, htarget, hok⟩ := Outcome.bind_eq_ok.mp hensure
  cases hok
  have hproject := Outcome.require_eq_ok.mp hproject
  have hstored := List.mem_of_find?_eq_some hproject
  have hid : project.id = projectId := by simpa using List.find?_some hproject
  have hdeployment := Outcome.require_eq_ok.mp hdeployment
  have hkey := List.find?_some hdeployment
  simp only [Bool.and_eq_true, decide_eq_true_eq] at hkey
  obtain ⟨hstableProject, hstableKind, hstableName, hstableRow, _⟩ :=
    materializeRoute_change (fun r hr => by
      have hkind := List.find?_some hr
      simp only [Bool.and_eq_true, decide_eq_true_eq] at hkind
      exact ⟨List.mem_of_find?_eq_some hr, hkind.1, hkind.2⟩) hstable
  obtain ⟨hpreviewProject, hpreviewKind, hpreviewName, hpreviewRow, horigin⟩ :=
    materializeRoute_change (fun r hr => by
      have hkind := List.find?_some hr
      simp only [Bool.and_eq_true, decide_eq_true_eq] at hkind
      exact ⟨List.mem_of_find?_eq_some hr, hkind.1.1, hkind.1.2⟩) hpreview
  have hnamed : Named baseDomain s stable := by
    refine ⟨project, hstored, hid.trans hstableProject.symm, fun domain' hdomain' => ?_⟩
    cases hdomain.symm.trans hdomain'
    unfold HostnameOf
    rw [hstableKind]
    exact hstableName
  have hfound : (∃ r ∈ s₁.routes, r.kind = .deployment ∧ r.id = preview.id ∧
      ∃ target ∈ s₁.targetsOf r.id, target.deploymentId = deploymentId) ∨
      ∀ r ∈ s₁.routes, r.id ≠ preview.id := by
    rcases horigin with ⟨r, hr, hrid⟩ | ⟨_, hfresh⟩
    · have hmatch := List.find?_some hr
      simp only [Bool.and_eq_true, decide_eq_true_eq, List.any_eq_true] at hmatch
      exact Or.inl ⟨r, List.mem_of_find?_eq_some hr, hmatch.1.2, hrid, hmatch.2⟩
    · exact Or.inr hfresh
  -- The stable route is none the preview was written over.
  have hdistinct : stable.id ≠ preview.id := by
    intro hsame
    rcases hfound with ⟨r, hr, hkind, hrid, _⟩ | hfresh
    · have hrow := (hstableRow.keyed h.routeIds).eq hr hstableRow.mem_self (hrid.trans hsame.symm)
      rw [hrow, hstableKind] at hkind
      cases hkind
    · exact hfresh stable hstableRow.mem_self hsame
  have hstill : stable ∈ s₂.routes :=
    (hpreviewRow.mem stable).mpr (Or.inr ⟨hstableRow.mem_self, hdistinct⟩)
  refine ⟨s₁, s₂, s₃, ⟨deployment, List.mem_of_find?_eq_some hdeployment, hkey.1, hkey.2⟩,
    hstableProject, hstableKind, hnamed, hpreviewProject, hpreviewKind, ?_, hstableRow,
    hpreviewRow, ensureStableTarget_change hstill
      (hpreviewRow.keyed (hstableRow.keyed h.routeIds)) htarget, rfl, hfound⟩
  refine ⟨project, hstableRow.projects ▸ hstored, hid.trans hpreviewProject.symm,
    fun domain' hdomain' => ?_⟩
  cases hdomain.symm.trans hdomain'
  unfold HostnameOf
  rw [hpreviewKind]
  exact ⟨deployment.deploymentKey, hpreviewName⟩

namespace Materializes

variable {baseDomain projectId deploymentId : String} {s t s₁ s₂ s₃ : Store}
  {stable preview : AgentRoute}

theorem previewChange
    (hm : Materializes baseDomain projectId deploymentId s t stable preview s₁ s₂ s₃)
    (h : Sound baseDomain s) : Change preview (t.targetsOf preview.id) s₃ t := by
  obtain ⟨targets, hstableTarget, _⟩ := hm.stableTarget
  have hkeyed₂ := hm.previewRow.keyed (hm.stableRow.keyed h.routeIds)
  have hmem : preview ∈ s₃.routes := by
    refine (hstableTarget.mem preview).mpr ?_
    by_cases hid : preview.id = stable.id
    · rcases hstableTarget.origin with ⟨old, hold, holdId, _, hkind⟩ | hfresh
      · -- The stable route would be the preview, and it is none.
        have hsame := hkeyed₂.eq hm.previewRow.mem_self hold (hid.trans holdId.symm)
        rw [← hsame, hm.previewKind, hm.stableKind] at hkind
        cases hkind
      · exact absurd hid (hfresh preview hm.previewRow.mem_self)
    · exact Or.inr ⟨hm.previewRow.mem_self, hid⟩
  have := upsertTarget_change hmem (hstableTarget.keyed hkeyed₂) deploymentId
  rwa [← hm.previewTarget] at this

/-- The invariant through the four writes. -/
theorem sound
    (hm : Materializes baseDomain projectId deploymentId s t stable preview s₁ s₂ s₃)
    (h : Sound baseDomain s) :
    Sound baseDomain s₁ ∧ Sound baseDomain s₂ ∧ Sound baseDomain s₃ ∧ Sound baseDomain t := by
  have h₁ := h.change hm.stableRow hm.stableNamed (h.targetsOf_owned hm.stableRow)
  have h₂ := h₁.change hm.previewRow hm.previewNamed (h₁.targetsOf_owned hm.previewRow)
  obtain ⟨targets, hchange, htargets⟩ := hm.stableTarget
  have howns₂ : s₂.Owns projectId deploymentId :=
    hm.previewRow.owns.mpr (hm.stableRow.owns.mpr hm.owns)
  have h₃ : Sound baseDomain s₃ := by
    refine h₂.change hchange ?_ fun target htarget => ?_
    · obtain ⟨p, hp, hid, hformat⟩ := hm.stableNamed
      exact ⟨p, hm.previewRow.projects ▸ hm.stableRow.projects ▸ hp, hid, hformat⟩
    · rcases htargets target htarget with hold | hnew
      · exact h₂.targetsOf_owned hchange target hold
      · rw [hnew, hm.stableProject]
        exact howns₂
  refine ⟨h₁, h₂, h₃, h₃.change (hm.previewChange h) ?_ ?_⟩
  · obtain ⟨p, hp, hid, hformat⟩ := hm.previewNamed
    exact ⟨p, hchange.projects ▸ hm.previewRow.projects ▸ hp, hid, hformat⟩
  · have hold := h₃.targetsOf_owned (hm.previewChange h)
    rw [hm.previewProject] at hold ⊢
    rw [hm.previewTarget]
    exact upsertTarget_owned hold (hchange.owns.mpr howns₂)

theorem keepsForeign
    (hm : Materializes baseDomain projectId deploymentId s t stable preview s₁ s₂ s₃)
    (h : Sound baseDomain s) : KeepsForeign projectId s t := by
  obtain ⟨h₁, h₂, h₃, _⟩ := hm.sound h
  obtain ⟨targets, hchange, _⟩ := hm.stableTarget
  have hfirst := hm.stableRow.keepsForeign h.routeIds
  have hsecond := hm.previewRow.keepsForeign h₁.routeIds
  have hthird := hchange.keepsForeign h₂.routeIds
  have hfourth := (hm.previewChange h).keepsForeign h₃.routeIds
  rw [hm.stableProject] at hfirst hthird
  rw [hm.previewProject] at hsecond hfourth
  exact ((hfirst.trans hsecond).trans hthird).trans hfourth

/-- Whether the preview is a new route shows in the store before the call. -/
theorem any_preview
    (hm : Materializes baseDomain projectId deploymentId s t stable preview s₁ s₂ s₃)
    (h : Sound baseDomain s) :
    (s.routes.any (fun r => r.id = preview.id) = true ↔ ∃ r ∈ s₁.routes, r.id = preview.id) := by
  rw [List.any_eq_true]
  constructor
  · rintro ⟨r, hr, hid⟩
    by_cases hstable : r.id = stable.id
    · exact ⟨stable, hm.stableRow.mem_self, hstable.symm.trans (by simpa using hid)⟩
    · exact ⟨r, (hm.stableRow.mem r).mpr (Or.inr ⟨hr, hstable⟩), by simpa using hid⟩
  · rintro ⟨r, hr, hid⟩
    rcases (hm.stableRow.mem r).mp hr with rfl | ⟨hold, _⟩
    · -- A preview with the id of the stable route would be a stored one of its kind.
      rcases hm.found with ⟨r', hr', hkind, hrid, _⟩ | hfresh
      · have hsame := (hm.stableRow.keyed h.routeIds).eq hr hr' (hid.trans hrid.symm)
        rw [← hsame, hm.stableKind] at hkind
        cases hkind
      · exact absurd hid (hfresh r hr)
    · exact ⟨r, hold, by simpa using hid⟩

theorem recorded
    (hm : Materializes baseDomain projectId deploymentId s t stable preview s₁ s₂ s₃)
    (h : Sound baseDomain s) {createdFor : List (String × String)}
    (hrecorded : Recorded ⟨s, createdFor⟩) :
    Recorded ⟨t, recordPreview s createdFor preview deploymentId⟩ := by
  obtain ⟨targets, hchange, _⟩ := hm.stableTarget
  have hrecorded₁ : Recorded ⟨s₁, createdFor⟩ :=
    hrecorded.change hm.stableRow fun hkind => by rw [hm.stableKind] at hkind; cases hkind
  unfold recordPreview
  split
  · next hany =>
      obtain ⟨r, hr, hid⟩ := (hm.any_preview h).mp hany
      have hentry : ∃ d, (preview.id, d) ∈ createdFor := by
        rcases hm.found with ⟨r', hr', hkind, hrid, _⟩ | hfresh
        · exact hrid ▸ hrecorded₁.exists_entry r' hr' hkind
        · exact absurd hid (hfresh r hr)
      have hrecorded₂ := hrecorded₁.change hm.previewRow fun _ => hentry
      have hrecorded₃ := hrecorded₂.change hchange fun hkind => by
        rw [hm.stableKind] at hkind; cases hkind
      exact hrecorded₃.change (hm.previewChange h) fun _ => hentry
  · next hany =>
      have hfresh : ∀ entry ∈ createdFor, entry.1 ≠ preview.id := by
        intro entry hentry hid
        obtain ⟨r, hr, hrid⟩ := hrecorded₁.exists_route entry hentry
        exact hany ((hm.any_preview h).mpr ⟨r, hr, hrid.trans hid⟩)
      have hextended : Recorded ⟨s₂, createdFor ++ [(preview.id, deploymentId)]⟩ := by
        refine ⟨hrecorded.unique.append hfresh, fun entry hentry => ?_, fun r hr hkind => ?_⟩
        · rcases List.mem_append.mp hentry with hold | hnew
          · obtain ⟨r, hr, hid⟩ := hrecorded₁.exists_route entry hold
            exact ⟨r, (hm.previewRow.mem r).mpr (Or.inr ⟨hr, hid ▸ hfresh entry hold⟩), hid⟩
          · rw [List.mem_singleton.mp hnew]
            exact ⟨preview, hm.previewRow.mem_self, rfl⟩
        · rcases (hm.previewRow.mem r).mp hr with rfl | ⟨hr, _⟩
          · exact ⟨deploymentId, List.mem_append_right _ (List.mem_singleton_self _)⟩
          · obtain ⟨d, hd⟩ := hrecorded₁.exists_entry r hr hkind
            exact ⟨d, List.mem_append_left _ hd⟩
      have hrecorded₃ := hextended.change hchange fun hkind => by
        rw [hm.stableKind] at hkind; cases hkind
      exact hrecorded₃.change (hm.previewChange h) fun _ =>
        ⟨deploymentId, List.mem_append_right _ (List.mem_singleton_self _)⟩

/-- The call leaves the previews fixed: it creates one with the deployment as its target, or
finds the one of the deployment. -/
theorem previewsFixed
    (hm : Materializes baseDomain projectId deploymentId s t stable preview s₁ s₂ s₃)
    (h : Sound baseDomain s) {createdFor : List (String × String)}
    (hrecorded : Recorded ⟨s, createdFor⟩) (hfixed : PreviewsFixed ⟨s, createdFor⟩) :
    PreviewsFixed ⟨t, recordPreview s createdFor preview deploymentId⟩ := by
  obtain ⟨h₁, h₂, h₃, _⟩ := hm.sound h
  obtain ⟨targets, hchange, _⟩ := hm.stableTarget
  have hnotStable : stable.kind ≠ .deployment := by rw [hm.stableKind]; decide
  have hrecorded₁ : Recorded ⟨s₁, createdFor⟩ :=
    hrecorded.change hm.stableRow fun hkind => absurd hkind hnotStable
  have hfixed₁ : PreviewsFixed ⟨s₁, createdFor⟩ :=
    (previewsFixed_change hm.stableRow hfixed).mpr fun hkind => absurd hkind hnotStable
  have hne : preview.id ≠ stable.id := by
    intro hsame
    rcases hm.found with ⟨r, hr, hkind, hrid, _⟩ | hfresh
    · have hrow := h₁.routeIds.eq hr hm.stableRow.mem_self (hrid.trans hsame)
      exact hnotStable (hrow ▸ hkind)
    · exact hfresh stable hm.stableRow.mem_self hsame.symm
  have htargets : s₃.targetsOf preview.id = s₁.targetsOf preview.id :=
    (hchange.others _ hne).trans hm.previewRow.here
  rcases hm.found with ⟨r, hr, hkind, hrid, target, htarget, hdeployment⟩ | hfresh
  · -- The stored preview has the deployment as a target, and its only one.
    have hany : s.routes.any (fun r => r.id = preview.id) = true :=
      (hm.any_preview h).mpr ⟨r, hr, hrid⟩
    have hpreview : ∀ d, (preview.id, d) ∈ createdFor →
        IsPreviewOf d (s₁.targetsOf preview.id) := fun d hd =>
      hrid ▸ hfixed₁ r hr hkind d (hrid ▸ hd)
    have hfixed₂ : PreviewsFixed ⟨s₂, createdFor⟩ :=
      (previewsFixed_change hm.previewRow hfixed₁).mpr fun _ => hpreview
    have hfixed₃ : PreviewsFixed ⟨s₃, createdFor⟩ :=
      (previewsFixed_change hchange hfixed₂).mpr fun hkind => absurd hkind hnotStable
    rw [recordPreview, if_pos hany]
    refine (previewsFixed_change (hm.previewChange h) hfixed₃).mpr fun _ d hd => ?_
    obtain ⟨only, honly, hid, _⟩ := isPreviewOf_iff.mp (hpreview d hd)
    have hsame : d = deploymentId := by
      rw [hrid, honly, List.mem_singleton] at htarget
      rw [← hid, ← htarget, hdeployment]
    rw [hm.previewTarget, ← hsame]
    exact upsertTarget_isPreviewOf (Or.inl (htargets ▸ hpreview d hd))
  · have hany : ¬s.routes.any (fun r => r.id = preview.id) = true := fun hany => by
      obtain ⟨r, hr, hid⟩ := (hm.any_preview h).mp hany
      exact hfresh r hr hid
    have hnew : ∀ d, (preview.id, d) ∉ createdFor := fun d hd => by
      obtain ⟨r, hr, hid⟩ := hrecorded₁.exists_route _ hd
      exact hfresh r hr hid
    have hfixed₂ : PreviewsFixed ⟨s₂, createdFor⟩ :=
      (previewsFixed_change hm.previewRow hfixed₁).mpr fun _ d hd => absurd hd (hnew d)
    have hfixed₃ : PreviewsFixed ⟨s₃, createdFor⟩ :=
      (previewsFixed_change hchange hfixed₂).mpr fun hkind => absurd hkind hnotStable
    rw [recordPreview, if_neg hany]
    intro r hr hkind d hd
    rcases ((hm.previewChange h).mem r).mp hr with rfl | ⟨hr, hrid⟩
    · rcases List.mem_append.mp hd with hold | hlast
      · exact absurd hold (hnew d)
      · obtain ⟨_, rfl⟩ := Prod.mk.inj (List.mem_singleton.mp hlast)
        change IsPreviewOf _ (t.targetsOf r.id)
        rw [hm.previewTarget]
        exact upsertTarget_isPreviewOf (Or.inr (htargets.trans (h₁.targetsOf_eq_nil hfresh)))
    · rcases List.mem_append.mp hd with hold | hlast
      · change IsPreviewOf _ (t.targetsOf r.id)
        rw [(hm.previewChange h).others r.id hrid]
        exact hfixed₃ r hr hkind d hold
      · exact absurd (Prod.mk.inj (List.mem_singleton.mp hlast)).1 hrid

end Materializes

end Eveland.RoutingStore
