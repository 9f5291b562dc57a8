/-
# Who owns a route, and what a preview points at

Every call writes the routes of one project only: the hostnames of different projects
differ, so that looking a route up by its hostname, as `ensureAliasRoute` does, finds a
route of the caller's own project. Within a project the lookup does not tell an alias
from a preview: an alias spelled like a deployment key finds the preview route of that
deployment and replaces its targets, which `updateRouteTargets` refuses to do.
-/

import Eveland.Store.RouteChanges

namespace Eveland.RoutingStore

/-! ## Histories of calls -/

/-- One call, with the identifiers it draws. -/
inductive Action
  | createProject (projectId name : String) (requireExactSlug : Bool)
  | createProjectFromPreflight (projectId name : String)
  | recordDeployment (projectId deploymentId deploymentKey : String)
  | setDeploymentStatus (deploymentId : String) (status : DeploymentStatus)
  | ensureDeploymentRoutes (projectId deploymentId stableId previewId : String)
  | updateRouteTargets (routeId : String) (targets : List RouteTargetInput)
  | promoteDeployment (projectId deploymentId : String)
  | ensureAliasRoute (projectId label : String) (targets : List RouteTargetInput)
      (routeId : String)

/-- The effect of a committed call under one base domain. -/
def step (fold : List Char → List Char) (baseDomain : String) (s : Tracked) :
    Action → Option Tracked
  | .createProject projectId name requireExactSlug =>
      (RoutingStore.createProject fold s.store projectId name requireExactSlug).toOption.map
        fun store => { s with store }
  | .createProjectFromPreflight projectId name =>
      (RoutingStore.createProjectFromPreflight fold s.store projectId name).toOption.map
        fun store => { s with store }
  | .recordDeployment projectId deploymentId deploymentKey =>
      (RoutingStore.recordDeployment s.store projectId deploymentId deploymentKey).toOption.map
        fun store => { s with store }
  | .setDeploymentStatus deploymentId status =>
      some { s with store := { s.store with
        deployments := Table.updateWhere (fun d => d.id = deploymentId)
          (fun d => { d with status }) s.store.deployments } }
  | .ensureDeploymentRoutes projectId deploymentId stableId previewId =>
      (RoutingStore.ensureDeploymentRoutes s.store projectId deploymentId baseDomain stableId
        previewId).toOption.map fun result =>
          { store := result.1
            createdFor := recordPreview s.store s.createdFor result.2.2 deploymentId }
  | .updateRouteTargets routeId targets =>
      (RoutingStore.updateRouteTargets s.store routeId targets).toOption.map
        fun store => { s with store }
  | .promoteDeployment projectId deploymentId =>
      (RoutingStore.promoteDeployment s.store projectId deploymentId).toOption.map
        fun store => { s with store }
  | .ensureAliasRoute projectId label targets routeId =>
      (RoutingStore.ensureAliasRoute s.store projectId label baseDomain targets routeId
        ).toOption.map fun store => { s with store }

/-- The routing store, started empty. -/
def machine (fold : List Char → List Char) (baseDomain : String) : Machine Tracked Action where
  init s := s.store.projects = [] ∧ s.store.deployments = [] ∧ s.store.routes = [] ∧
    s.store.targets = [] ∧ s.createdFor = []
  step := step fold baseDomain

/-- The project a call works on. -/
def Action.project (s : Tracked) : Action → Option String
  | .createProject projectId _ _ => some projectId
  | .createProjectFromPreflight projectId _ => some projectId
  | .recordDeployment projectId _ _ => some projectId
  | .setDeploymentStatus deploymentId _ =>
      (s.store.findDeployment deploymentId).map Deployment.projectId
  | .ensureDeploymentRoutes projectId _ _ _ => some projectId
  | .updateRouteTargets routeId _ =>
      (s.store.routes.find? fun r => r.id = routeId).map AgentRoute.projectId
  | .promoteDeployment projectId _ => some projectId
  | .ensureAliasRoute projectId _ _ _ => some projectId

/-! ## Three properties -/

/-- Every target is a deployment of the project its route belongs to. -/
def Owned (s : Store) : Prop :=
  ∀ t ∈ s.targets, ∃ r ∈ s.routes, r.id = t.routeId ∧ s.Owns r.projectId t.deploymentId

/-- A call leaves the routes of other projects alone. -/
def ForeignKept (fold : List Char → List Char) (baseDomain : String) (s : Tracked)
    (action : Action) : Prop :=
  ∀ t, step fold baseDomain s action = some t → ∀ projectId, action.project s = some projectId →
    KeepsForeign projectId s.store t.store

/-- An alias that has the hostname of a stored preview is given that preview's deployment
and no other. -/
def AliasSparesPreviews (baseDomain : String) (s : Tracked) : Action → Prop
  | .ensureAliasRoute projectId label targets _ =>
      ∀ project, s.store.findProject projectId = some project →
        ∀ domain, normalizeBaseDomain baseDomain = .ok domain →
          ∀ existing, s.store.routes.find? (fun r =>
              r.hostname = labelledHostname label project.slug domain) = some existing →
            existing.kind = .deployment → ∀ d, (existing.id, d) ∈ s.createdFor →
              targets.map RouteTargetInput.deploymentId = [d]
  | _ => True

/-! ## Every call -/

/-- The invariant of the history. -/
structure Kept (baseDomain : String) (s : Tracked) : Prop where
  sound : Sound baseDomain s.store
  recorded : Recorded s

/-- What a call does: it keeps the invariant and the routes of other projects, and the
previews stay fixed exactly where no alias is put over one. -/
structure CallSpec (baseDomain : String) (s t : Tracked) (action : Action) : Prop where
  kept : Kept baseDomain t
  foreign : ∀ projectId, action.project s = some projectId →
    KeepsForeign projectId s.store t.store
  previews : PreviewsFixed s → (PreviewsFixed t ↔ AliasSparesPreviews baseDomain s action)

/-- Calls that touch neither routes nor targets. -/
theorem CallSpec.of_routes_eq {baseDomain : String} {s : Tracked} {store : Store}
    {action : Action} (h : Kept baseDomain s) (hroutes : store.routes = s.store.routes)
    (htargets : store.targets = s.store.targets)
    (hids : Table.UniqueOn Project.id store.projects)
    (hslugs : Table.UniqueOn Project.slug store.projects)
    (hprojects : ∀ p ∈ s.store.projects, p ∈ store.projects)
    (howns : ∀ projectId deploymentId, s.store.Owns projectId deploymentId →
      store.Owns projectId deploymentId)
    (hfree : AliasSparesPreviews baseDomain s action) :
    CallSpec baseDomain s { s with store } action where
  kept :=
    { sound :=
        { projectIds := hids
          slugs := hslugs
          routeIds := hroutes ▸ h.sound.routeIds
          hostnames := fun r hr => by
            obtain ⟨p, hp, hformat⟩ := h.sound.hostnames r (hroutes ▸ hr)
            exact ⟨p, hprojects p hp, hformat⟩
          owned := fun target htarget => by
            obtain ⟨r, hr, hid, hown⟩ := h.sound.owned target (htargets ▸ htarget)
            exact ⟨r, hroutes ▸ hr, hid, howns _ _ hown⟩ }
      recorded :=
        { unique := h.recorded.unique
          exists_route := fun entry hentry => by
            rw [hroutes]
            exact h.recorded.exists_route entry hentry
          exists_entry := fun r hr => h.recorded.exists_entry r (hroutes ▸ hr) } }
  foreign _ _ := KeepsForeign.of_eq hroutes htargets
  previews hfixed := by
    refine ⟨fun _ => hfree, fun _ r hr hkind d hd => ?_⟩
    change IsPreviewOf d (store.targetsOf r.id)
    rw [Store.targetsOf, htargets]
    exact hfixed r (hroutes ▸ hr) hkind d hd

theorem insertProject_spec {baseDomain projectId : String} {s : Tracked} {store : Store}
    {slug : Slug} {action : Action} (h : Kept baseDomain s)
    (hinsert : insertProject s.store projectId slug = .ok store)
    (hfree : AliasSparesPreviews baseDomain s action) :
    CallSpec baseDomain s { s with store } action := by
  obtain ⟨_, hid, hinsert⟩ := Outcome.bind_eq_ok.mp hinsert
  obtain ⟨_, hslug, hok⟩ := Outcome.bind_eq_ok.mp hinsert
  cases hok
  have hid := List.all_eq_true.mp (Outcome.ensure_eq_ok.mp hid)
  have hslug := List.all_eq_true.mp (Outcome.ensure_eq_ok.mp hslug)
  exact CallSpec.of_routes_eq h rfl rfl
    (h.sound.projectIds.append fun p hp => by simpa using hid p hp)
    (h.sound.slugs.append fun p hp => by simpa using hslug p hp)
    (fun p hp => List.mem_append_left _ hp) (fun _ _ hown => hown) hfree

theorem recordDeployment_spec {baseDomain projectId deploymentId deploymentKey : String}
    {s : Tracked} {store : Store} {action : Action} (h : Kept baseDomain s)
    (hrecord : RoutingStore.recordDeployment s.store projectId deploymentId deploymentKey =
      .ok store) (hfree : AliasSparesPreviews baseDomain s action) :
    CallSpec baseDomain s { s with store } action := by
  obtain ⟨_, _, hrecord⟩ := Outcome.bind_eq_ok.mp hrecord
  obtain ⟨_, _, hrecord⟩ := Outcome.bind_eq_ok.mp hrecord
  obtain ⟨_, _, hrecord⟩ := Outcome.bind_eq_ok.mp hrecord
  obtain ⟨_, _, hok⟩ := Outcome.bind_eq_ok.mp hrecord
  cases hok
  refine CallSpec.of_routes_eq h rfl rfl h.sound.projectIds h.sound.slugs (fun _ hp => hp)
    (fun _ _ hown => ?_) hfree
  obtain ⟨d, hd, hkey⟩ := hown
  exact ⟨d, List.mem_append_left _ hd, hkey⟩

/-- A call that retargets one route of its project. -/
theorem Retargets.spec {baseDomain projectId : String} {s : Tracked} {store : Store}
    {targets : List RouteTargetInput} {row : AgentRoute} {action : Action}
    (h : Kept baseDomain s)
    (hretargets : Retargets baseDomain projectId targets row s.store store)
    (hproject : action.project s = some projectId)
    (hentry : row.kind = .deployment → ∃ d, (row.id, d) ∈ s.createdFor)
    (hfree : AliasSparesPreviews baseDomain s action ↔ (row.kind = .deployment →
      ∀ d, (row.id, d) ∈ s.createdFor →
        IsPreviewOf d (targets.map (RouteTarget.ofInput row.id)))) :
    CallSpec baseDomain s { s with store } action where
  kept :=
    { sound := h.sound.change hretargets.change hretargets.named fun target htarget => by
        obtain ⟨input, hinput, rfl⟩ := List.mem_map.mp htarget
        rw [hretargets.project]
        exact hretargets.owned input hinput
      recorded := Recorded.change h.recorded hretargets.change hentry }
  foreign other hother := by
    obtain rfl := Option.some.inj (hproject.symm.trans hother)
    have := hretargets.change.keepsForeign h.sound.routeIds
    rwa [hretargets.project] at this
  previews hfixed := by
    rw [hfree]
    exact previewsFixed_change hretargets.change hfixed

/-- One target with the whole weight is what valid targets of one deployment are. -/
theorem isPreviewOf_of_valid {targets : List RouteTargetInput} (hvalid : ValidTargets targets)
    (routeId d : String) :
    IsPreviewOf d (targets.map (RouteTarget.ofInput routeId)) ↔
      targets.map RouteTargetInput.deploymentId = [d] := by
  constructor
  · intro hpreview
    have := congrArg (List.map Prod.fst) hpreview
    simpa [RouteTarget.ofInput, Function.comp_def] using this
  · intro honly
    obtain ⟨target, rfl, rfl⟩ := List.map_eq_singleton_iff.mp honly
    have htotal := hvalid.total
    simp only [totalWeight, List.map_cons, List.map_nil, List.sum_cons, List.sum_nil,
      add_zero] at htotal
    simp [IsPreviewOf, RouteTarget.ofInput, htotal]

theorem ensureAliasRoute_spec {baseDomain projectId label routeId : String} {s : Tracked}
    {store : Store} {targets : List RouteTargetInput} (h : Kept baseDomain s)
    (hensure : RoutingStore.ensureAliasRoute s.store projectId label baseDomain targets routeId =
      .ok store) :
    CallSpec baseDomain s { s with store }
      (.ensureAliasRoute projectId label targets routeId) := by
  obtain ⟨project, domain, row, hproject, hdomain, hvalid, hretargets, hrow⟩ :=
    ensureAliasRoute_retargets h.sound hensure
  refine hretargets.spec h rfl ?_ ?_
  · rcases hrow with ⟨existing, hexisting, hid, hkind⟩ | ⟨_, hkind⟩
    · intro hpreview
      rw [hid]
      exact h.recorded.exists_entry existing (List.mem_of_find?_eq_some hexisting)
        (hkind ▸ hpreview)
    · intro hpreview
      rw [hkind] at hpreview
      cases hpreview
  · simp only [isPreviewOf_of_valid hvalid]
    rcases hrow with ⟨existing, hexisting, hid, hkind⟩ | ⟨hnone, hkind⟩
    · rw [hid, hkind]
      constructor
      · intro hspares
        exact hspares project hproject domain hdomain existing hexisting
      · intro honly project' hproject' domain' hdomain' existing' hexisting'
        cases hproject.symm.trans hproject'
        cases hdomain.symm.trans hdomain'
        cases hexisting.symm.trans hexisting'
        exact honly
    · rw [hkind]
      constructor
      · intro _ hpreview
        cases hpreview
      · intro _ project' hproject' domain' hdomain' existing' hexisting'
        cases hproject.symm.trans hproject'
        cases hdomain.symm.trans hdomain'
        cases hnone.symm.trans hexisting'

theorem step_spec {fold : List Char → List Char} {baseDomain : String} {s t : Tracked}
    {action : Action} (h : Kept baseDomain s) (hstep : step fold baseDomain s action = some t) :
    CallSpec baseDomain s t action := by
  cases action with
  | createProject projectId name requireExactSlug =>
      obtain ⟨store, hcall, rfl⟩ := Option.map_eq_some_iff.mp hstep
      obtain ⟨slug, _, hinsert⟩ := Outcome.bind_eq_ok.mp (Outcome.toOption_eq_some.mp hcall)
      exact insertProject_spec h hinsert trivial
  | createProjectFromPreflight projectId name =>
      obtain ⟨store, hcall, rfl⟩ := Option.map_eq_some_iff.mp hstep
      obtain ⟨slug, _, hinsert⟩ := Outcome.bind_eq_ok.mp (Outcome.toOption_eq_some.mp hcall)
      exact insertProject_spec h hinsert trivial
  | recordDeployment projectId deploymentId deploymentKey =>
      obtain ⟨store, hcall, rfl⟩ := Option.map_eq_some_iff.mp hstep
      exact recordDeployment_spec h (Outcome.toOption_eq_some.mp hcall) trivial
  | setDeploymentStatus deploymentId status =>
      cases hstep
      refine CallSpec.of_routes_eq h rfl rfl h.sound.projectIds h.sound.slugs (fun _ hp => hp)
        (fun projectId _ hown => ?_) trivial
      obtain ⟨d, hd, hid, hproject⟩ := hown
      by_cases hsame : d.id = deploymentId
      · exact ⟨{ d with status }, Table.mem_updateWhere.mpr
          (Or.inr ⟨d, hd, by simpa using hsame, rfl⟩), hid, hproject⟩
      · exact ⟨d, Table.mem_updateWhere_of_not hd (by simpa using hsame), hid, hproject⟩
  | ensureDeploymentRoutes projectId deploymentId stableId previewId =>
      obtain ⟨⟨store, stable, preview⟩, hcall, rfl⟩ := Option.map_eq_some_iff.mp hstep
      obtain ⟨s₁, s₂, s₃, hm⟩ :=
        ensureDeploymentRoutes_materializes h.sound (Outcome.toOption_eq_some.mp hcall)
      refine ⟨⟨(hm.sound h.sound).2.2.2, hm.recorded h.sound h.recorded⟩, ?_, ?_⟩
      · intro other hother
        obtain rfl := Option.some.inj hother
        exact hm.keepsForeign h.sound
      · intro hfixed
        exact ⟨fun _ => trivial, fun _ => hm.previewsFixed h.sound h.recorded hfixed⟩
  | updateRouteTargets routeId targets =>
      obtain ⟨store, hcall, rfl⟩ := Option.map_eq_some_iff.mp hstep
      obtain ⟨route, row, hfound, _, hkind, hretargets⟩ :=
        updateRouteTargets_retargets h.sound (Outcome.toOption_eq_some.mp hcall)
      exact hretargets.spec h (by simp [Action.project, hfound]) (fun hpreview =>
        absurd hpreview hkind) ⟨fun _ hpreview => absurd hpreview hkind, fun _ => trivial⟩
  | promoteDeployment projectId deploymentId =>
      obtain ⟨store, hcall, rfl⟩ := Option.map_eq_some_iff.mp hstep
      obtain ⟨row, hkind, hretargets⟩ :=
        promoteDeployment_retargets h.sound (Outcome.toOption_eq_some.mp hcall)
      have hnot : row.kind ≠ .deployment := by rw [hkind]; decide
      exact hretargets.spec h rfl (fun hpreview => absurd hpreview hnot)
        ⟨fun _ hpreview => absurd hpreview hnot, fun _ => trivial⟩
  | ensureAliasRoute projectId label targets routeId =>
      obtain ⟨store, hcall, rfl⟩ := Option.map_eq_some_iff.mp hstep
      exact ensureAliasRoute_spec h (Outcome.toOption_eq_some.mp hcall)

theorem kept_of_init {fold : List Char → List Char} {baseDomain : String} {s : Tracked}
    (h : (machine fold baseDomain).init s) : Kept baseDomain s ∧ PreviewsFixed s := by
  obtain ⟨hprojects, hdeployments, hroutes, htargets, hcreated⟩ := h
  refine ⟨⟨⟨?_, ?_, ?_, ?_, ?_⟩, ⟨?_, ?_, ?_⟩⟩, ?_⟩ <;>
    simp [hprojects, hroutes, htargets, hcreated, Table.UniqueOn, PreviewsFixed]

/-- **Ownership and fixed previews.** In every history of committed calls under one base
domain, all targets stay within their projects, all previews keep their one deployment and
no call changes the routes of another project, exactly when no alias is put over a preview
with other targets. -/
theorem routes_owned_iff (fold : List Char → List Char) (baseDomain : String) {s t : Tracked}
    {calls : List Action} (hinit : (machine fold baseDomain).init s)
    (hrun : (machine fold baseDomain).exec s calls = some t) :
    ((machine fold baseDomain).Always (fun s => Owned s.store ∧ PreviewsFixed s) s calls ∧
        (machine fold baseDomain).Meets (ForeignKept fold baseDomain) s calls) ↔
      (machine fold baseDomain).Meets (AliasSparesPreviews baseDomain) s calls := by
  obtain ⟨hkept, hfixed⟩ := kept_of_init hinit
  have hforeign : (machine fold baseDomain).Meets (ForeignKept fold baseDomain) s calls :=
    (machine fold baseDomain).meets_of_invariant
      (fun _ _ _ h hstep => (step_spec h hstep).kept)
      (fun _ _ h _ hstep => (step_spec h hstep).foreign) calls hkept
  rw [and_iff_left hforeign]
  refine (machine fold baseDomain).always_iff_meets
    (fun _ _ _ h hstep => (step_spec h hstep).kept) ?_ hkept ⟨hkept.sound.owned, hfixed⟩ hrun
  intro s action t h hP hstep
  have hspec := step_spec h hstep
  rw [← hspec.previews hP.2]
  exact and_iff_right hspec.kept.sound.owned

/-! ## An alias over a preview -/

/-- A store with no rows. -/
def emptyStore : Tracked :=
  { store := { projects := [], deployments := [], routes := [], targets := [] }, createdFor := [] }

/-- A project with two deployments and the routes of the first. -/
def twoDeployments : List Action :=
  [.createProject "project" "Shop" true,
   .recordDeployment "project" "first" "aaaaaaaa",
   .recordDeployment "project" "second" "bbbbbbbb",
   .ensureDeploymentRoutes "project" "first" "stable" "preview"]

/-- `twoDeployments` creates no alias, so its preview is fixed. -/
theorem routes_owned_iff_twoDeployments :
    (machine id "agents.test").Always (fun s => Owned s.store ∧ PreviewsFixed s) emptyStore
        twoDeployments ∧
      (machine id "agents.test").Meets (ForeignKept id "agents.test") emptyStore
        twoDeployments :=
  (routes_owned_iff id "agents.test" (t := _) ⟨rfl, rfl, rfl, rfl, rfl⟩ rfl).mpr (by
    simp [twoDeployments, Machine.Meets, AliasSparesPreviews])

/-- The second deployment is given an alias spelled like the key of the first, and takes
over its preview. -/
theorem alias_takes_over_preview :
    ¬ ∀ (fold : List Char → List Char) (baseDomain : String) (s t : Tracked)
        (calls : List Action), (machine fold baseDomain).init s →
      (machine fold baseDomain).exec s calls = some t →
        (machine fold baseDomain).Always (fun s => Owned s.store ∧ PreviewsFixed s) s calls ∧
          (machine fold baseDomain).Meets (ForeignKept fold baseDomain) s calls := by
  intro hall
  obtain ⟨halways, _⟩ := hall id "agents.test" emptyStore _ (twoDeployments ++
    [.ensureAliasRoute "project" "aaaaaaaa" [wholeWeight "second"] "alias"])
    ⟨rfl, rfl, rfl, rfl, rfl⟩ rfl
  have hlast := ((((halways.2 _ rfl).2 _ rfl).2 _ rfl).2 _ rfl).2 _ rfl
  have hpreview := hlast.2 _ (List.mem_cons_of_mem _ List.mem_cons_self) rfl "first"
    List.mem_cons_self
  revert hpreview
  unfold IsPreviewOf
  decide

end Eveland.RoutingStore
