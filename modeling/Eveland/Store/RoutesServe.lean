/-
# Every route serves

A route that has rows for its targets but none to choose from, or targets whose
weights no longer add up, refuses every request. No history of calls leads
there: after every call each route, apart from previews that an alias was put
over, has targets that pass the check, so that a request selects one of them
whatever its affinity key, and what it selects is a deployment of the route's
project.
-/

import Eveland.Store.RouteOwnership

namespace Eveland.RoutingStore

/-- A stored target as the caller of the selection gives it. -/
def RouteTarget.input (target : RouteTarget) : RouteTargetInput :=
  { deploymentId := target.deploymentId, weight := target.weight,
    variantName := target.variantName }

@[simp]
theorem input_ofInput (routeId : String) (target : RouteTargetInput) :
    (RouteTarget.ofInput routeId target).input = target := rfl

theorem map_input_ofInput (routeId : String) (targets : List RouteTargetInput) :
    (targets.map (RouteTarget.ofInput routeId)).map RouteTarget.input = targets := by
  rw [List.map_map]
  exact List.map_id targets

/-- The targets of the route pass the check. -/
def Serves (s : Store) (routeId : String) : Prop :=
  ValidTargets ((s.targetsOf routeId).map RouteTarget.input)

/-- Every route that is no preview serves. -/
def Serving (s : Store) : Prop := ∀ r ∈ s.routes, r.kind ≠ .deployment → Serves s r.id

theorem validTargets_wholeWeight (deploymentId : String) :
    ValidTargets [wholeWeight deploymentId] where
  nonempty := List.cons_ne_nil _ _
  atMostTwo := by simp
  distinct := List.nodup_singleton _
  range target htarget := by
    rw [List.mem_singleton.mp htarget]
    show (0 : ℤ) ≤ 10000 ∧ (10000 : ℤ) ≤ 10000
    decide
  total := rfl

/-- A change of a route whose targets pass the check keeps all routes serving. -/
theorem Serving.change {row : AgentRoute} {targets : List RouteTarget} {s t : Store}
    (h : Serving s) (hchange : Change row targets s t)
    (hrow : row.kind ≠ .deployment → ValidTargets (targets.map RouteTarget.input)) :
    Serving t := by
  intro r hr hkind
  rcases (hchange.mem r).mp hr with rfl | ⟨hold, hne⟩
  · rw [Serves, hchange.here]
    exact hrow hkind
  · rw [Serves, hchange.others r.id hne]
    exact h r hold hkind

/-- Calls that write neither routes nor targets. -/
theorem Serving.of_eq {s t : Store} (h : Serving s) (hroutes : t.routes = s.routes)
    (htargets : t.targets = s.targets) : Serving t := by
  intro r hr hkind
  rw [Serves, Store.targetsOf, htargets]
  exact h r (hroutes ▸ hr) hkind

theorem Retargets.serving {baseDomain projectId : String} {targets : List RouteTargetInput}
    {row : AgentRoute} {s t : Store} (h : Retargets baseDomain projectId targets row s t)
    (hserving : Serving s) (hvalid : ValidTargets targets) : Serving t := by
  apply hserving.change h.change
  intro _
  rw [map_input_ofInput]
  exact hvalid

theorem updateRouteTargets_valid {s t : Store} {routeId : String}
    {targets : List RouteTargetInput} (hupdate : updateRouteTargets s routeId targets = .ok t) :
    ValidTargets targets := by
  unfold updateRouteTargets at hupdate
  obtain ⟨_, hvalid, _⟩ := Outcome.bind_eq_ok.mp hupdate
  exact validateRouteTargets_eq_ok.mp hvalid

/-! ## Materializing routes -/

/-- All routes serve but one, which may still have no targets. -/
structure ServingBut (row : AgentRoute) (s : Store) : Prop where
  others : ∀ r ∈ s.routes, r.kind ≠ .deployment → r.id ≠ row.id → Serves s r.id
  here : Serves s row.id ∨ s.targetsOf row.id = []

/-- Writing the stable route leaves it its targets, and a new one has none. -/
theorem Serving.writeStable {baseDomain : String} {row : AgentRoute} {s t : Store}
    (h : Serving s) (hsound : Sound baseDomain s) (hkind : row.kind = .project)
    (hchange : Change row (s.targetsOf row.id) s t) : ServingBut row t where
  others r hr hr' hne := by
    rcases (hchange.mem r).mp hr with rfl | ⟨hold, _⟩
    · exact absurd rfl hne
    · rw [Serves, hchange.others r.id hne]
      exact h r hold hr'
  here := by
    rw [Serves, hchange.here]
    rcases hchange.origin with ⟨old, hold, hid, _, holdKind⟩ | hfresh
    · left
      rw [← hid]
      apply h old hold
      rw [holdKind, hkind]
      decide
    · exact Or.inr (hsound.targetsOf_eq_nil hfresh)

/-- Writing a preview changes no other route. -/
theorem ServingBut.writePreview {row preview : AgentRoute} {s t : Store}
    {targets : List RouteTarget} (h : ServingBut row s) (hkind : preview.kind = .deployment)
    (hne : row.id ≠ preview.id) (hchange : Change preview targets s t) : ServingBut row t where
  others r hr hr' hother := by
    rcases (hchange.mem r).mp hr with rfl | ⟨hold, hpreview⟩
    · exact absurd hkind hr'
    · rw [Serves, hchange.others r.id hpreview]
      exact h.others r hold hr' hother
  here := by
    rw [Serves, hchange.others row.id hne]
    exact h.here

/-- The stable route gets its target if it has none. -/
theorem ServingBut.ensureStable {row : AgentRoute} {s t : Store} {deploymentId : String}
    (h : ServingBut row s) (hensure : ensureStableTarget s row.id deploymentId = .ok t) :
    Serving t := by
  unfold ensureStableTarget at hensure
  split at hensure
  next hempty =>
    obtain rfl := insertTargets_eq hensure
    intro r hr hkind
    rw [Serves, targetsOf_insert]
    by_cases hsame : r.id = row.id
    · rw [if_pos hsame, hsame, List.isEmpty_iff.mp hempty, List.nil_append, map_input_ofInput]
      exact validTargets_wholeWeight deploymentId
    · rw [if_neg hsame, List.append_nil]
      exact h.others r hr hkind hsame
  next hempty =>
    cases hensure
    intro r hr hkind
    by_cases hsame : r.id = row.id
    · rw [hsame]
      rcases h.here with hserves | hnil
      · exact hserves
      · rw [hnil] at hempty
        exact absurd rfl hempty
    · exact h.others r hr hkind hsame

/-- The target of a preview is no other route's. -/
theorem Serving.upsertPreview {preview : AgentRoute} {s : Store} (h : Serving s)
    (hkeyed : Table.UniqueOn AgentRoute.id s.routes) (hmem : preview ∈ s.routes)
    (hkind : preview.kind = .deployment) (deploymentId : String) :
    Serving (upsertTarget s preview.id deploymentId) := by
  intro r hr hr'
  by_cases hsame : r.id = preview.id
  · obtain rfl := hkeyed.eq hr hmem hsame
    exact absurd hkind hr'
  · rw [Serves, targetsOf_upsertTarget_of_ne s deploymentId hsame]
    exact h r hr hr'

theorem ensureDeploymentRoutes_serving {baseDomain : String} {s t : Store}
    {projectId deploymentId stableId previewId : String} {stable preview : AgentRoute}
    (h : Sound baseDomain s) (hserving : Serving s)
    (hensure : ensureDeploymentRoutes s projectId deploymentId baseDomain stableId previewId =
      .ok (t, stable, preview)) : Serving t := by
  unfold ensureDeploymentRoutes at hensure
  obtain ⟨domain, _, hensure⟩ := Outcome.bind_eq_ok.mp hensure
  obtain ⟨project, _, hensure⟩ := Outcome.bind_eq_ok.mp hensure
  obtain ⟨deployment, _, hensure⟩ := Outcome.bind_eq_ok.mp hensure
  obtain ⟨⟨s₁, row⟩, hstable, hensure⟩ := Outcome.bind_eq_ok.mp hensure
  obtain ⟨⟨s₂, row'⟩, hpreview, hensure⟩ := Outcome.bind_eq_ok.mp hensure
  obtain ⟨s₃, htarget, hok⟩ := Outcome.bind_eq_ok.mp hensure
  cases hok
  obtain ⟨_, hstableKind, _, hstableRow, _⟩ :=
    materializeRoute_change (fun r hr => by
      have hkey := List.find?_some hr
      simp only [Bool.and_eq_true, decide_eq_true_eq] at hkey
      exact ⟨List.mem_of_find?_eq_some hr, hkey.1, hkey.2⟩) hstable
  obtain ⟨_, hpreviewKind, _, hpreviewRow, _⟩ :=
    materializeRoute_change (fun r hr => by
      have hkey := List.find?_some hr
      simp only [Bool.and_eq_true, decide_eq_true_eq] at hkey
      exact ⟨List.mem_of_find?_eq_some hr, hkey.1.1, hkey.1.2⟩) hpreview
  have hkeyed₁ := hstableRow.keyed h.routeIds
  have hdistinct : stable.id ≠ preview.id := by
    intro hsame
    rcases hpreviewRow.origin with ⟨old, hold, hid, _, holdKind⟩ | hfresh
    · have hrow := hkeyed₁.eq hold hstableRow.mem_self (hid.trans hsame.symm)
      rw [hrow, hstableKind, hpreviewKind] at holdKind
      cases holdKind
    · exact hfresh stable hstableRow.mem_self hsame
  have hbut := (hserving.writeStable h hstableKind hstableRow).writePreview hpreviewKind hdistinct
    hpreviewRow
  have hkeyed₂ := hpreviewRow.keyed hkeyed₁
  have hstill : stable ∈ s₂.routes :=
    (hpreviewRow.mem stable).mpr (Or.inr ⟨hstableRow.mem_self, hdistinct⟩)
  obtain ⟨_, hchange, _⟩ := ensureStableTarget_change hstill hkeyed₂ htarget
  have hpreviewMem : preview ∈ s₃.routes :=
    (hchange.mem preview).mpr (Or.inr ⟨hpreviewRow.mem_self, hdistinct.symm⟩)
  exact (hbut.ensureStable htarget).upsertPreview (hchange.keyed hkeyed₂) hpreviewMem hpreviewKind
    deploymentId

/-! ## Whole histories -/

/-- Every call keeps the routes serving. -/
theorem Serving.step {fold : List Char → List Char} {baseDomain : String} {s t : Tracked}
    {action : Action} (h : Serving s.store) (hkept : Kept baseDomain s)
    (hstep : step fold baseDomain s action = some t) : Serving t.store := by
  cases action with
  | createProject projectId name requireExactSlug =>
      obtain ⟨store, hcall, rfl⟩ := Option.map_eq_some_iff.mp hstep
      obtain ⟨slug, _, hinsert⟩ := Outcome.bind_eq_ok.mp (Outcome.toOption_eq_some.mp hcall)
      obtain ⟨_, _, hinsert⟩ := Outcome.bind_eq_ok.mp hinsert
      obtain ⟨_, _, hok⟩ := Outcome.bind_eq_ok.mp hinsert
      cases hok
      exact h.of_eq rfl rfl
  | createProjectFromPreflight projectId name =>
      obtain ⟨store, hcall, rfl⟩ := Option.map_eq_some_iff.mp hstep
      obtain ⟨slug, _, hinsert⟩ := Outcome.bind_eq_ok.mp (Outcome.toOption_eq_some.mp hcall)
      obtain ⟨_, _, hinsert⟩ := Outcome.bind_eq_ok.mp hinsert
      obtain ⟨_, _, hok⟩ := Outcome.bind_eq_ok.mp hinsert
      cases hok
      exact h.of_eq rfl rfl
  | recordDeployment projectId deploymentId deploymentKey =>
      obtain ⟨store, hcall, rfl⟩ := Option.map_eq_some_iff.mp hstep
      have hrecord := Outcome.toOption_eq_some.mp hcall
      unfold recordDeployment at hrecord
      obtain ⟨_, _, hrecord⟩ := Outcome.bind_eq_ok.mp hrecord
      obtain ⟨_, _, hrecord⟩ := Outcome.bind_eq_ok.mp hrecord
      obtain ⟨_, _, hrecord⟩ := Outcome.bind_eq_ok.mp hrecord
      obtain ⟨_, _, hok⟩ := Outcome.bind_eq_ok.mp hrecord
      cases hok
      exact h.of_eq rfl rfl
  | setDeploymentStatus deploymentId status =>
      cases hstep
      exact h.of_eq rfl rfl
  | ensureDeploymentRoutes projectId deploymentId stableId previewId =>
      obtain ⟨⟨store, stable, preview⟩, hcall, rfl⟩ := Option.map_eq_some_iff.mp hstep
      exact ensureDeploymentRoutes_serving hkept.sound h (Outcome.toOption_eq_some.mp hcall)
  | updateRouteTargets routeId targets =>
      obtain ⟨store, hcall, rfl⟩ := Option.map_eq_some_iff.mp hstep
      have hupdate := Outcome.toOption_eq_some.mp hcall
      obtain ⟨_, _, _, _, _, hretargets⟩ := updateRouteTargets_retargets hkept.sound hupdate
      exact hretargets.serving h (updateRouteTargets_valid hupdate)
  | promoteDeployment projectId deploymentId =>
      obtain ⟨store, hcall, rfl⟩ := Option.map_eq_some_iff.mp hstep
      obtain ⟨_, _, hretargets⟩ :=
        promoteDeployment_retargets hkept.sound (Outcome.toOption_eq_some.mp hcall)
      exact hretargets.serving h (validTargets_wholeWeight deploymentId)
  | ensureAliasRoute projectId label targets routeId =>
      obtain ⟨store, hcall, rfl⟩ := Option.map_eq_some_iff.mp hstep
      obtain ⟨_, _, _, _, _, hvalid, hretargets, _⟩ :=
        ensureAliasRoute_retargets hkept.sound (Outcome.toOption_eq_some.mp hcall)
      exact hretargets.serving h hvalid

/-- What holds after every history. -/
theorem serving_of_reachable {fold : List Char → List Char} {baseDomain : String} {s : Tracked}
    (hs : (machine fold baseDomain).Reachable s) : Kept baseDomain s ∧ Serving s.store := by
  apply Machine.Reachable.invariant (I := fun s => Kept baseDomain s ∧ Serving s.store) _ _ hs
  · intro s hinit
    refine ⟨(kept_of_init hinit).1, ?_⟩
    intro r hr
    rw [hinit.2.2.1] at hr
    cases hr
  · intro s action t h hstep
    exact ⟨(step_spec h.1 hstep).kept, h.2.step h.1 hstep⟩

/-- A fixed preview serves too: it has one target. -/
theorem serves_of_isPreviewOf {s : Store} {routeId deploymentId : String}
    (h : IsPreviewOf deploymentId (s.targetsOf routeId)) : Serves s routeId := by
  obtain ⟨target, htargets, _, hweight⟩ := isPreviewOf_iff.mp h
  rw [Serves, htargets]
  exact
    { nonempty := List.cons_ne_nil _ _
      atMostTwo := by simp
      distinct := List.nodup_singleton _
      range := fun input hinput => by
        rw [List.mem_singleton.mp hinput]
        show 0 ≤ target.weight ∧ target.weight ≤ 10000
        rw [hweight]
        decide
      total := by simp [totalWeight, RouteTarget.input, hweight] }

/-- Whoever asks a route that serves is given a deployment of its project. -/
theorem Serves.selects {baseDomain : String} {s : Store} (hsound : Sound baseDomain s)
    {r : AgentRoute} (hr : r ∈ s.routes) (h : Serves s r.id) (affinityKey : String) :
    ∃ target ∈ s.targetsOf r.id, s.Owns r.projectId target.deploymentId ∧
      selectWeightedTarget RouteTarget.input (s.targetsOf r.id) affinityKey
        (some (r.id, r.policyRevision)) = .ok (some target) := by
  obtain ⟨target, htarget, hselect⟩ :=
    selectWeightedTarget_of_valid h affinityKey (some (r.id, r.policyRevision))
  obtain ⟨hmem, hroute⟩ := List.mem_filter.mp htarget
  obtain ⟨owner, howner, hid, howns⟩ := hsound.owned target hmem
  obtain rfl : owner = r :=
    hsound.routeIds.eq howner hr (hid.trans (of_decide_eq_true hroute))
  exact ⟨target, htarget, howns, hselect⟩

/-- What `twoDeployments` leaves. -/
def materialized : Tracked :=
  ((machine id "agents.test").exec emptyStore twoDeployments).getD emptyStore

/-- The stable route of its project. -/
def stableRoute : AgentRoute :=
  { id := "stable", projectId := "project", hostname := "shop.agents.test", kind := .project,
    enabled := true, policyRevision := 1 }

end Eveland.RoutingStore
