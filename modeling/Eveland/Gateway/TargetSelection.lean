/-
# The target of a request

Which target a request is sent to, for a route whose targets are valid: a request that a binding
holds goes to the bound deployment or nowhere, any other goes to a target that takes sessions. The
targets come from a query without an order, and the selection by weight walks them in the order in
which they come: it picks the same target in either order only for some affinity keys.
-/

import Mathlib.Data.List.Permutation
import Mathlib.Order.Lattice
import Mathlib.Tactic.Linarith
import Eveland.Gateway.Effects

namespace Eveland.Gateway

variable {s : Store} {route : ResolvedAgentRoute} {affinityKey : String} {allowStopped : Bool}

/-! ## Totality -/

/-- What a request may be sent to. -/
structure IsTargetOf (route : ResolvedAgentRoute) (allowStopped : Bool)
    (binding : Option RoutingBinding) (result : Option Target) : Prop where
  /-- A binding is kept to: its deployment answers, or nothing does. -/
  bound : ∀ held ∈ binding, ∀ target ∈ result,
    target.deploymentId = held.deploymentId ∧ answersBound allowStopped target.status = true
  /-- Without a binding, a target that takes sessions. -/
  eligible : binding = none → ∀ target ∈ result,
    target ∈ route.targets ∧ takesSessions allowStopped target.status = true
  /-- It has a share of the traffic where every target takes sessions. -/
  weighted : binding = none →
    (∀ target ∈ route.targets, takesSessions allowStopped target.status = true) →
      ∀ target ∈ result, 0 < target.weight
  /-- Nothing is found only where none takes sessions. -/
  found : binding = none → result = none →
    ∀ target ∈ route.targets, takesSessions allowStopped target.status = false

/-- The target that is selected has a share of the buckets. -/
theorem selectLoop_weight_pos {τ : Type} {weight : τ → ℤ} {bucket upper : ℤ} {targets : List τ}
    {target : τ} (hupper : upper ≤ bucket)
    (hselect : selectLoop weight bucket upper targets = some target) : 0 < weight target := by
  induction targets generalizing upper with
  | nil => cases hselect
  | cons head rest ih =>
      rw [selectLoop] at hselect
      split at hselect
      · next hbelow =>
          cases hselect
          omega
      · next hpast => exact ih (not_lt.mp hpast) hselect

theorem selectWeightedTarget_weight_pos {τ : Type} {input : τ → RouteTargetInput} {targets : List τ}
    {policy : Option (String × ℕ)} {target : τ}
    (hselect : selectWeightedTarget input targets affinityKey policy = .ok (some target)) :
    0 < (input target).weight := by
  obtain ⟨_, _, hloop⟩ := Outcome.bind_eq_ok.mp hselect
  have hpos : ∀ bucket : ℕ,
      selectLoop (fun target => (input target).weight) bucket 0 targets = some target →
        0 < (input target).weight := by
    intro bucket hfound
    have hweight := selectLoop_weight_pos (Int.natCast_nonneg bucket) hfound
    exact hweight
  cases policy <;> exact hpos _ (Except.ok.inj hloop)

/-- A request that a binding holds. -/
theorem resolveTarget_bound (s : Store) (route : ResolvedAgentRoute) (held : RoutingBinding)
    (affinityKey : String) (allowStopped : Bool) :
    ∃ result, resolveTarget s route (some held) affinityKey allowStopped = .ok result ∧
      IsTargetOf route allowStopped (some held) result := by
  simp only [resolveTarget]
  cases hrouted : route.targets.find? (fun target =>
      decide (target.deploymentId = held.deploymentId) && answersBound allowStopped target.status) with
  | some target =>
      have hfound := List.find?_some hrouted
      simp only [Bool.and_eq_true, decide_eq_true_eq] at hfound
      refine ⟨some target, rfl, ?_, by simp, by simp, by simp⟩
      intro other hother result hresult
      cases hother
      cases hresult
      exact hfound
  | none =>
      refine ⟨_, rfl, ?_, by simp, by simp, by simp⟩
      intro other hother target htarget
      cases hother
      obtain ⟨deployment, hdeployment, rfl⟩ := Option.map_eq_some_iff.mp htarget
      obtain ⟨hfound, hanswers⟩ := Option.filter_eq_some_iff.mp hdeployment
      have hid := List.find?_some hfound
      exact ⟨of_decide_eq_true hid, hanswers⟩

/-- A request that no binding holds. -/
theorem resolveTarget_unbound (s : Store)
    (hvalid : ValidTargets (route.targets.map Target.input)) (affinityKey : String)
    (allowStopped : Bool) :
    ∃ result, resolveTarget s route none affinityKey allowStopped = .ok result ∧
      IsTargetOf route allowStopped none result := by
  simp only [resolveTarget]
  by_cases hnone : (route.targets.filter fun target =>
      takesSessions allowStopped target.status).length = 0
  · rw [if_pos hnone]
    refine ⟨none, rfl, by simp, by simp, by simp, ?_⟩
    intro _ _ target htarget
    have hempty := List.filter_eq_nil_iff.mp (List.length_eq_zero_iff.mp hnone) target htarget
    simpa using hempty
  · rw [if_neg hnone]
    by_cases hfewer : (route.targets.filter fun target =>
        takesSessions allowStopped target.status).length < route.targets.length
    · -- Some target takes no sessions, so the weights do not matter.
      rw [if_pos hfewer]
      cases heligible : route.targets.filter fun target =>
          takesSessions allowStopped target.status with
      | nil => rw [heligible] at hnone; exact absurd rfl hnone
      | cons target rest =>
          have hmem : target ∈ route.targets.filter fun target =>
              takesSessions allowStopped target.status := by
            rw [heligible]
            exact List.mem_cons_self
          refine ⟨some target, rfl, by simp, ?_, ?_, by simp⟩
          · intro _ found hfound
            cases hfound
            exact List.mem_filter.mp hmem
          · intro _ hall
            rw [List.filter_eq_self.mpr hall] at hfewer
            exact absurd hfewer (lt_irrefl _)
    · have hall := List.length_filter_eq_length_iff.mp
        (le_antisymm (List.length_filter_le _ _) (not_lt.mp hfewer))
      rw [if_neg hfewer, List.filter_eq_self.mpr hall]
      obtain ⟨target, hmem, hselect⟩ := selectWeightedTarget_of_valid hvalid affinityKey
        (some (route.id, route.policyRevision))
      refine ⟨some target, hselect, by simp, ?_, ?_, by simp⟩
      · intro _ found hfound
        cases hfound
        exact ⟨hmem, hall target hmem⟩
      · intro _ _ found hfound
        cases hfound
        exact selectWeightedTarget_weight_pos hselect

/-- **Totality.** A route whose stored targets are valid never makes the resolution throw, whatever
the statuses, the binding and the affinity key; a binding is kept to, and without one a target is
found where any takes sessions. -/
theorem resolveTarget_total (s : Store) (route : ResolvedAgentRoute)
    (hvalid : validateRouteTargets (route.targets.map Target.input) = .ok ())
    (binding : Option RoutingBinding) (affinityKey : String) (allowStopped : Bool) :
    ∃ result, resolveTarget s route binding affinityKey allowStopped = .ok result ∧
      IsTargetOf route allowStopped binding result := by
  cases binding with
  | none => exact resolveTarget_unbound s (validateRouteTargets_eq_ok.mp hvalid) _ _
  | some held => exact resolveTarget_bound s route held _ _

/-- A target of a route that splits its traffic. -/
def sampleTarget (deploymentId : String) (weight : ℤ) : Target where
  routeId := "route"
  deploymentId := deploymentId
  weight := weight
  variantName := some deploymentId
  hostPort := 4000
  status := .running

/-- A route that splits its traffic evenly. -/
def evenRoute : ResolvedAgentRoute where
  id := "route"
  projectId := "shop"
  policyRevision := 1
  enabled := true
  targets := [sampleTarget "red" 5000, sampleTarget "blue" 5000]

/-- The evenly split route, for a client without a binding. -/
theorem resolveTarget_total_evenRoute :
    validateRouteTargets (evenRoute.targets.map Target.input) = .ok () ∧
      ∃ result, resolveTarget ⟨[], [], [], []⟩ evenRoute none "client" false = .ok result ∧
        IsTargetOf evenRoute false none result := by
  have hvalid : validateRouteTargets (evenRoute.targets.map Target.input) = .ok () := by
    decide +kernel
  exact ⟨hvalid, resolveTarget_total ⟨[], [], [], []⟩ evenRoute hvalid none "client" false⟩

/-! ## The order of the targets -/

/-- What is selected does not depend on the order in which the targets of a route come, and each
target has its share of the buckets. -/
structure OrderIndependent (s : Store) (route : ResolvedAgentRoute) (affinityKey : String) : Prop
    where
  selected : ∀ targets, targets.Perm route.targets →
    selectWeightedTarget Target.input targets affinityKey
        (some (route.id, route.policyRevision)) =
      selectWeightedTarget Target.input route.targets affinityKey
        (some (route.id, route.policyRevision))
  resolved : ∀ targets, targets.Perm route.targets → ∀ binding allowStopped,
    resolveTarget s { route with targets } binding affinityKey allowStopped =
      resolveTarget s route binding affinityKey allowStopped
  buckets : ∀ target ∈ route.targets,
    ((List.range 10000).countP fun bucket : ℕ =>
      decide (selectLoop Target.weight (bucket : ℤ) 0 route.targets = some target)) =
        target.weight.toNat

/-- The bucket of a client: where a route has two targets, it is in both orders below the upper
bound of the one with the larger weight, and in neither below that of the other. -/
def InEitherOrder (route : ResolvedAgentRoute) (affinityKey : String) : Prop :=
  ∀ first second, route.targets = [first, second] →
    min first.weight second.weight ≤
        affinityBucketForRoute route.id route.policyRevision affinityKey ∧
      (affinityBucketForRoute route.id route.policyRevision affinityKey : ℤ) <
        max first.weight second.weight

/-- A route has one target, or two of different deployments. -/
theorem targets_cases (hvalid : ValidTargets (route.targets.map Target.input)) :
    (∃ only, route.targets = [only] ∧ only.weight = 10000) ∨
      ∃ first second, route.targets = [first, second] ∧
        first.deploymentId ≠ second.deploymentId ∧ 0 ≤ first.weight ∧ 0 ≤ second.weight ∧
        first.weight + second.weight = 10000 := by
  obtain ⟨hne, htwo, hdistinct, hrange, htotal⟩ := hvalid
  match htargets : route.targets with
  | [] => rw [htargets] at hne; exact absurd rfl hne
  | [only] =>
      left
      refine ⟨only, rfl, ?_⟩
      rw [htargets] at htotal
      simpa [totalWeight, Target.input] using htotal
  | [first, second] =>
      right
      rw [htargets] at hdistinct hrange htotal
      refine ⟨first, second, rfl, by simpa [Target.input] using hdistinct, ?_, ?_, ?_⟩
      · exact (hrange first.input (by simp)).1
      · exact (hrange second.input (by simp)).1
      · simpa [totalWeight, Target.input] using htotal
  | first :: second :: third :: rest =>
      rw [htargets] at htwo
      simp at htwo

/-- The order of valid targets does not matter to their validity. -/
theorem validTargets_swap {first second : Target}
    (hvalid : ValidTargets ([first, second].map Target.input)) :
    ValidTargets ([second, first].map Target.input) where
  nonempty := by simp
  atMostTwo := by simp
  distinct := by
    have hdistinct := hvalid.distinct
    simp only [List.map_cons, List.map_nil, List.nodup_cons, List.mem_singleton] at hdistinct ⊢
    exact ⟨fun hsame => hdistinct.1 hsame.symm, by simp⟩
  range target htarget := hvalid.range target (by simpa [or_comm] using htarget)
  total := by
    have htotal := hvalid.total
    simp only [totalWeight, List.map_cons, List.map_nil, List.sum_cons, List.sum_nil] at htotal ⊢
    omega

/-- The selection from valid targets is the loop. -/
theorem selectWeightedTarget_eq {targets : List Target}
    (hvalid : ValidTargets (targets.map Target.input)) (affinityKey routeId : String)
    (policyRevision : ℕ) :
    selectWeightedTarget Target.input targets affinityKey (some (routeId, policyRevision)) =
      .ok (selectLoop Target.weight
        (affinityBucketForRoute routeId policyRevision affinityKey) 0 targets) := by
  rw [selectWeightedTarget, (validateRouteTargets_eq_ok (u := ())).mpr hvalid]
  rfl

/-- The loop over two targets whose weights total the buckets. -/
theorem selectLoop_pair {first second : Target} {bucket buckets : ℕ} (hbucket : bucket < buckets)
    (htotal : first.weight + second.weight = buckets) :
    selectLoop Target.weight bucket 0 [first, second] =
      if (bucket : ℤ) < first.weight then some first else some second := by
  rw [selectLoop, zero_add]
  split
  · rfl
  · rw [selectLoop, if_pos (by omega)]

/-- Two targets are selected alike in both orders for the buckets between their weights. -/
theorem selectLoop_swap_iff {first second : Target} {bucket buckets : ℕ}
    (hbucket : bucket < buckets) (hne : first ≠ second)
    (htotal : first.weight + second.weight = buckets) :
    selectLoop Target.weight bucket 0 [second, first] =
        selectLoop Target.weight bucket 0 [first, second] ↔
      min first.weight second.weight ≤ bucket ∧ (bucket : ℤ) < max first.weight second.weight := by
  rw [selectLoop_pair hbucket htotal, selectLoop_pair hbucket ((add_comm _ _).trans htotal)]
  rw [min_le_iff, lt_max_iff]
  by_cases hfirst : (bucket : ℤ) < first.weight <;>
    by_cases hsecond : (bucket : ℤ) < second.weight
  · rw [if_pos hfirst, if_pos hsecond]
    exact ⟨fun hsame => absurd (Option.some.inj hsame).symm hne, fun _ => by omega⟩
  · rw [if_pos hfirst, if_neg hsecond]
    exact ⟨fun _ => ⟨Or.inr (by omega), Or.inl hfirst⟩, fun _ => rfl⟩
  · rw [if_neg hfirst, if_pos hsecond]
    exact ⟨fun _ => ⟨Or.inl (by omega), Or.inr hsecond⟩, fun _ => rfl⟩
  · rw [if_neg hfirst, if_neg hsecond]
    exact ⟨fun hsame => absurd (Option.some.inj hsame) hne, fun _ => by omega⟩

/-- The buckets below a bound. -/
theorem countP_range_lt (n bound : ℕ) (hle : bound ≤ n) :
    (List.range n).countP (fun bucket => decide (bucket < bound)) = bound := by
  induction n generalizing bound with
  | zero => exact (Nat.le_zero.mp hle).symm
  | succ n ih =>
      rw [List.range_succ, List.countP_append, List.countP_singleton]
      by_cases hlast : bound ≤ n
      · rw [ih bound hlast, if_neg (by simpa using hlast), Nat.add_zero]
      · have hbound : bound = n + 1 := le_antisymm hle (not_le.mp hlast)
        have hsame : (List.range n).countP (fun bucket => decide (bucket < bound)) =
            (List.range n).countP (fun bucket => decide (bucket < n)) := by
          apply List.countP_congr
          intro bucket hbucket
          have hlt := List.mem_range.mp hbucket
          simp only [decide_eq_true_eq]
          omega
        rw [hsame, ih n le_rfl, if_pos (by simp [hbound]), hbound]

/-- The buckets of the first of two targets, out of as many buckets as the weights total. -/
theorem countP_first {buckets : ℕ} {first second : Target} (hne : first ≠ second)
    (hfirst : 0 ≤ first.weight) (hsecond : 0 ≤ second.weight)
    (htotal : first.weight + second.weight = buckets) :
    (List.range buckets).countP (fun bucket : ℕ =>
      decide (selectLoop Target.weight (bucket : ℤ) 0 [first, second] = some first)) =
        first.weight.toNat := by
  rw [← countP_range_lt buckets first.weight.toNat (by omega)]
  apply List.countP_congr
  intro bucket hbucket
  have hlt := List.mem_range.mp hbucket
  rw [decide_eq_true_eq, decide_eq_true_eq, selectLoop_pair hlt htotal]
  split
  · next hbelow => exact ⟨fun _ => by omega, fun _ => rfl⟩
  · next hpast =>
      exact ⟨fun hsame => absurd (Option.some.inj hsame).symm hne, fun hbelow => by omega⟩

/-- What is not the first target's is the second's. -/
theorem countP_second {buckets : ℕ} {first second : Target} (hne : first ≠ second)
    (hfirst : 0 ≤ first.weight) (hsecond : 0 ≤ second.weight)
    (htotal : first.weight + second.weight = buckets) :
    (List.range buckets).countP (fun bucket : ℕ =>
      decide (selectLoop Target.weight (bucket : ℤ) 0 [first, second] = some second)) =
        second.weight.toNat := by
  have hsplit := List.length_eq_countP_add_countP (l := List.range buckets) fun bucket : ℕ =>
    decide (selectLoop Target.weight (bucket : ℤ) 0 [first, second] = some first)
  rw [List.length_range, countP_first hne hfirst hsecond htotal] at hsplit
  have hrest : (List.range buckets).countP (fun bucket : ℕ =>
      decide (selectLoop Target.weight (bucket : ℤ) 0 [first, second] = some second)) =
      (List.range buckets).countP (fun bucket : ℕ =>
        decide ¬ decide (selectLoop Target.weight (bucket : ℤ) 0 [first, second] =
          some first) = true) := by
    apply List.countP_congr
    intro bucket hbucket
    rw [selectLoop_pair (List.mem_range.mp hbucket) htotal]
    split <;> simp [hne, hne.symm]
  rw [hrest]
  omega

/-- Each target has its share of the buckets. -/
theorem countP_selectLoop (hvalid : ValidTargets (route.targets.map Target.input)) {target : Target}
    (hmem : target ∈ route.targets) :
    (List.range 10000).countP (fun bucket : ℕ =>
      decide (selectLoop Target.weight (bucket : ℤ) 0 route.targets = some target)) =
        target.weight.toNat := by
  rcases targets_cases hvalid with ⟨only, htargets, hweight⟩ |
    ⟨first, second, htargets, hne, hfirst, hsecond, htotal⟩
  · rw [htargets] at hmem ⊢
    obtain rfl := List.mem_singleton.mp hmem
    have hall : (List.range 10000).countP (fun bucket : ℕ =>
        decide (selectLoop Target.weight (bucket : ℤ) 0 [target] = some target)) =
          (List.range 10000).length := by
      apply List.countP_eq_length.mpr
      intro bucket hbucket
      have hlt := List.mem_range.mp hbucket
      rw [selectLoop, if_pos (by omega)]
      simp
    rw [hall, List.length_range, hweight]
    rfl
  · rw [htargets] at hmem ⊢
    have hdiffer : first ≠ second := fun hsame => hne (congrArg Target.deploymentId hsame)
    rcases List.mem_cons.mp hmem with rfl | hmem
    · exact countP_first hdiffer hfirst hsecond htotal
    · obtain rfl := List.mem_singleton.mp hmem
      exact countP_second hdiffer hfirst hsecond htotal

/-- A route with its targets in another order. -/
theorem resolveTarget_swap {first second : Target} (htargets : route.targets = [first, second])
    (hne : first.deploymentId ≠ second.deploymentId)
    (hselected : selectWeightedTarget Target.input [second, first] affinityKey
        (some (route.id, route.policyRevision)) =
      selectWeightedTarget Target.input [first, second] affinityKey
        (some (route.id, route.policyRevision)))
    (binding : Option RoutingBinding) (allowStopped : Bool) :
    resolveTarget s { route with targets := [second, first] } binding affinityKey allowStopped =
      resolveTarget s route binding affinityKey allowStopped := by
  cases binding with
  | some held =>
      -- One of the two is of the bound deployment at most.
      simp only [resolveTarget, htargets]
      by_cases hfirst : first.deploymentId = held.deploymentId
      · have hsecond : second.deploymentId ≠ held.deploymentId :=
          fun hsame => hne (hfirst.trans hsame.symm)
        simp [List.find?_cons, hfirst, hsecond]
      · simp [List.find?_cons, hfirst]
  | none =>
      simp only [resolveTarget, htargets]
      cases hfirst : takesSessions allowStopped first.status <;>
        cases hsecond : takesSessions allowStopped second.status <;>
        simp [hfirst, hsecond, hselected]

/-- **Order.** For a route whose targets are valid, what is selected is independent of the order of
its targets exactly for the clients whose bucket is in either order. -/
theorem orderIndependent_iff (s : Store) (route : ResolvedAgentRoute) (affinityKey : String)
    (hvalid : validateRouteTargets (route.targets.map Target.input) = .ok ()) :
    OrderIndependent s route affinityKey ↔ InEitherOrder route affinityKey := by
  rw [validateRouteTargets_eq_ok] at hvalid
  have hbucket : affinityBucketForRoute route.id route.policyRevision affinityKey < 10000 :=
    affinityBucket_lt _
  constructor
  · rintro ⟨hselected, _, _⟩ first second htargets
    rcases targets_cases hvalid with ⟨only, honly, _⟩ |
      ⟨first', second', htargets', hne, _, _, htotal⟩
    · rw [honly] at htargets
      cases htargets
    · rw [htargets] at htargets' hvalid hselected
      cases htargets'
      have hdiffer : first ≠ second := fun hsame => hne (congrArg Target.deploymentId hsame)
      have hswap := hselected [second, first] (List.Perm.swap _ _ _)
      rw [selectWeightedTarget_eq (validTargets_swap hvalid), selectWeightedTarget_eq hvalid] at hswap
      exact (selectLoop_swap_iff hbucket hdiffer htotal).mp (Except.ok.inj hswap)
  · intro heither
    rcases targets_cases hvalid with ⟨only, honly, _⟩ |
      ⟨first, second, htargets, hne, _, _, htotal⟩
    · have hsame : ∀ targets : List Target, targets.Perm route.targets →
          targets = route.targets := by
        intro targets hperm
        rw [honly] at hperm ⊢
        exact List.perm_singleton.mp hperm
      refine ⟨?_, ?_, fun target hmem => countP_selectLoop hvalid hmem⟩
      · intro targets hperm
        rw [hsame targets hperm]
      · intro targets hperm binding allowStopped
        rw [hsame targets hperm]
    · have hdiffer : first ≠ second := fun hsame => hne (congrArg Target.deploymentId hsame)
      have hcases : ∀ targets : List Target, targets.Perm route.targets →
          targets = route.targets ∨ targets = [second, first] := by
        intro targets hperm
        rw [htargets] at hperm ⊢
        exact List.perm_pair.mp hperm
      have hswap := (selectLoop_swap_iff hbucket hdiffer htotal).mpr
        (heither first second htargets)
      have hpair : ValidTargets ([first, second].map Target.input) := htargets ▸ hvalid
      have hselected : selectWeightedTarget Target.input [second, first] affinityKey
          (some (route.id, route.policyRevision)) =
            selectWeightedTarget Target.input [first, second] affinityKey
              (some (route.id, route.policyRevision)) := by
        rw [selectWeightedTarget_eq (validTargets_swap hpair), selectWeightedTarget_eq hpair, hswap]
      refine ⟨?_, ?_, fun target hmem => countP_selectLoop hvalid hmem⟩
      · intro targets hperm
        rcases hcases targets hperm with rfl | rfl
        · rfl
        · rw [htargets]
          exact hselected
      · intro targets hperm binding allowStopped
        rcases hcases targets hperm with rfl | rfl
        · rfl
        · exact resolveTarget_swap htargets hne hselected binding allowStopped

/-- A route that gives one target all its traffic. -/
def promotedRoute : ResolvedAgentRoute :=
  { evenRoute with targets := [sampleTarget "red" 10000, sampleTarget "blue" 0] }

/-- Where one target has all the traffic, every client is in either order. -/
theorem orderIndependent_iff_promotedRoute :
    validateRouteTargets (promotedRoute.targets.map Target.input) = .ok () ∧
      (OrderIndependent ⟨[], [], [], []⟩ promotedRoute "client" ↔
        InEitherOrder promotedRoute "client") := by
  have hvalid : validateRouteTargets (promotedRoute.targets.map Target.input) = .ok () := by
    decide +kernel
  exact ⟨hvalid, orderIndependent_iff ⟨[], [], [], []⟩ promotedRoute "client" hvalid⟩

/-- Where the traffic is split evenly, a client changes its variant with the order of the rows. -/
theorem row_order_selects_variant :
    ¬ ∀ (s : Store) (route : ResolvedAgentRoute) (affinityKey : String),
      validateRouteTargets (route.targets.map Target.input) = .ok () →
        OrderIndependent s route affinityKey := by
  intro hall
  have hvalid : validateRouteTargets (evenRoute.targets.map Target.input) = .ok () := by
    decide +kernel
  have horder := hall ⟨[], [], [], []⟩ evenRoute "client" hvalid
  have hselected := horder.selected [sampleTarget "blue" 5000, sampleTarget "red" 5000]
    (List.Perm.swap _ _ _)
  exact absurd hselected (by decide +kernel)

end Eveland.Gateway
