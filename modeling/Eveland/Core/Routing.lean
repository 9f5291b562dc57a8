/-
# Route targets and sticky selection

A route divides its traffic over one or two deployments in basis points. The target of a
request is read off a hash of its affinity key, so that one key keeps one target as long
as the policy does not change.
-/

import Mathlib.Algebra.BigOperators.Group.List.Basic
import Mathlib.Algebra.Ring.Int.Defs
import Mathlib.Data.Int.Notation
import Mathlib.Data.List.Nodup
import Eveland.Foundations.Outcome

namespace Eveland

open Outcome (ensure)

/-- What a caller gives of a target. A weight that is not an integer has no value here; it
is refused with the weights out of range. -/
structure RouteTargetInput where
  deploymentId : String
  weight : ℤ
  variantName : Option String
  deriving DecidableEq, Repr

/-- The sum of the weights. -/
def totalWeight (targets : List RouteTargetInput) : ℤ := (targets.map fun t => t.weight).sum

/-- `validateRouteTargets`. -/
def validateRouteTargets (targets : List RouteTargetInput) : Except String Unit := do
  ensure (!(targets.length < 1 || targets.length > 2)) "A route must have one or two targets."
  ensure ((targets.map fun t => t.deploymentId).Nodup)
    "Route target deployments must be unique."
  ensure (!targets.any fun t => t.weight < 0 || t.weight > 10000)
    "Route target weights must be integer basis points between 0 and 10,000."
  ensure (totalWeight targets = 10000)
    "Route target weights must total 10,000 basis points."

/-- The targets a route may have. -/
structure ValidTargets (targets : List RouteTargetInput) : Prop where
  nonempty : targets ≠ []
  atMostTwo : targets.length ≤ 2
  distinct : (targets.map fun t => t.deploymentId).Nodup
  range : ∀ t ∈ targets, 0 ≤ t.weight ∧ t.weight ≤ 10000
  total : totalWeight targets = 10000

/-- The check accepts exactly the targets a route may have. -/
theorem validateRouteTargets_eq_ok {targets : List RouteTargetInput} {u : Unit} :
    validateRouteTargets targets = .ok u ↔ ValidTargets targets := by
  simp only [validateRouteTargets, Outcome.bind_eq_ok, Outcome.ensure_eq_ok, Bool.not_eq_true',
    Bool.or_eq_false_iff, decide_eq_false_iff_not, decide_eq_true_eq, List.any_eq_false,
    Bool.or_eq_true, not_or, gt_iff_lt, exists_const]
  constructor
  · rintro ⟨⟨hone, htwo⟩, hdistinct, hrange, htotal⟩
    refine ⟨?_, by omega, hdistinct, fun t ht => ?_, htotal⟩
    · rintro rfl
      simp at hone
    · have := hrange t ht
      omega
  · rintro ⟨hne, htwo, hdistinct, hrange, htotal⟩
    have hpos := List.length_pos_iff.mpr hne
    refine ⟨⟨by omega, by omega⟩, hdistinct, fun t ht => ?_, htotal⟩
    have := hrange t ht
    omega

/-! ## Sticky selection -/

/-- The code units of a character, as `charCodeAt` reads them. -/
def codeUnits (c : Char) : List UInt32 :=
  if c.toNat < 0x10000 then [c.val]
  else
    let offset := c.val - 0x10000
    [(0xD800 : UInt32) + (offset >>> 10), (0xDC00 : UInt32) + (offset &&& 0x3FF)]

/-- `affinityBucket`: an FNV-1a hash of the code units, modulo the basis points. -/
def affinityBucket (key : String) : ℕ :=
  let hash := (key.toList.flatMap codeUnits).foldl (fun hash code => (hash ^^^ code) * 0x01000193)
    (0x811c9dc5 : UInt32)
  hash.toNat % 10000

/-- `affinityBucketForRoute`. -/
def affinityBucketForRoute (routeId : String) (policyRevision : ℕ) (affinityKey : String) : ℕ :=
  affinityBucket s!"{routeId}:{policyRevision}:{affinityKey}"

variable {τ : Type}

/-- The loop of `selectWeightedTarget`. -/
def selectLoop (weight : τ → ℤ) (bucket : ℤ) : ℤ → List τ → Option τ
  | _, [] => none
  | upper, target :: rest =>
      if bucket < upper + weight target then some target
      else selectLoop weight bucket (upper + weight target) rest

/-- `selectWeightedTarget`, over targets that carry more than their policy; the route is its
id and policy revision. -/
def selectWeightedTarget (input : τ → RouteTargetInput) (targets : List τ)
    (affinityKey : String) (route : Option (String × ℕ)) : Except String (Option τ) := do
  validateRouteTargets (targets.map input)
  let bucket :=
    match route with
    | some (id, policyRevision) => affinityBucketForRoute id policyRevision affinityKey
    | none => affinityBucket affinityKey
  pure (selectLoop (fun target => (input target).weight) bucket 0 targets)

theorem affinityBucket_lt (key : String) : affinityBucket key < 10000 :=
  Nat.mod_lt _ (by decide)

/-- What the loop finds is one of the targets. -/
theorem selectLoop_mem {weight : τ → ℤ} {bucket upper : ℤ} {targets : List τ} {target : τ}
    (hselect : selectLoop weight bucket upper targets = some target) : target ∈ targets := by
  induction targets generalizing upper with
  | nil => simp [selectLoop] at hselect
  | cons head rest ih =>
      rw [selectLoop] at hselect
      split at hselect
      · rw [Option.some.inj hselect]
        exact List.mem_cons_self
      · exact List.mem_cons_of_mem _ (ih hselect)

/-- The loop finds a target for a bucket below the total. -/
theorem selectLoop_isSome {weight : τ → ℤ} {bucket upper : ℤ} {targets : List τ}
    (hbucket : bucket < upper + (targets.map weight).sum) (hupper : upper ≤ bucket) :
    ∃ target ∈ targets, selectLoop weight bucket upper targets = some target := by
  induction targets generalizing upper with
  | nil =>
      simp only [List.map_nil, List.sum_nil] at hbucket
      omega
  | cons target rest ih =>
      rw [selectLoop]
      split
      · exact ⟨target, List.mem_cons_self, rfl⟩
      · next hpast =>
          have hrest : bucket < upper + weight target + (rest.map weight).sum := by
            simp only [List.map_cons, List.sum_cons] at hbucket ⊢
            omega
          obtain ⟨found, hfound, hselect⟩ := ih hrest (by omega)
          exact ⟨found, List.mem_cons_of_mem _ hfound, hselect⟩

/-- A selected target is one of the targets. -/
theorem selectWeightedTarget_mem {input : τ → RouteTargetInput} {targets : List τ}
    {affinityKey : String} {route : Option (String × ℕ)} {target : τ}
    (hselect : selectWeightedTarget input targets affinityKey route = .ok (some target)) :
    target ∈ targets := by
  obtain ⟨_, _, hloop⟩ := Outcome.bind_eq_ok.mp hselect
  exact selectLoop_mem (Except.ok.inj hloop)

/-- For valid targets the selection throws nothing and finds one of them, whatever the
affinity key. -/
theorem selectWeightedTarget_of_valid {input : τ → RouteTargetInput} {targets : List τ}
    (hvalid : ValidTargets (targets.map input)) (affinityKey : String)
    (route : Option (String × ℕ)) :
    ∃ target ∈ targets,
      selectWeightedTarget input targets affinityKey route = .ok (some target) := by
  have hok : validateRouteTargets (targets.map input) = .ok () :=
    validateRouteTargets_eq_ok.mpr hvalid
  have htotal : (targets.map fun target => (input target).weight).sum = 10000 := by
    rw [← hvalid.total, totalWeight, List.map_map]
    rfl
  unfold selectWeightedTarget
  rw [hok]
  have hbelow : ∀ key, (affinityBucket key : ℤ) <
      0 + (targets.map fun target => (input target).weight).sum := by
    intro key
    have := affinityBucket_lt key
    rw [htotal]
    omega
  cases route with
  | none =>
      obtain ⟨target, hmem, hselect⟩ :=
        selectLoop_isSome (hbelow affinityKey) (Int.natCast_nonneg _)
      exact ⟨target, hmem, congrArg Except.ok hselect⟩
  | some route =>
      obtain ⟨target, hmem, hselect⟩ :=
        selectLoop_isSome (hbelow s!"{route.1}:{route.2}:{affinityKey}") (Int.natCast_nonneg _)
      exact ⟨target, hmem, congrArg Except.ok hselect⟩

/-! ## Idle bindings -/

/-- Who made a binding. -/
inductive BindingTrigger
  | api
  | playground
  deriving DecidableEq, Repr

/-- `SessionBindingIdlePolicy`, with the defaults filled in. -/
structure SessionBindingIdlePolicy where
  playgroundIdleTtlMs : ℤ := 86400000
  apiIdleTtlMs : ℤ := 604800000
  deriving DecidableEq, Repr

/-- `isSessionBindingActive`, of a binding's trigger and the time it was last updated. -/
def isSessionBindingActive (trigger : BindingTrigger) (updatedAt now : ℤ)
    (policy : SessionBindingIdlePolicy) : Except String Bool := do
  let ttlMs := if trigger = .playground then policy.playgroundIdleTtlMs else policy.apiIdleTtlMs
  ensure (0 < ttlMs) "SessionBinding idle TTL must be positive."
  pure (now - ttlMs < updatedAt)

end Eveland
