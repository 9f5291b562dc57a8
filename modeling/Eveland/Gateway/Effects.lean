/-
# What a step of a request does

Said once for every invariant: which writes a step of a request makes, which phase it leads
to, and what the writes mean for the two tables of bindings.
-/

import Eveland.Gateway.Requests

namespace Eveland.Gateway

variable {config : Config} {s : Store} {conflicting : String × String → Bool} {a : Arrival}
  {phase : Phase} {move : Move} {result : StepResult}

/-! ## Classification -/

/-- A request with an operation key is one for a new session, and names none. -/
theorem Arrival.sessionId_of_operationKey {operationKey : String}
    (hkey : a.operationKey config = some operationKey) :
    ((a.eveRequest config).bind fun request => request.sessionId) = none := by
  unfold Arrival.operationKey at hkey
  cases hrequest : a.eveRequest config with
  | none => simp [hrequest] at hkey
  | some request =>
      simp only [hrequest] at hkey
      split at hkey
      · next hinitial => exact request.unpinned (by rw [hinitial]; rfl)
      · simp at hkey

/-! ## Targets -/

/-- A request held to a binding is sent to the binding's deployment. -/
theorem resolveTarget_of_binding {route : ResolvedAgentRoute} {binding : RoutingBinding}
    {affinityKey : String} {allowStopped : Bool} {target : Target}
    (htarget : resolveTarget s route (some binding) affinityKey allowStopped = .ok (some target)) :
    target.deploymentId = binding.deploymentId := by
  simp only [resolveTarget] at htarget
  split at htarget
  · next routed hrouted =>
      rw [← Option.some.inj (Except.ok.inj htarget)]
      have hfound := List.find?_some hrouted
      simp only [Bool.and_eq_true, decide_eq_true_eq] at hfound
      exact hfound.1
  · obtain ⟨deployment, hdeployment, rfl⟩ := Option.map_eq_some_iff.mp (Except.ok.inj htarget)
    have hfound := List.find?_some (Option.filter_eq_some_iff.mp hdeployment).1
    exact of_decide_eq_true hfound

/-- A request that no binding holds is sent to one of its route's targets. -/
theorem resolveTarget_mem {route : ResolvedAgentRoute} {affinityKey : String}
    {allowStopped : Bool} {target : Target}
    (htarget : resolveTarget s route none affinityKey allowStopped = .ok (some target)) :
    target ∈ route.targets := by
  simp only [resolveTarget] at htarget
  split at htarget
  · simp at htarget
  · split at htarget
    · have hhead := List.mem_of_head? (Except.ok.inj htarget)
      exact List.mem_of_mem_filter hhead
    · exact List.mem_of_mem_filter (selectWeightedTarget_mem htarget)

/-! ## Transitions -/

/-- The transitions of a request: the phase it leaves, and what the step results in. -/
inductive Advances (config : Config) (s : Store) (conflicting : String × String → Bool)
    (a : Arrival) : Phase → StepResult → Prop
  | quit (phase : Phase) (status : ℕ) :
      Advances config s conflicting a phase (.to s (.done status))
  | unbound : Advances config s conflicting a .findOperation (.to s (.findSession none))
  | found (operationKey : String) (hkey : a.operationKey config = some operationKey) :
      Advances config s conflicting a .findOperation (.to s (.touchOperation operationKey))
  | touched (operationKey : String) (now : ℤ) (row : OperationBinding)
      (hrow : (s.touchOperationBinding a.route.projectId operationKey now).findOperationBinding
        a.route.projectId operationKey = some row) :
      Advances config s conflicting a (.touchOperation operationKey)
        (.to (s.touchOperationBinding a.route.projectId operationKey now)
          (.findSession (some row)))
  | touchedNone (operationKey : String) (now : ℤ) :
      Advances config s conflicting a (.touchOperation operationKey)
        (.to (s.touchOperationBinding a.route.projectId operationKey now) (.done 410))
  | sessionUnbound (operation : Option OperationBinding) :
      Advances config s conflicting a (.findSession operation) (.to s (.resolve operation none))
  | sessionFound (operation : Option OperationBinding) (found : SessionBinding)
      (hsession : ((a.eveRequest config).bind fun request => request.sessionId) ≠ none) :
      Advances config s conflicting a (.findSession operation)
        (.to s (.touchSession operation found))
  | sessionTouched (operation : Option OperationBinding) (found : SessionBinding) (now : ℤ) :
      Advances config s conflicting a (.touchSession operation found)
        (.to (s.touchSessionBinding a.route.projectId found.eveSessionId now)
          (.resolve operation (some found)))
  | sessionGone (operation : Option OperationBinding) (found : SessionBinding) (now : ℤ) :
      Advances config s conflicting a (.touchSession operation found)
        (.to (s.touchSessionBinding a.route.projectId found.eveSessionId now) (.done 410))
  | resolved (operation : Option OperationBinding) (binding : Option SessionBinding)
      (target : Target)
      (htarget : resolveTarget s a.route (routingBinding binding operation) a.targetKey
        config.activationClient = .ok (some target)) :
      Advances config s conflicting a (.resolve operation binding)
        (.to s (.gate operation target))
  | gated (operation : Option OperationBinding) (target : Target) :
      Advances config s conflicting a (.gate operation target)
        (.to s (afterGate config a operation target))
  | inserted (operationKey : String) (target : Target) (now : ℤ)
      (hfree : conflicting (a.route.projectId, operationKey) = false)
      (hnone : s.findOperationBinding a.route.projectId operationKey = none)
      (hproject : a.route.projectId ∈ s.projects) :
      Advances config s conflicting a (.insertOperation operationKey target)
        (.to s (.commitOperation target (operationRow a operationKey target now)))
  | conflicted (operationKey : String) (target : Target) :
      Advances config s conflicting a (.insertOperation operationKey target)
        (.to s (.selectOperation operationKey target))
  | committed (target : Target) (row : OperationBinding) :
      Advances config s conflicting a (.commitOperation target row)
        { store := s.commitOperationBinding row, phase := afterClaim target row,
          committed := some row }
  | selected (operationKey : String) (target : Target) (row : OperationBinding)
      (hrow : s.findOperationBinding a.route.projectId operationKey = some row) :
      Advances config s conflicting a (.selectOperation operationKey target)
        (.to s (afterClaim target row))
  | activated (operation : Option OperationBinding) (target : Target) (port : ℕ) :
      Advances config s conflicting a (.activate operation target)
        (.to s (.forward operation target port))
  | forwarded (operation : Option OperationBinding) (target : Target) (port : ℕ) :
      Advances config s conflicting a (.forward operation target port)
        { store := s, phase := .await operation target,
          forwarded := some ⟨a.route.projectId, a.operationKey config, target.deploymentId, port⟩ }
  | responded (operation : Option OperationBinding) (target : Target) (eveSessionId : String) :
      Advances config s conflicting a (.await operation target)
        (.to s (.bindSession operation target eveSessionId))
  | bound (operation : Option OperationBinding) (target : Target) (eveSessionId : String)
      (now : ℤ) (hproject : a.route.projectId ∈ s.projects) :
      Advances config s conflicting a (.bindSession operation target eveSessionId)
        { store := s.bindSession (sessionRow a operation target eveSessionId now),
          phase := .done 200 }

/-- A lookup leads on from a missing binding, stops at an idle one, and touches the others. -/
theorem afterLookup_cases (config : Config) {ρ : Type} (found : Option ρ) (trigger : ρ → BindingTrigger)
    (updatedAt : ρ → ℤ) (now : ℤ) (missing : Phase) (active : ρ → Phase) :
    afterLookup config found trigger updatedAt now missing active = missing ∨
      (∃ status, afterLookup config found trigger updatedAt now missing active = .done status) ∨
      ∃ row, found = some row ∧
        afterLookup config found trigger updatedAt now missing active = active row := by
  unfold afterLookup
  cases found with
  | none => exact Or.inl rfl
  | some row =>
      right
      simp only
      split
      · exact Or.inl ⟨500, rfl⟩
      · exact Or.inl ⟨410, rfl⟩
      · exact Or.inr ⟨row, rfl, rfl⟩

/-- Every step of a request is one of its transitions. -/
theorem advance_cases (hadvance : advance config s conflicting a phase move = some result) :
    Advances config s conflicting a phase result := by
  cases move with
  | fail status => cases phase <;> cases hadvance <;> exact .quit _ status
  | activated endpointPort =>
      cases phase with
      | activate operation target =>
          simp only [advance] at hadvance
          split at hadvance <;> cases hadvance
          exact .activated operation target endpointPort
      | _ => cases hadvance
  | respond upstream =>
      cases phase with
      | await operation target =>
          simp only [advance] at hadvance
          split at hadvance <;> cases hadvance
          · exact .quit _ upstream.status
          · exact .responded operation target _
      | _ => cases hadvance
  | next now =>
      cases phase with
      | done status => cases hadvance
      | findOperation =>
          simp only [advance] at hadvance
          split at hadvance
          · cases hadvance
            exact .unbound
          · next operationKey hkey =>
              cases hadvance
              rcases afterLookup_cases config
                (s.findOperationBinding a.route.projectId operationKey) (fun row => row.trigger)
                (fun row => row.updatedAt) now (.findSession none)
                (fun _ => .touchOperation operationKey) with h | ⟨status, h⟩ | ⟨row, _, h⟩
              · rw [h]
                exact .unbound
              · rw [h]
                exact .quit _ status
              · rw [h]
                exact .found operationKey hkey
      | touchOperation operationKey =>
          simp only [advance] at hadvance
          split at hadvance
          · cases hadvance
            exact .touchedNone operationKey now
          · next row hrow =>
              cases hadvance
              exact .touched operationKey now row hrow
      | findSession operation =>
          simp only [advance] at hadvance
          split at hadvance
          · cases hadvance
            exact .sessionUnbound operation
          · next eveSessionId hsession =>
              cases hadvance
              rcases afterLookup_cases config
                (s.findSessionBinding a.route.projectId eveSessionId) (fun row => row.trigger)
                (fun row => row.updatedAt) now (afterUnknownSession a operation)
                (.touchSession operation) with h | ⟨status, h⟩ | ⟨row, _, h⟩
              · rw [h, afterUnknownSession]
                split
                · exact .quit _ 404
                · exact .sessionUnbound operation
              · rw [h]
                exact .quit _ status
              · rw [h]
                exact .sessionFound operation row (by simp [hsession])
      | touchSession operation found =>
          simp only [advance] at hadvance
          split at hadvance <;> cases hadvance
          · exact .sessionGone operation found now
          · exact .sessionTouched operation found now
      | resolve operation binding =>
          simp only [advance] at hadvance
          split at hadvance
          · cases hadvance
            exact .quit _ 500
          · cases hadvance
            exact .quit _ 503
          · next target htarget =>
              cases hadvance
              exact .resolved operation binding target htarget
      | gate operation target =>
          simp only [advance] at hadvance
          split at hadvance <;> cases hadvance
          · exact .gated operation target
          · exact .quit _ 409
      | insertOperation operationKey target =>
          simp only [advance] at hadvance
          split at hadvance
          · cases hadvance
          · next hfree =>
              split at hadvance
              · cases hadvance
                exact .conflicted operationKey target
              · next hnone =>
                  split at hadvance
                  · next hproject =>
                      cases hadvance
                      exact .inserted operationKey target now (by simpa using hfree) hnone
                        (by simpa using hproject)
                  · cases hadvance
                    exact .quit _ 500
      | commitOperation target row =>
          cases hadvance
          exact .committed target row
      | selectOperation operationKey target =>
          simp only [advance] at hadvance
          split at hadvance
          · cases hadvance
            exact .quit _ 500
          · next row hrow =>
              cases hadvance
              exact .selected operationKey target row hrow
      | activate operation target =>
          simp only [advance] at hadvance
          split at hadvance <;> cases hadvance
          exact .activated operation target target.hostPort
      | forward operation target port =>
          cases hadvance
          exact .forwarded operation target port
      | await operation target => cases hadvance
      | bindSession operation target eveSessionId =>
          simp only [advance] at hadvance
          split at hadvance
          · next hproject =>
              cases hadvance
              exact .bound operation target eveSessionId now (by simpa using hproject)
          · cases hadvance
            exact .quit _ 500

/-- A call that fails writes nothing. -/
theorem advance_fail {status : ℕ}
    (hadvance : advance config s conflicting a phase (.fail status) = some result) :
    result = .to s (.done status) := by
  cases phase <;> cases hadvance <;> rfl

end Eveland.Gateway
