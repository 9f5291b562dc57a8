/-
# Session bindings and the deployments they name

A session binding is read before a request is forwarded and written after the upstream has
answered, and the session it is written for is the one the upstream names. The write takes the
place of a row that is there already, whatever deployment that row names. So a binding stays
with its deployment in a run exactly as long as no request binds a session that is bound to
another deployment than the request's own.
-/

import Eveland.Gateway.Effects

namespace Eveland.Gateway

variable {config : Config}

/-- A binding that exists in both states names one deployment in both. -/
def BindingsStay (s t : State) : Prop :=
  ∀ row ∈ s.store.sessionBindings, ∀ later ∈ t.store.sessionBindings,
    later.key = row.key → later.deploymentId = row.deploymentId

/-- The condition on a step: a request that is about to bind a session, which no binding of
the project holds to a deployment other than the request's target. -/
def BindsOwnSession (s : State) : Action → Prop
  | .request index (.next _) =>
      ∀ request, s.requests[index]? = some request →
        ∀ operation target eveSessionId, request.phase = .bindSession operation target eveSessionId →
          ∀ row ∈ s.store.sessionBindings,
            row.key = (request.arrival.route.projectId, eveSessionId) →
              row.deploymentId = target.deploymentId
  | _ => True

/-- The rows of `session_bindings`: one for each key, of projects that exist. -/
structure SessionRows (s : Store) : Prop where
  unique : Table.UniqueOn SessionBinding.key s.sessionBindings
  owned : ∀ row ∈ s.sessionBindings, row.projectId ∈ s.projects

/-- No project comes back, and the bindings of those that are left are all there, each with
its deployment. -/
structure KeepsBindings (s t : Store) : Prop where
  projects : ∀ projectId ∈ t.projects, projectId ∈ s.projects
  kept : ∀ row ∈ s.sessionBindings, row.projectId ∈ t.projects →
    ∃ later ∈ t.sessionBindings, later.key = row.key ∧ later.deploymentId = row.deploymentId

namespace KeepsBindings

theorem of_eq {s t : Store} (hprojects : t.projects = s.projects)
    (hrows : t.sessionBindings = s.sessionBindings) : KeepsBindings s t :=
  ⟨fun _ h => hprojects ▸ h, fun row hrow _ => ⟨row, hrows ▸ hrow, rfl, rfl⟩⟩

theorem trans {r s t : Store} (hrs : KeepsBindings r s) (hst : KeepsBindings s t) :
    KeepsBindings r t := by
  refine ⟨fun projectId h => hrs.projects projectId (hst.projects projectId h), ?_⟩
  intro row hrow hproject
  obtain ⟨middle, hmiddle, hkey, hdeployment⟩ :=
    hrs.kept row hrow (hst.projects _ hproject)
  have hsame : middle.projectId = row.projectId := congrArg Prod.fst hkey
  obtain ⟨later, hlater, hkey', hdeployment'⟩ := hst.kept middle hmiddle (hsame ▸ hproject)
  exact ⟨later, hlater, hkey'.trans hkey, hdeployment'.trans hdeployment⟩

/-- Where keys are unique and no row outlives its project, the rows that are kept are the only
ones there can be. -/
theorem stay {s t : State} (ht : SessionRows t.store) (hkeeps : KeepsBindings s.store t.store) :
    BindingsStay s t := by
  intro row hrow later hlater hkey
  have hproject : later.projectId = row.projectId := congrArg Prod.fst hkey
  obtain ⟨kept, hkept, hkeptKey, hdeployment⟩ :=
    hkeeps.kept row hrow (hproject ▸ ht.owned later hlater)
  rw [ht.unique.eq hlater hkept (hkey.trans hkeptKey.symm), hdeployment]

/-- An update that leaves the key and the deployment of the rows it changes. -/
theorem update {s : Store} (p : SessionBinding → Bool) {f : SessionBinding → SessionBinding}
    (hf : ∀ row ∈ s.sessionBindings, p row = true →
      (f row).key = row.key ∧ (f row).deploymentId = row.deploymentId) :
    KeepsBindings s { s with sessionBindings := Table.updateWhere p f s.sessionBindings } := by
  refine ⟨fun _ h => h, fun row hrow _ => ?_⟩
  by_cases hp : p row = true
  · exact ⟨f row, Table.mem_updateWhere.mpr (Or.inr ⟨row, hrow, hp, rfl⟩), hf row hrow hp⟩
  · exact ⟨row, Table.mem_updateWhere_of_not hrow (by simpa using hp), rfl, rfl⟩

theorem touch (s : Store) (projectId eveSessionId : String) (now : ℤ) :
    KeepsBindings s (s.touchSessionBinding projectId eveSessionId now) :=
  update _ fun _ _ _ => ⟨rfl, rfl⟩

/-- The upsert of a row whose key names the same deployment already, where it is bound. -/
theorem bindSession {s : Store} {new : SessionBinding}
    (hsame : ∀ row ∈ s.sessionBindings, row.key = new.key → row.deploymentId = new.deploymentId) :
    KeepsBindings s (s.bindSession new) := by
  unfold Store.bindSession Table.upsertWhere
  split
  · refine update _ fun row hrow hp => ?_
    have hkey : row.key = new.key := of_decide_eq_true hp
    exact ⟨hkey.symm, (hsame row hrow hkey).symm⟩
  · exact ⟨fun _ h => h, fun row hrow _ => ⟨row, List.mem_append_left _ hrow, rfl, rfl⟩⟩

theorem deleteProject (s : Store) (projectId : String) :
    KeepsBindings s (s.deleteProject projectId) := by
  refine ⟨fun _ h => List.mem_of_mem_filter h, fun row hrow hproject => ?_⟩
  exact ⟨row, List.mem_filter.mpr ⟨hrow, (List.mem_filter.mp hproject).2⟩, rfl, rfl⟩

end KeepsBindings

/-! ## The rows -/

namespace SessionRows

variable {s : Store}

theorem touch (hrows : SessionRows s) (projectId eveSessionId : String) (now : ℤ) :
    SessionRows (s.touchSessionBinding projectId eveSessionId now) := by
  refine ⟨hrows.unique.updateWhere fun row => rfl, fun row hrow => ?_⟩
  rcases Table.mem_updateWhere.mp hrow with ⟨hold, _⟩ | ⟨old, hold, _, rfl⟩
  · exact hrows.owned row hold
  · exact hrows.owned old hold

theorem bindSession (hrows : SessionRows s) {new : SessionBinding}
    (hproject : new.projectId ∈ s.projects) : SessionRows (s.bindSession new) := by
  unfold Store.bindSession Table.upsertWhere
  split
  · refine ⟨?_, fun row hrow => ?_⟩
    · -- The row takes the place of the one that has its key.
      have hkeys : (Table.updateWhere (fun old => old.key = new.key) (fun _ => new)
          s.sessionBindings).map SessionBinding.key = s.sessionBindings.map SessionBinding.key := by
        simp only [Table.updateWhere, List.map_map]
        apply List.map_congr_left
        intro old _
        by_cases hold : old.key = new.key <;> simp [hold]
      rw [Table.UniqueOn, hkeys]
      exact hrows.unique
    · rcases Table.mem_updateWhere.mp hrow with ⟨hold, _⟩ | ⟨_, _, _, rfl⟩
      · exact hrows.owned row hold
      · exact hproject
  · next habsent =>
      refine ⟨hrows.unique.append fun row hrow hkey => ?_, fun row hrow => ?_⟩
      · exact habsent (List.any_eq_true.mpr ⟨row, hrow, decide_eq_true hkey⟩)
      · rcases List.mem_append.mp hrow with hold | hnew
        · exact hrows.owned row hold
        · rw [List.mem_singleton.mp hnew]
          exact hproject

theorem deleteProject (hrows : SessionRows s) (projectId : String) :
    SessionRows (s.deleteProject projectId) := by
  refine ⟨hrows.unique.sublist (List.filter_sublist.map _), fun row hrow => ?_⟩
  obtain ⟨hold, hother⟩ := List.mem_filter.mp hrow
  exact List.mem_filter.mpr ⟨hrows.owned row hold, hother⟩

end SessionRows

/-! ## Steps -/

section Advances

variable {s : Store} {conflicting : String × String → Bool} {a : Arrival} {phase : Phase}
  {result : StepResult}

/-- A step of a request keeps the rows well formed. -/
theorem Advances.sessionRows (hrows : SessionRows s)
    (hadvances : Advances config s conflicting a phase result) : SessionRows result.store := by
  cases hadvances with
  | sessionTouched operation found now => exact hrows.touch _ _ now
  | sessionGone operation found now => exact hrows.touch _ _ now
  | bound operation target eveSessionId now hproject =>
      exact hrows.bindSession (by rwa [sessionRow_projectId])
  | _ => exact ⟨hrows.unique, hrows.owned⟩

/-- A step of a request keeps the bindings, unless it binds a session that another deployment
has. -/
theorem Advances.keepsBindings
    (hown : ∀ operation target eveSessionId, phase = .bindSession operation target eveSessionId →
      ∀ row ∈ s.sessionBindings, row.key = (a.route.projectId, eveSessionId) →
        row.deploymentId = target.deploymentId)
    (hadvances : Advances config s conflicting a phase result) : KeepsBindings s result.store := by
  cases hadvances with
  | sessionTouched operation found now => exact .touch s _ _ now
  | sessionGone operation found now => exact .touch s _ _ now
  | bound operation target eveSessionId now hproject =>
      refine .bindSession fun row hrow hkey => ?_
      rw [sessionRow_key] at hkey
      rw [sessionRow_deploymentId]
      exact hown operation target eveSessionId rfl row hrow hkey
  | _ => exact .of_eq rfl rfl

end Advances

theorem step_sessionRows {s t : State} {action : Action} (hrows : SessionRows s.store)
    (hstep : step config s action = some t) : SessionRows t.store := by
  cases action with
  | arrive arrival =>
      simp only [step] at hstep
      split at hstep <;> cases hstep
      exact hrows
  | request index move =>
      obtain ⟨request, _, hresult⟩ := Option.bind_eq_some_iff.mp hstep
      obtain ⟨result, hadvance, rfl⟩ := Option.map_eq_some_iff.mp hresult
      exact (advance_cases hadvance).sessionRows hrows
  | putDeployment deployment =>
      cases hstep
      exact ⟨hrows.unique, hrows.owned⟩
  | deleteProject projectId =>
      simp only [step] at hstep
      split at hstep <;> cases hstep
      exact hrows.deleteProject projectId

/-- A step that meets the condition keeps the bindings. -/
theorem step_keepsBindings {s t : State} {action : Action} (hown : BindsOwnSession s action)
    (hstep : step config s action = some t) : KeepsBindings s.store t.store := by
  cases action with
  | arrive arrival =>
      simp only [step] at hstep
      split at hstep <;> cases hstep
      exact .of_eq rfl rfl
  | request index move =>
      obtain ⟨request, hrequest, hresult⟩ := Option.bind_eq_some_iff.mp hstep
      obtain ⟨result, hadvance, rfl⟩ := Option.map_eq_some_iff.mp hresult
      cases move with
      | next now => exact (advance_cases hadvance).keepsBindings (hown request hrequest)
      | fail status =>
          rw [advance_fail hadvance]
          exact .of_eq rfl rfl
      | activated _ | respond _ =>
          refine (advance_cases hadvance).keepsBindings fun operation target id hphase => ?_
          rw [hphase] at hadvance
          cases hadvance
  | putDeployment deployment =>
      cases hstep
      exact .of_eq rfl rfl
  | deleteProject projectId =>
      simp only [step] at hstep
      split at hstep <;> cases hstep
      exact .deleteProject s.store projectId

/-- A step that moves no binding meets the condition. -/
theorem bindsOwnSession_of_stay {s t : State} {action : Action} (hrows : SessionRows s.store)
    (hstep : step config s action = some t) (hstay : BindingsStay s t) :
    BindsOwnSession s action := by
  cases action with
  | arrive | putDeployment | deleteProject => trivial
  | request index move =>
      obtain ⟨found, hfound, hresult⟩ := Option.bind_eq_some_iff.mp hstep
      obtain ⟨result, hadvance, rfl⟩ := Option.map_eq_some_iff.mp hresult
      cases move with
      | activated | respond | fail => trivial
      | next now =>
          intro request hrequest operation target eveSessionId hphase row hrow hkey
          obtain rfl := Option.some.inj (hfound.symm.trans hrequest)
          rw [hphase] at hadvance
          have hproject := hrows.owned row hrow
          rw [show row.projectId = found.arrival.route.projectId from congrArg Prod.fst hkey]
            at hproject
          simp only [advance, List.contains_iff_mem, hproject, if_true, Option.some.injEq]
            at hadvance
          subst hadvance
          -- The row that the upsert leaves under the key names the target.
          have hnew : sessionRow found.arrival operation target eveSessionId now ∈
              (s.store.bindSession
                (sessionRow found.arrival operation target eveSessionId now)).sessionBindings := by
            have hpresent : s.store.sessionBindings.any (fun old => old.key =
                (sessionRow found.arrival operation target eveSessionId now).key) = true := by
              rw [List.any_eq_true]
              exact ⟨row, hrow, by simp [hkey]⟩
            rw [Store.bindSession, Table.upsertWhere, if_pos hpresent]
            exact Table.mem_updateWhere.mpr (Or.inr ⟨row, hrow, by simp [hkey], rfl⟩)
          have hsame := hstay row hrow _ hnew (by rw [sessionRow_key, hkey])
          rw [← hsame, sessionRow_deploymentId]

/-- **When session bindings stay.** In a complete run of the gateway, every binding names one
deployment from the state in which it is first seen on, for as long as its row exists, if and
only if every request that binds a session finds it unbound or bound to its own target. -/
theorem bindings_stay_iff (config : Config) {s t : State} {actions : List Action}
    (hinit : (machine config).init s) (hrun : (machine config).exec s actions = some t) :
    (machine config).Throughout BindingsStay s actions ↔
      (machine config).Meets BindsOwnSession s actions := by
  have hrows : SessionRows s.store := by
    obtain ⟨_, _, _, hnone, _⟩ := hinit
    exact ⟨by simp [Table.UniqueOn, hnone], by simp [hnone]⟩
  exact (machine config).throughout_iff_meets (J := fun u => SessionRows u.store)
    (K := fun u v => KeepsBindings u.store v.store)
    (fun _ _ _ hrows hstep => step_sessionRows hrows hstep) (fun _ => .of_eq rfl rfl)
    (fun _ _ _ => KeepsBindings.trans) (fun _ _ ht hkeeps => hkeeps.stay ht)
    (fun _ _ _ _ hown hstep => step_keepsBindings hown hstep)
    (fun _ _ _ hrows hstep hstay => bindsOwnSession_of_stay hrows hstep hstay) hrows hrun

/-- The calls of a request for a new session, from its arrival on, up to the answer. -/
def createSession (index : ℕ) (route : ResolvedAgentRoute) (requestId : String) : List Action :=
  [.arrive (sampleArrival route requestId none),
   .request index (.next 0), .request index (.next 0), .request index (.next 0),
   .request index (.next 0), .request index (.activated 4001), .request index (.next 0)]

/-- An upstream that answers with a session id in its header. -/
def answers (index : ℕ) (eveSessionId : String) : List Action :=
  [.request index (.respond ⟨200, some eveSessionId, none⟩), .request index (.next 0)]

/-- Two sessions created on either side of a promotion, under the ids the upstreams give. -/
def twoSessions (first second : String) : List Action :=
  createSession 0 (sampleRoute 1 "old") "first" ++ answers 0 first ++
    createSession 1 (sampleRoute 2 "new") "second" ++ answers 1 second

/-- Sessions with ids of their own stay where they are. -/
theorem bindings_stay_iff_twoSessions :
    (machine sampleConfig).Throughout BindingsStay sampleState (twoSessions "one" "two") ↔
      (machine sampleConfig).Meets BindsOwnSession sampleState (twoSessions "one" "two") :=
  bindings_stay_iff sampleConfig ⟨rfl, rfl, rfl, rfl, rfl⟩
    (show (machine sampleConfig).exec sampleState (twoSessions "one" "two") = some _ from rfl)

/-- Where both upstreams give the same id, the binding moves to the second deployment. -/
theorem same_session_id_moves_binding :
    ∃ middle last, (machine sampleConfig).init sampleState ∧
      (machine sampleConfig).exec sampleState
        (createSession 0 (sampleRoute 1 "old") "first" ++ answers 0 "one") = some middle ∧
      (machine sampleConfig).exec middle
        (createSession 1 (sampleRoute 2 "new") "second" ++ answers 1 "one") = some last ∧
      middle.store.sessionBindings.map (fun row => (row.key, row.deploymentId)) =
        [(("project", "one"), "old")] ∧
      last.store.sessionBindings.map (fun row => (row.key, row.deploymentId)) =
        [(("project", "one"), "new")] ∧
      ¬BindingsStay middle last := by
  refine ⟨_, _, ⟨rfl, rfl, rfl, rfl, rfl⟩, rfl, rfl, rfl, rfl, fun hstay => ?_⟩
  exact absurd (hstay _ List.mem_cons_self _ List.mem_cons_self rfl) (by decide)

end Eveland.Gateway
