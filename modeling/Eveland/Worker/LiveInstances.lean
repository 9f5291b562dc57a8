/-
# One live instance per deployment

Activation and adoption make a new instance only where the latest one is dead, and every
sweep and job that writes `stopped` or `failed` does no harm to the rule, however stale what
it has read. A write of `ready` does: it goes through whatever the row's status has become. So
the rule holds in a run exactly as long as no such write reaches an instance that was retired
in the meantime.
-/

import Eveland.Store.InstanceChanges
import Eveland.Worker.RuntimeActors

namespace Eveland.RuntimeActors

open RuntimeStore

/-- An instance that is dead in the first state is not live in the second. -/
def StaysDead (before after : RuntimePool) : Prop :=
  ∀ row ∈ before.state.store.instances, row.isDead →
    ∀ later ∈ after.state.store.instances, later.id = row.id → later.isDead

/-- A write of a live status that goes through finds its instance live. -/
def RevivesNothing (s : RuntimeState) (choice : Choice) : Op → Prop
  | .updateRuntimeInstance id update _ =>
      choice.failure = none → update.status.isLive = true →
        ∀ row, s.store.getRuntimeInstance id = some row → update.conflicts s.store row = false →
          row.status.isLive = true
  | _ => True

/-- The condition on a step: the call it makes revives nothing. -/
def StepRevivesNothing (pool : RuntimePool) : PoolAction Party Choice ℤ → Prop
  | .call index choice =>
      ∀ party op next, pool.tasks[index]? = some (party, .call op next) →
        RevivesNothing pool.state choice op
  | _ => True

/-! ## Calls -/

/-- A call that commits a change of the store, or throws. -/
theorem RuntimeState.commit_change {α : Type} {s t : RuntimeState} {answer : Except String α}
    {result : Except String (Store × α)} {Q : Prop}
    (hresult : ∀ store value, result = .ok (store, value) →
      Change Q s.store.instances store.instances)
    (hcommit : s.commit result = (t, answer)) :
    Change Q s.store.instances t.store.instances := by
  rcases commit_eq hcommit with ⟨rfl, _⟩ | ⟨store, value, hok, rfl, _⟩
  · exact Change.refl Q _
  · exact hresult store value hok

/-- Every call of every party changes the instances in one of the known ways. -/
theorem perform_change {s t : RuntimeState} {op : Op} {choice : Choice} {answer : op.Answer}
    (hrows : InstanceRows s.store.instances)
    (hperform : perform s op choice = some (t, answer)) :
    Change (RevivesNothing s choice op) s.store.instances t.store.instances := by
  unfold perform at hperform
  cases hfailure : choice.failure with
  | some e =>
      rw [hfailure] at hperform
      cases hperform
      exact Change.refl _ _
  | none =>
      rw [hfailure] at hperform
      have hexecute := Option.some.inj hperform
      cases op with
      | acquireActivationLease input =>
          exact RuntimeState.commit_change
            (fun _ _ hok => acquireActivationLease_change _ hok) hexecute
      | adoptRuntimeInstance deploymentId endpointPort now =>
          exact RuntimeState.commit_change
            (fun _ _ hok => adoptRuntimeInstance_change _ hok) hexecute
      | updateRuntimeInstance id update now =>
          refine RuntimeState.commit_change (fun _ _ hok => ?_) hexecute
          have hchange := updateRuntimeInstance_change hrows hok
          simpa only [RevivesNothing, hfailure, forall_const] using hchange
      | reserveInstancePort id =>
          refine RuntimeState.commit_change (fun store port hok => ?_) hexecute
          split at hok <;> cases hok
          exact reserveRuntimeInstancePort_change _ s.store id choice.port
      | claimIdleRuntimeInstances now idleTtlMs =>
          cases hexecute
          exact claimIdleRuntimeInstances_change _ s.store now idleTtlMs choice.picked
      | _ =>
          cases hexecute
          exact Change.refl _ _

/-! ## Steps -/

variable {pool after : RuntimePool} {action : PoolAction Party Choice ℤ}

/-- A step of the system changes the instances in one of the known ways. -/
theorem step_change (hrows : InstanceRows pool.state.store.instances)
    (hstep : actors.step pool action = some after) :
    Change (StepRevivesNothing pool action) pool.state.store.instances
      after.state.store.instances := by
  obtain ⟨_, _, _, rfl⟩ | ⟨index, choice, party, op, next, state, answer, rfl, htask, hcall, rfl⟩ |
    ⟨_, _, _, _, _, rfl⟩ | ⟨clock, state, _, hpass, rfl⟩ := Actors.step_cases hstep
  · exact Change.refl _ _
  · have hsame : StepRevivesNothing pool (.call index choice) ↔
        RevivesNothing pool.state choice op := by
      constructor
      · intro hstep
        exact hstep party op next htask
      · intro hop party' op' next' htask'
        obtain ⟨rfl, hprogram⟩ := Prod.mk.inj (Option.some.inj (htask.symm.trans htask'))
        cases hprogram
        exact hop
    rw [hsame]
    exact perform_change hrows hcall
  · exact Change.refl _ _
  · rw [show state.store = pool.state.store from passTime_store hpass]
    exact Change.refl _ _

theorem step_instanceRows (hrows : InstanceRows pool.state.store.instances)
    (hstep : actors.step pool action = some after) :
    InstanceRows after.state.store.instances :=
  (step_change hrows hstep).instanceRows hrows

/-- A step that leaves the dead instances dead revives nothing. -/
theorem stepRevivesNothing_of_staysDead (hstep : actors.step pool action = some after)
    (hstays : StaysDead pool after) : StepRevivesNothing pool action := by
  obtain ⟨_, rfl, _, _⟩ | ⟨index, choice, party, op, next, state, answer, rfl, htask, hcall, rfl⟩ |
    ⟨_, _, _, rfl, _, _⟩ | ⟨_, _, rfl, _, _⟩ := Actors.step_cases hstep
  · trivial
  · intro party' op' next' htask'
    obtain ⟨rfl, hprogram⟩ := Prod.mk.inj (Option.some.inj (htask.symm.trans htask'))
    cases hprogram
    cases op with
    | updateRuntimeInstance id update now =>
        intro hfailure hlive row hrow hfree
        simp only [actors, perform, hfailure, execute, updateRuntimeInstance, hrow, hfree,
          RuntimeState.commit] at hcall
        cases hcall
        -- The row that was found is stored with the status that was written.
        cases hstatus : row.status.isLive with
        | true => rfl
        | false =>
            have hmem := List.mem_of_find?_eq_some hrow
            have hid : row.id = id := by simpa using List.find?_some hrow
            have hwritten := hstays row hmem hstatus
              (update.apply (now.getD pool.state.clock) row)
              (Table.mem_updateWhere.mpr (Or.inr ⟨row, hmem, decide_eq_true hid, rfl⟩)) rfl
            rw [RuntimeInstance.isDead, show (update.apply _ row).status = update.status from rfl,
              hlive] at hwritten
            cases hwritten
    | _ => trivial
  · trivial
  · trivial

/-- **When one instance of a deployment is live at most.** In a complete run of the system,
every state has at most one live instance of each deployment, the one of the highest
generation, and no instance becomes live again after it was dead, if and only if every write
of a live status that goes through finds its instance live. -/
theorem one_live_instance_iff {actions : List (PoolAction Party Choice ℤ)}
    (hinit : machine.init pool) (hrun : machine.exec pool actions = some after) :
    (machine.Always (fun p => OneLive p.state.store.instances) pool actions ∧
        machine.Throughout StaysDead pool actions) ↔
      machine.Meets StepRevivesNothing pool actions := by
  obtain ⟨⟨_, hnone, _⟩, _⟩ := hinit
  have hrows : InstanceRows pool.state.store.instances := by
    rw [hnone]
    exact ⟨List.nodup_nil, List.nodup_nil⟩
  have honeLive : OneLive pool.state.store.instances := by
    rw [hnone]
    intro row hrow
    cases hrow
  have hdead : machine.Throughout StaysDead pool actions ↔
      machine.Meets StepRevivesNothing pool actions := by
    refine machine.throughout_iff_meets (J := fun p => InstanceRows p.state.store.instances)
      (K := fun p q => ∀ row ∈ p.state.store.instances, row.isDead →
        ∃ later ∈ q.state.store.instances, later.id = row.id ∧ later.isDead)
      (fun _ _ _ hrows hstep => step_instanceRows hrows hstep) (fun p row hrow hdead =>
        ⟨row, hrow, rfl, hdead⟩) (fun p q r hpq hqr row hrow hdead => ?_)
      (fun p q hq hkeeps row hrow hdead later hlater hid => ?_)
      (fun p action q hrows hmeets hstep row hrow hdead =>
        (step_change hrows hstep).keepsDead hmeets hrow hdead)
      (fun p action q _ hstep hstays => stepRevivesNothing_of_staysDead hstep hstays) hrows hrun
    · obtain ⟨middle, hmiddle, hid, hmiddleDead⟩ := hpq row hrow hdead
      obtain ⟨later, hlater, hid', hlaterDead⟩ := hqr middle hmiddle hmiddleDead
      exact ⟨later, hlater, hid'.trans hid, hlaterDead⟩
    · obtain ⟨kept, hkept, hkeptId, hkeptDead⟩ := hkeeps row hrow hdead
      rwa [hq.ids.eq hlater hkept (hid.trans hkeptId.symm)]
  refine ⟨fun hboth => hdead.mp hboth.2, fun hmeets => ⟨?_, hdead.mpr hmeets⟩⟩
  refine machine.always_of_meets (G := StepRevivesNothing)
    (I := fun p => InstanceRows p.state.store.instances ∧ OneLive p.state.store.instances)
    (fun p action q hp hmeets hstep => ?_) (fun _ hp => hp.2) ⟨hrows, honeLive⟩ hmeets
  have hchange := step_change hp.1 hstep
  exact ⟨hchange.instanceRows hp.1, hchange.oneLive hmeets hp.1 hp.2⟩

/-! ## A stale reaper -/

/-- An activation and the first calls it makes. -/
def activate (index : ℕ) (instanceId leaseId : String) (calls : ℕ) :
    List (PoolAction Party Choice ℤ) :=
  .launch (.ensureDeploymentActive "dep" .turn leaseId 180000 0 1) ::
    List.replicate calls (.call index { instanceId, leaseId, port := 4000 })

/-- The first instance becomes ready, serves, and goes idle. -/
def serveAndIdle : List (PoolAction Party Choice ℤ) :=
  activate 0 "first" "lease" 8 ++
    [.launch (.releaseLease "lease"), .call 1 {}, .outside 400000]

/-- The reaper claims the idle instance, and reads its deployment. -/
def claimIdle : List (PoolAction Party Choice ℤ) :=
  [.launch (.reapIdleDeployments 300000), .call 2 {}, .call 2 { picked := ["first"] }, .call 2 {}]

/-- The rest of the reaper's work when nothing comes between. -/
def finishReaping : List (PoolAction Party Choice ℤ) := List.replicate 6 (.call 2 {})

/-- A restart, which retires what it finds live. -/
def restartAll : List (PoolAction Party Choice ℤ) :=
  .launch (.restartDeployment "dep") :: List.replicate 8 (.call 3 {})

/-- A reaper that is left alone stops what it has claimed. -/
theorem one_live_instance_iff_idle :
    (machine.Always (fun p => OneLive p.state.store.instances) samplePool
          (serveAndIdle ++ claimIdle ++ finishReaping) ∧
        machine.Throughout StaysDead samplePool (serveAndIdle ++ claimIdle ++ finishReaping)) ↔
      machine.Meets StepRevivesNothing samplePool (serveAndIdle ++ claimIdle ++ finishReaping) :=
  one_live_instance_iff samplePool_init
    (show machine.exec samplePool (serveAndIdle ++ claimIdle ++ finishReaping) = some _ from rfl)

/-- A restart retires the claimed instance, and a new activation takes a lease on the next
one. The reaper sees that lease, and hands back an instance that is no longer its own. -/
theorem stale_reaper_revives_instance :
    ∃ retired revived, machine.init samplePool ∧
      machine.exec samplePool (serveAndIdle ++ claimIdle ++ restartAll) = some retired ∧
      machine.exec retired (activate 4 "second" "other" 2 ++ [.call 2 {}, .call 2 {}]) =
        some revived ∧
      retired.state.store.instances.map (fun row => (row.id, row.status)) =
        [("first", .stopped)] ∧
      revived.state.store.instances.map (fun row => (row.id, row.status)) =
        [("first", .ready), ("second", .starting)] ∧
      ¬OneLive revived.state.store.instances ∧ ¬StaysDead retired revived := by
  refine ⟨_, _, samplePool_init, rfl, rfl, rfl, rfl, fun honeLive => ?_, fun hstays => ?_⟩
  · have hfirst := (honeLive _ List.mem_cons_self rfl _
      (List.mem_cons_of_mem _ List.mem_cons_self) rfl).1
    exact absurd hfirst (by decide)
  · have hready : RuntimeInstanceStatus.ready.isLive = false :=
      hstays _ List.mem_cons_self rfl _ List.mem_cons_self rfl
    cases hready

end Eveland.RuntimeActors
