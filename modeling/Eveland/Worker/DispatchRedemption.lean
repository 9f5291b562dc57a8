/-
# A dispatch is redeemed once

The status of a run never goes back to queued or activating once it has left them: only the claim
of an activation writes activating, and it finds a run that is queued or activating. Redeeming a
dispatch takes a run from activating to dispatching, so it finds no second one to take, whatever
jobs, posts and sweeps come in between.
-/

import Eveland.Worker.ScheduleDispatch

namespace Eveland.Telemetry

/-- A run that has not got past its activation. -/
def ScheduleRunStatus.isPending (status : ScheduleRunStatus) : Bool :=
  status = .queued || status = .activating

/-- The run is there, and past its activation. -/
def Store.Dispatched (s : Store) (scheduleRunId : String) : Prop :=
  ∃ row, s.getRun scheduleRunId = some row ∧ row.status.isPending = false

/-- A completion never leaves a run pending. -/
theorem completionOf_isPending (executions : List ScheduleRunSession) (input : CompleteRunInput)
    (reportedError : Option String) :
    (completionOf executions input reportedError).status.isPending = false := by
  rw [completionOf]
  dsimp only
  split
  · rfl
  · split
    · rfl
    · cases input.status <;> rfl

variable {s : Store}

/-- Past its activation, a run does not come back to it. -/
theorem RunStep.isPending {a : Action} {row row' : ScheduleRun} (hstep : RunStep s a row row')
    (hpast : row.status.isPending = false) : row'.status.isPending = false := by
  cases hstep with
  | claim hactivatable =>
      simp only [ScheduleRun.isActivatable, Bool.or_eq_true, Bool.and_eq_true,
        decide_eq_true_eq] at hactivatable
      rcases hactivatable with hqueued | ⟨hactivating, _⟩
      · rw [hqueued] at hpast
        cases hpast
      · rw [hactivating] at hpast
        cases hpast
  | redeem => rfl
  | complete executions reportedError => exact completionOf_isPending executions _ reportedError
  | settle _ hstatus => rcases hstatus with rfl | rfl <;> rfl
  | interrupt => rfl
  | lose => rfl
  | expire => rfl

theorem Store.Dispatched.perform {scheduleRunId : String} {a : Action} (hkeyed : Keyed s)
    (hdispatched : s.Dispatched scheduleRunId) : (perform s a).Dispatched scheduleRunId := by
  obtain ⟨row, hrow, hpast⟩ := hdispatched
  obtain ⟨row', hrow', hmoved⟩ := perform_runsMove hkeyed scheduleRunId row hrow
  rcases hmoved with rfl | hstep
  · exact ⟨row', hrow', hpast⟩
  · exact ⟨row', hrow', hstep.isPending hpast⟩

/-- The run an update is of, after it. -/
theorem updateRun_getRun {scheduleRunId : String} {condition : ScheduleRun → Bool}
    {change : ScheduleRun → ScheduleRun} (hid : ∀ row, (change row).id = row.id)
    {row : ScheduleRun} (hrow : s.getRun scheduleRunId = some row)
    (hcondition : condition row = true) :
    (updateRun s scheduleRunId condition change).1.getRun scheduleRunId = some (change row) := by
  have hsame := Store.id_of_getRun hrow
  have hfound := Table.find?_updateWhere
    (p := fun row => row.id = scheduleRunId && condition row) hid s.runs scheduleRunId
  rw [show s.runs.find? (fun row => row.id = scheduleRunId) = some row from hrow] at hfound
  rw [updateRun, Store.getRun]
  simpa [hsame, hcondition] using hfound

/-- A redemption that finds a run leaves it dispatched. -/
theorem redeemScheduleRunDispatch_dispatched {scheduleRunId deploymentId : String} {now : ℤ}
    {row : ScheduleRun}
    (hredeemed : (redeemScheduleRunDispatch s scheduleRunId deploymentId now).2 = some row) :
    (redeemScheduleRunDispatch s scheduleRunId deploymentId now).1.Dispatched scheduleRunId := by
  obtain ⟨found, hfound, rfl⟩ := Option.map_eq_some_iff.mp hredeemed
  obtain ⟨hrun, hcondition⟩ := Option.filter_eq_some_iff.mp hfound
  have hid : ∀ row : ScheduleRun,
      { row with status := .dispatching, attempt := row.attempt + 1, updatedAt := now :
        ScheduleRun }.id = row.id := fun _ => rfl
  exact ⟨_, updateRun_getRun hid hrun hcondition, rfl⟩

/-- There is no dispatch to redeem of a run that is past its activation. -/
theorem Store.Dispatched.redeem_eq_none {scheduleRunId : String}
    (hdispatched : s.Dispatched scheduleRunId) (deploymentId : String) (now : ℤ) :
    (redeemScheduleRunDispatch s scheduleRunId deploymentId now).2 = none := by
  obtain ⟨row, hrow, hpast⟩ := hdispatched
  rw [redeemScheduleRunDispatch, updateRun, hrow]
  have hother : row.status ≠ .activating := by
    intro hactivating
    rw [hactivating] at hpast
    cases hpast
  simp [Option.filter, hother]

end Eveland.Telemetry

namespace Eveland.ScheduleDispatch

open Telemetry

/-- What the redemptions made so far leave behind. -/
structure Redeemed (s : DispatchState) : Prop where
  keyed : Keyed s.store
  once : s.redemptions.Nodup
  dispatched : ∀ scheduleRunId ∈ s.redemptions, s.store.Dispatched scheduleRunId

/-- A call on a run that is redeemed already redeems nothing. -/
theorem execute_redeemed {s : DispatchState} (choice : Choice) (op : Op) (hredeemed : Redeemed s) :
    Redeemed (execute s choice op).1 := by
  have hstore := execute_store s choice op
  have hkeyed : Keyed (execute s choice op).1.store := by
    rw [hstore]
    cases op.action choice with
    | none => exact hredeemed.keyed
    | some a => exact perform_keyed hredeemed.keyed
  have hstays : ∀ scheduleRunId, s.store.Dispatched scheduleRunId →
      (execute s choice op).1.store.Dispatched scheduleRunId := by
    intro scheduleRunId hdispatched
    rw [hstore]
    cases op.action choice with
    | none => exact hdispatched
    | some a => exact hdispatched.perform hredeemed.keyed
  rcases execute_redemptions s choice op with hsame |
    ⟨scheduleRunId, deploymentId, row, rfl, hrow, hmore⟩
  · exact {
      keyed := hkeyed
      once := hsame ▸ hredeemed.once
      dispatched := fun id hid => hstays id (hredeemed.dispatched id (hsame ▸ hid)) }
  · have hfresh : scheduleRunId ∉ s.redemptions := by
      intro hmem
      rw [(hredeemed.dispatched scheduleRunId hmem).redeem_eq_none] at hrow
      cases hrow
    refine ⟨hkeyed, hmore ▸ List.nodup_cons.mpr ⟨hfresh, hredeemed.once⟩, ?_⟩
    intro id hid
    rw [hmore] at hid
    rcases List.mem_cons.mp hid with rfl | hold
    · exact redeemScheduleRunDispatch_dispatched hrow
    · exact hstays id (hredeemed.dispatched id hold)

theorem step_redeemed {pool after : DispatchPool} {action : PoolAction Party Choice Action}
    (hredeemed : Redeemed pool.state) (hstep : machine.step pool action = some after) :
    Redeemed after.state := by
  refine Actors.step_state (A := actors) (I := Redeemed) ?_ ?_ hredeemed hstep
  · intro s op choice t answer hs hperform
    rw [perform_eq_some hperform]
    split
    · exact hs
    · exact execute_redeemed choice op hs
  · intro s a t hs hmeanwhile
    have hmeanwhile : meanwhile s a = some t := hmeanwhile
    rw [meanwhile] at hmeanwhile
    split at hmeanwhile <;> cases hmeanwhile
    exact {
      keyed := perform_keyed hs.keyed
      once := hs.once
      dispatched := fun id hid => (hs.dispatched id hid).perform hs.keyed }

/-- **Redeemed once.** However trigger jobs and posts are launched, repeated, interleaved and
cut short, and whatever is ingested and swept meanwhile, the dispatch of a run is redeemed once
at most. Once it has been, the run is past its activation for good, and no call redeems it. -/
theorem dispatch_redeemed_once {pool : DispatchPool} (hreach : machine.Reachable pool)
    (scheduleRunId : String) :
    pool.state.redemptions.count scheduleRunId ≤ 1 ∧
      (scheduleRunId ∈ pool.state.redemptions →
        (∃ run, pool.state.store.getRun scheduleRunId = some run ∧ run.status ≠ .activating ∧
          run.status ≠ .queued) ∧
        ∀ deploymentId now,
          (redeemScheduleRunDispatch pool.state.store scheduleRunId deploymentId now).2 = none) := by
  have hredeemed : Redeemed pool.state := by
    refine hreach.invariant (I := fun pool => Redeemed pool.state) ?_
      fun pool action after hpool hstep => step_redeemed hpool hstep
    rintro first ⟨⟨hinit, hnone⟩, _⟩
    exact ⟨hinit.keyed, by simp [hnone], by simp [hnone]⟩
  refine ⟨List.nodup_iff_count_le_one.mp hredeemed.once scheduleRunId, fun hmem => ?_⟩
  have hdispatched := hredeemed.dispatched scheduleRunId hmem
  obtain ⟨run, hrun, hpast⟩ := hdispatched
  refine ⟨⟨run, hrun, ?_, ?_⟩, fun deploymentId now => ?_⟩
  · intro hactivating
    rw [hactivating] at hpast
    cases hpast
  · intro hqueued
    rw [hqueued] at hpast
    cases hpast
  · exact Store.Dispatched.redeem_eq_none ⟨run, hrun, hpast⟩ deploymentId now

/-- The system once the dispatch of a run has been redeemed. -/
def redeemedPool : DispatchPool := (machine.exec samplePool sampleRedemption).getD samplePool

theorem redeemedPool_reachable : machine.Reachable redeemedPool :=
  ⟨samplePool, sampleRedemption, samplePool_init, rfl⟩

/-- A run that has been redeemed, at its second redemption. -/
theorem dispatch_redeemed_once_dispatching :
    redeemedPool.state.redemptions.count "run" ≤ 1 ∧
      ∀ deploymentId now,
        (redeemScheduleRunDispatch redeemedPool.state.store "run" deploymentId now).2 = none := by
  obtain ⟨honce, hafter⟩ := dispatch_redeemed_once redeemedPool_reachable "run"
  have hredeemed : "run" ∈ redeemedPool.state.redemptions := by
    show "run" ∈ ["run"]
    exact List.mem_singleton_self _
  exact ⟨honce, (hafter hredeemed).2⟩

end Eveland.ScheduleDispatch
