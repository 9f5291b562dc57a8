/-
# Children are started again

A child that has exited leaves its entry to one suspended `handleExit`. While no stop is asked for,
this routine gives the entry a new child within four of its own steps from when the old process
group is empty, whatever the other routines and the host do in between.
-/

import Eveland.Ctl.GroupsContained

namespace Eveland.Supervisor

open State

variable {n : ℕ}

/-- How many steps of `handleExit` are left to the spawn, where the old group is empty. -/
def ExitPoint.stepsLeft : ExitPoint → ℕ
  | .reaped true => 1
  | .backingOff _ => 2
  | .reaping _ _ _ => 2
  | .retrying => 2
  | .publishing _ => 3
  | .publishingSurvivor => 3
  | .reaped false => 4

/-- Whether an action is a step of the `handleExit` of an entry. -/
def Action.isStepOf (i : Fin n) : Action n → Bool
  | .proceed j _ => j = i
  | _ => false

def Action.isStop : Action n → Bool
  | .stop => true
  | _ => false

/-- Entry `i` waits for a new child, nothing is left of its old group and no stop was asked for. -/
structure Awaiting (s : State n) (i : Fin n) (point : ExitPoint) : Prop where
  exits : s.exits i = some point
  empty : ∀ p, (s.entries i).lastPid = some p → s.hasMembers p = false
  stop : s.stop = none

theorem Awaiting.of_worked {s t : State n} {i j : Fin n} {point next : ExitPoint}
    (h : Awaiting s i point) (hworked : Worked j s t) (hi : t.exits i = some next) :
    Awaiting t i next where
  exits := hi
  empty p hp := by
    rw [hworked.quiet.hasMembers]
    exact h.empty p (hworked.quiet.lastPid i ▸ hp)
  stop := hworked.stop.trans h.stop

/-- The answer of a `reapGroup` that finds the group empty. -/
theorem exits_pollReap {s : State n} {i : Fin n} {pid : Pid}
    (hempty : s.hasMembers pid = false) (signal : Signal) (waited : ℕ) :
    (s.pollReap i pid signal waited).exits i = some (.reaped true) := by
  cases signal with
  | SIGTERM =>
      simp [State.pollReap, State.pollReapTermed, State.groupAlive, hempty, State.concludeReap,
        State.setExit]
  | SIGKILL =>
      simp [State.pollReap, State.pollReapKilled, State.groupAlive, hempty, State.concludeReap,
        State.setExit]

theorem Awaiting.exits_reapGroup {s : State n} {i : Fin n} {point : ExitPoint}
    (h : Awaiting s i point) : (s.reapGroup i).exits i = some (.reaped true) := by
  unfold State.reapGroup
  split
  · simp [State.setExit]
  · next pid hlast => simp [State.groupAlive, h.empty pid hlast, State.setExit]

/-- Where the routine goes with nothing left to reap, short of the spawn. -/
theorem Awaiting.exits_proceed {s t : State n} (hs : Contained s) {i : Fin n} {point : ExitPoint}
    (h : Awaiting s i point) (hpoint : point ≠ .reaped true) {pid : Option Pid}
    (hstep : s.proceed i pid = some t) :
    ∃ next, t.exits i = some next ∧ next.stepsLeft < point.stepsLeft := by
  have hknows := hs.knows i
  have hstopping : s.stopping = false := by simp [State.stopping, h.stop]
  rw [h.exits] at hknows
  unfold State.proceed at hstep
  rw [h.exits] at hstep
  cases point with
  | publishing delay =>
      obtain rfl := Option.some.inj hstep
      exact ⟨.backingOff delay, by simp [State.setExit], by simp [ExitPoint.stepsLeft]⟩
  | backingOff delay =>
      simp only [hstopping] at hstep
      obtain rfl := Option.some.inj hstep
      exact ⟨.reaped true, h.exits_reapGroup, by simp [ExitPoint.stepsLeft]⟩
  | reaping group signal waited =>
      obtain rfl := Option.some.inj hstep
      exact ⟨.reaped true, exits_pollReap (h.empty group hknows) signal _,
        by simp [ExitPoint.stepsLeft]⟩
  | reaped emptied =>
      cases emptied with
      | true => exact absurd rfl hpoint
      | false =>
          simp only [hstopping] at hstep
          obtain rfl := Option.some.inj hstep
          exact ⟨.publishingSurvivor, by simp [State.setExit], by simp [ExitPoint.stepsLeft]⟩
  | publishingSurvivor =>
      obtain rfl := Option.some.inj hstep
      exact ⟨.retrying, by simp [State.setExit], by simp [ExitPoint.stepsLeft]⟩
  | retrying =>
      obtain rfl := Option.some.inj hstep
      exact ⟨.reaped true, h.exits_reapGroup, by simp [ExitPoint.stepsLeft]⟩

/-- The spawn itself. -/
theorem Awaiting.restarts_proceed {s t : State n} {i : Fin n} (h : Awaiting s i (.reaped true))
    {pid : Option Pid} (hstep : s.proceed i pid = some t) :
    (t.entries i).restarts = (s.entries i).restarts + 1 := by
  have hstopping : s.stopping = false := by simp [State.stopping, h.stop]
  unfold State.proceed at hstep
  rw [h.exits] at hstep
  simp only [hstopping, Bool.false_eq_true, if_false] at hstep
  split at hstep
  next =>
    obtain rfl := Option.some.inj hstep
    simp [State.spawn, State.setEntry, State.setExit, State.publish]
  next => exact absurd hstep (by simp)

/-- A step that leaves entry `i` waiting as it was. -/
structure Undisturbed (i : Fin n) (point : ExitPoint) (s t : State n) : Prop where
  awaiting : Awaiting t i point
  restarts : (t.entries i).restarts = (s.entries i).restarts

/-- What is not a step of the entry's own `handleExit`, and no stop, does not disturb it. -/
theorem Awaiting.undisturbed {s t : State n} (hs : Contained s) {i : Fin n} {point : ExitPoint}
    (h : Awaiting s i point) {a : Action n} (hown : a.isStepOf i = false)
    (hstop : a.isStop = false) (hstep : step s a = some t) : Undisturbed i point s t := by
  have hexit : s.exits i ≠ none := by simp [h.exits]
  have hstarted := hs.started_of_exit hexit
  cases a with
  | start pids => simp [step, hstarted] at hstep
  | childExit j code signal =>
      simp only [step] at hstep
      split at hstep
      next hj =>
        obtain rfl := Option.some.inj hstep
        have hquiet := quiet_handleExit s j code signal
        have hij : i ≠ j := fun heq => hexit (hs.exits_of_handle (heq ▸ hj))
        refine ⟨⟨?_, ?_, ?_⟩, hquiet.restarts i⟩
        · rw [handleExit_exits s hij]
          exact h.exits
        · intro p hp
          rw [hquiet.hasMembers]
          exact h.empty p (hquiet.lastPid i ▸ hp)
        · rw [handleExit_stop]
          exact h.stop
      next => exact absurd hstep (by simp)
  | proceed j pid =>
      have hij : i ≠ j := fun heq => by simp [Action.isStepOf, heq] at hown
      obtain ⟨_, hworked | ⟨_, _, hspawned, _, _⟩⟩ := proceed_cases hs hstep
      · refine ⟨h.of_worked hworked ?_, hworked.quiet.restarts i⟩
        rw [hworked.others i hij]
        exact h.exits
      · have hentry := hspawned.others i hij
        refine ⟨⟨?_, ?_, ?_⟩, congrArg Entry.restarts hentry⟩
        · rw [hspawned.otherExits i hij]
          exact h.exits
        · intro p hp
          rw [hentry] at hp
          rw [hspawned.hasMembers_of_mem (hs.lastSpawned i p hp)]
          exact h.empty p hp
        · rw [hspawned.stop]
          exact h.stop
  | stop => simp [Action.isStop] at hstop
  | proceedStop => simp [step, State.proceedStop, h.stop] at hstep
  | groupEnds pid =>
      obtain rfl := Option.some.inj hstep
      refine ⟨⟨h.exits, fun p hp => ?_, h.stop⟩, rfl⟩
      by_cases hpid : p = pid
      · simp [hpid]
      · simpa [hpid] using h.empty p hp
  | tick ms =>
      obtain rfl := Option.some.inj hstep
      exact ⟨⟨h.exits, h.empty, h.stop⟩, rfl⟩

theorem restarts_spawnEach {pids : Fin n → Option Pid} {order : List (Fin n)} {s t : State n}
    (hrun : State.spawnEach order pids s = some t) (i : Fin n) :
    (t.entries i).restarts = (s.entries i).restarts := by
  induction order generalizing s with
  | nil => exact Option.some.inj hrun ▸ rfl
  | cons j rest ih =>
      unfold State.spawnEach at hrun
      split at hrun
      next =>
        rw [ih hrun]
        by_cases hij : i = j
        · subst hij
          simp [State.spawn, State.setEntry]
        · simp [State.spawn, State.setEntry, hij]
      next => exact absurd hrun (by simp)

/-- No step takes a restart back. -/
theorem restarts_le_of_step {s t : State n} (hs : Contained s) {a : Action n}
    (hstep : step s a = some t) (i : Fin n) : (s.entries i).restarts ≤ (t.entries i).restarts := by
  cases a with
  | start pids =>
      simp only [step] at hstep
      split at hstep
      next => exact absurd hstep (by simp)
      next =>
        obtain ⟨u, hrun, rfl⟩ := Option.map_eq_some_iff.mp hstep
        exact (restarts_spawnEach hrun i).ge
  | childExit j code signal =>
      simp only [step] at hstep
      split at hstep
      next =>
        obtain rfl := Option.some.inj hstep
        exact ((quiet_handleExit s j code signal).restarts i).ge
      next => exact absurd hstep (by simp)
  | proceed j pid =>
      obtain ⟨_, hworked | ⟨_, _, hspawned, _, hrestarts⟩⟩ := proceed_cases hs hstep
      · exact (hworked.quiet.restarts i).ge
      · by_cases hij : i = j
        · rw [hij, hrestarts]
          exact Nat.le_succ _
        · rw [hspawned.others i hij]
  | stop =>
      simp only [step] at hstep
      split at hstep
      next =>
        obtain rfl := Option.some.inj hstep
        exact ((stopped_beginStop s).quiet.restarts i).ge
      next => exact absurd hstep (by simp)
  | proceedStop => exact ((stopped_proceedStop hs hstep).quiet.restarts i).ge
  | groupEnds pid => exact Option.some.inj hstep ▸ le_rfl
  | tick ms => exact Option.some.inj hstep ▸ le_rfl

theorem restarts_le_of_exec {s t : State n} (hs : Contained s) {as : List (Action n)}
    (hrun : (machine n).exec s as = some t) (i : Fin n) :
    (s.entries i).restarts ≤ (t.entries i).restarts := by
  induction as generalizing s with
  | nil => exact Option.some.inj hrun ▸ le_rfl
  | cons a as ih =>
      obtain ⟨m, hm, hrest⟩ := (machine n).exec_cons_eq_some.mp hrun
      exact (restarts_le_of_step hs hm i).trans (ih (hs.step hm) hrest)

/-- With enough steps of its own routine the entry is given a new child. -/
theorem Awaiting.restarts_lt {s t : State n} (hs : Contained s) {i : Fin n} {point : ExitPoint}
    (h : Awaiting s i point) {as : List (Action n)} (hstop : as.any Action.isStop = false)
    (hsteps : point.stepsLeft ≤ as.countP (Action.isStepOf i))
    (hrun : (machine n).exec s as = some t) :
    (s.entries i).restarts < (t.entries i).restarts := by
  induction as generalizing s point with
  | nil =>
      unfold ExitPoint.stepsLeft at hsteps
      split at hsteps <;> simp at hsteps
  | cons a as ih =>
      obtain ⟨m, hm, hrest⟩ := (machine n).exec_cons_eq_some.mp hrun
      obtain ⟨hhead, htail⟩ := Bool.or_eq_false_iff.mp ((List.any_cons ..).symm.trans hstop)
      rw [List.countP_cons] at hsteps
      have hm' := hs.step hm
      cases hown : a.isStepOf i with
      | false =>
          have hsame := h.undisturbed hs hown hhead hm
          rw [← hsame.restarts]
          apply ih hm' hsame.awaiting htail ?_ hrest
          simpa [hown] using hsteps
      | true =>
          obtain ⟨pid, rfl⟩ : ∃ pid, a = .proceed i pid := by
            cases a <;> simp_all [Action.isStepOf]
          by_cases hpoint : point = .reaped true
          · subst hpoint
            have hspawn := h.restarts_proceed hm
            have hkept := restarts_le_of_exec hm' hrest i
            omega
          · obtain ⟨next, hnext, hless⟩ := h.exits_proceed hs hpoint hm
            obtain ⟨_, hworked | ⟨hreaped, _⟩⟩ := proceed_cases hs hm
            · rw [← hworked.quiet.restarts i]
              apply ih hm' (h.of_worked hworked hnext) htail ?_ hrest
              rw [if_pos hown] at hsteps
              omega
            · exact absurd (Option.some.inj (h.exits.symm.trans hreaped)) hpoint

/-- **A child that has exited is given a successor.** In every reachable state in which an entry's
`handleExit` is suspended, nothing is left of its old process group and no stop was asked for,
every run without a stop in which that routine takes its `stepsLeft`, at most four, starts the
entry again. -/
theorem exited_child_is_respawned (s t : State n) (hs : (machine n).Reachable s) (i : Fin n)
    (point : ExitPoint) (hexit : s.exits i = some point)
    (hempty : ∀ p, (i, p) ∈ s.spawned → s.hasMembers p = false) (hstop : s.stop = none)
    (as : List (Action n)) (hnostop : as.any Action.isStop = false)
    (hsteps : point.stepsLeft ≤ as.countP (Action.isStepOf i))
    (hrun : (machine n).exec s as = some t) :
    (s.entries i).restarts < (t.entries i).restarts := by
  have h := Contained.of_reachable hs
  have hawaiting : Awaiting s i point :=
    ⟨hexit, fun p hp => hempty p (h.lastSpawned i p hp), hstop⟩
  exact hawaiting.restarts_lt h hnostop hsteps hrun

/-- The only entry of the stack in the example below. -/
def api : Fin 1 := ⟨0, Nat.zero_lt_one⟩

/-- One child that exits, and whose group ends after that. -/
def exitedRun : List (Action 1) :=
  [.start fun _ => some 7, .childExit api (some 1) none, .groupEnds 7]

/-- Its `handleExit` to the spawn. -/
def respawnRun : List (Action 1) :=
  [.proceed api none, .proceed api none, .proceed api (some 8)]

def exited : State 1 :=
  ((machine 1).exec (init (fun _ => "api") 0) exitedRun).getD (init (fun _ => "api") 0)

def respawned : State 1 := ((machine 1).exec exited respawnRun).getD exited

theorem exited_child_is_respawned_once :
    (exited.entries api).restarts < (respawned.entries api).restarts :=
  exited_child_is_respawned exited respawned
    ⟨init (fun _ => "api") 0, exitedRun, ⟨_, _, rfl⟩, rfl⟩ api (.publishing 1000) rfl
    (by
      intro p hp
      have hspawned : exited.spawned = [(api, 7)] := rfl
      rw [hspawned] at hp
      obtain rfl : p = 7 := by simpa using hp
      rfl)
    rfl respawnRun (by decide) (by decide) rfl

end Eveland.Supervisor
