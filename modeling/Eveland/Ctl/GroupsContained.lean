/-
# Process groups stay contained

An entry whose child has exited is only given a new child once the old process group is empty, and
the stop sweeps the last group of every entry. Both need that an older group of an entry has no
members left, which is what the invariant below says, together with what each suspended routine
knows of the group it works on.
-/

import Eveland.Ctl.Supervisor

namespace Eveland.Supervisor

open State

variable {n : ℕ}

/-! ## What leaves the groups alone -/

/-- The same children and groups, with perhaps more signals sent. -/
structure Quiet (s t : State n) : Prop where
  spawned : t.spawned = s.spawned
  hasMembers : t.hasMembers = s.hasMembers
  lastPid : ∀ i, (t.entries i).lastPid = (s.entries i).lastPid
  restarts : ∀ i, (t.entries i).restarts = (s.entries i).restarts
  handle : ∀ i, (s.entries i).handle = none → (t.entries i).handle = none
  groupSignals : s.groupSignals ⊆ t.groupSignals
  started : t.started = s.started

namespace Quiet

theorem refl (s : State n) : Quiet s s :=
  ⟨rfl, rfl, fun _ => rfl, fun _ => rfl, fun _ h => h, fun _ h => h, rfl⟩

theorem trans {s t u : State n} (first : Quiet s t) (second : Quiet t u) : Quiet s u where
  spawned := second.spawned.trans first.spawned
  hasMembers := second.hasMembers.trans first.hasMembers
  lastPid i := (second.lastPid i).trans (first.lastPid i)
  restarts i := (second.restarts i).trans (first.restarts i)
  handle i h := second.handle i (first.handle i h)
  groupSignals _ h := second.groupSignals (first.groupSignals h)
  started := second.started.trans first.started

theorem publish (s : State n) : Quiet s s.publish :=
  ⟨rfl, rfl, fun _ => rfl, fun _ => rfl, fun _ h => h, fun _ h => h, rfl⟩

theorem setExit (s : State n) (i : Fin n) (point : Option ExitPoint) :
    Quiet s (s.setExit i point) :=
  ⟨rfl, rfl, fun _ => rfl, fun _ => rfl, fun _ h => h, fun _ h => h, rfl⟩

theorem setStop (s : State n) (point : StopPoint) : Quiet s (s.setStop point) :=
  ⟨rfl, rfl, fun _ => rfl, fun _ => rfl, fun _ h => h, fun _ h => h, rfl⟩

theorem killGroup (s : State n) (pid : Pid) (signal : Signal) : Quiet s (s.killGroup pid signal) :=
  ⟨rfl, rfl, fun _ => rfl, fun _ => rfl, fun _ h => h, fun _ h => List.mem_cons_of_mem _ h, rfl⟩

theorem signalGroups (s : State n) (signal : Signal) : Quiet s (s.signalGroups signal) :=
  ⟨rfl, rfl, fun _ => rfl, fun _ => rfl, fun _ h => h, fun _ h => List.mem_append_right _ h, rfl⟩

theorem signalChildren (s : State n) (signal : Signal) : Quiet s (s.signalChildren signal) :=
  ⟨rfl, rfl, fun _ => rfl, fun _ => rfl, fun _ h => h, fun _ h => h, rfl⟩

theorem setStatus (s : State n) (i : Fin n) (status : ChildStatus) :
    Quiet s (s.setStatus i status) := by
  refine ⟨rfl, rfl, fun j => ?_, fun j => ?_, fun j => ?_, fun _ h => h, rfl⟩
  all_goals
    by_cases hj : j = i
    · subst hj
      simp [State.setStatus, State.setEntry]
    · simp [State.setStatus, State.setEntry, hj]

theorem stopOthers (s : State n) : Quiet s s.stopOthers := by
  refine ⟨rfl, rfl, fun i => ?_, fun i => ?_, fun i h => ?_, fun _ h => h, rfl⟩
  · simp only [State.stopOthers]
    split <;> rfl
  · simp only [State.stopOthers]
    split <;> rfl
  · simp only [State.stopOthers]
    split <;> exact h

end Quiet

/-! ## The invariant -/

/-- What a suspended `handleExit` knows of the last group of its entry. -/
def ExitPoint.Knows (s : State n) (i : Fin n) : Option ExitPoint → Prop
  | some (.reaping pid _ _) => (s.entries i).lastPid = some pid
  | some (.reaped true) => ∀ pid, (s.entries i).lastPid = some pid → s.hasMembers pid = false
  | _ => True

/-- Whether `sweepProcessGroups` has sent its last signals. -/
def StopPoint.isPastKill : StopPoint → Bool
  | .sweeping .SIGKILL _ | .swept | .publishing | .returned => true
  | .waiting _ _ | .waited _ | .sweeping .SIGTERM _ => false

/-- Every last group that still has members was sent the last signal. -/
def SentKill (s : State n) : Prop :=
  ∀ i pid, (s.entries i).lastPid = some pid → s.hasMembers pid = true →
    (pid, .SIGKILL) ∈ s.groupSignals

structure Contained (s : State n) : Prop where
  lastSpawned : ∀ i pid, (s.entries i).lastPid = some pid → (i, pid) ∈ s.spawned
  /-- A group that has members is the last one of its entry. -/
  onlyLast : ∀ i pid, (i, pid) ∈ s.spawned → s.hasMembers pid = true →
    (s.entries i).lastPid = some pid
  /-- Only what was spawned has members. -/
  known : ∀ pid, s.hasMembers pid = true → pid ∈ s.spawned.map Prod.snd
  /-- While `handleExit` is suspended its entry has no child. -/
  oneRoutine : ∀ i, s.exits i ≠ none → (s.entries i).handle = none
  knows : ∀ i, ExitPoint.Knows s i (s.exits i)
  sentKill : ∀ point, s.stop = some point → point.isPastKill = true → SentKill s
  notStarted : s.started = false →
    s.stop = none ∧
      ∀ i, s.exits i = none ∧ (s.entries i).lastPid = none ∧ (s.entries i).handle = none

/-- What a routine knows stays known while the last group of the entry is the same and gets no
members back. -/
theorem ExitPoint.Knows.of_lastPid {s t : State n} {i : Fin n} {point : Option ExitPoint}
    (hlast : (t.entries i).lastPid = (s.entries i).lastPid)
    (hmembers : ∀ pid, (s.entries i).lastPid = some pid → t.hasMembers pid = true →
      s.hasMembers pid = true)
    (hknows : ExitPoint.Knows s i point) : ExitPoint.Knows t i point := by
  unfold ExitPoint.Knows at hknows ⊢
  split
  · rw [hlast]
    exact hknows
  · intro pid hpid
    rw [hlast] at hpid
    have hempty := hknows pid hpid
    by_contra hnot
    rw [hmembers pid hpid (by simpa using hnot)] at hempty
    exact absurd hempty (by simp)
  · trivial

theorem Quiet.knows {s t : State n} (hquiet : Quiet s t) {i : Fin n} {point : Option ExitPoint}
    (hknows : ExitPoint.Knows s i point) : ExitPoint.Knows t i point :=
  hknows.of_lastPid (hquiet.lastPid i) fun _ _ hmembers => hquiet.hasMembers ▸ hmembers

theorem Quiet.sentKill {s t : State n} (hquiet : Quiet s t) (hsent : SentKill s) : SentKill t := by
  intro i pid hpid hmembers
  rw [hquiet.lastPid] at hpid
  rw [hquiet.hasMembers] at hmembers
  exact hquiet.groupSignals (hsent i pid hpid hmembers)

/-- The invariant goes over a step that leaves the groups alone, once what the suspended routines
know afterwards is shown. -/
theorem Contained.quiet {s t : State n} (h : Contained s) (hquiet : Quiet s t)
    (hroutine : ∀ i, t.exits i ≠ none → (t.entries i).handle = none)
    (hknows : ∀ i, ExitPoint.Knows t i (t.exits i))
    (hsent : ∀ point, t.stop = some point → point.isPastKill = true → SentKill t)
    (hstarted : s.started = true) : Contained t where
  lastSpawned i pid hpid := by
    rw [hquiet.lastPid] at hpid
    rw [hquiet.spawned]
    exact h.lastSpawned i pid hpid
  onlyLast i pid hspawned hmembers := by
    rw [hquiet.spawned] at hspawned
    rw [hquiet.hasMembers] at hmembers
    rw [hquiet.lastPid]
    exact h.onlyLast i pid hspawned hmembers
  known pid hmembers := by
    rw [hquiet.hasMembers] at hmembers
    rw [hquiet.spawned]
    exact h.known pid hmembers
  oneRoutine := hroutine
  knows := hknows
  sentKill := hsent
  notStarted hfalse := by
    rw [hquiet.started, hstarted] at hfalse
    exact absurd hfalse (by simp)

theorem Contained.started_of_exit {s : State n} (h : Contained s) {i : Fin n}
    (hi : s.exits i ≠ none) : s.started = true := by
  by_contra hfalse
  exact hi (((h.notStarted (by simpa using hfalse)).2 i).1)

theorem Contained.started_of_handle {s : State n} (h : Contained s) {i : Fin n}
    (hi : (s.entries i).handle.isSome) : s.started = true := by
  by_contra hfalse
  rw [((h.notStarted (by simpa using hfalse)).2 i).2.2] at hi
  exact absurd hi (by simp)

theorem Contained.started_of_stop {s : State n} (h : Contained s) (hstop : s.stop ≠ none) :
    s.started = true := by
  by_contra hfalse
  exact hstop ((h.notStarted (by simpa using hfalse)).1)

/-! ## `handleExit` between two awaits -/

/-- `t` comes from `s` by what `handleExit` does with entry `i` between two awaits, short of a
spawn. -/
structure Worked (i : Fin n) (s t : State n) : Prop where
  quiet : Quiet s t
  stop : t.stop = s.stop
  others : ∀ j, j ≠ i → t.exits j = s.exits j
  knows : ExitPoint.Knows t i (t.exits i)

theorem Worked.after {i : Fin n} {s t u : State n} (hquiet : Quiet s t) (hstop : t.stop = s.stop)
    (hexits : t.exits = s.exits) (hworked : Worked i t u) : Worked i s u where
  quiet := hquiet.trans hworked.quiet
  stop := hworked.stop.trans hstop
  others j hj := (hworked.others j hj).trans (congrFun hexits j)
  knows := hworked.knows

theorem worked_setExit (s : State n) (i : Fin n) {point : Option ExitPoint}
    (hknows : ExitPoint.Knows s i point) : Worked i s (s.setExit i point) where
  quiet := Quiet.setExit s i point
  stop := rfl
  others j hj := by simp [State.setExit, hj]
  knows := by
    have hpoint : (s.setExit i point).exits i = point := by simp [State.setExit]
    rw [hpoint]
    exact (Quiet.setExit s i point).knows hknows

theorem worked_giveUp (s : State n) (i : Fin n) : Worked i s (s.giveUp i) :=
  Worked.after (Quiet.setStatus s i .stopped) rfl rfl (worked_setExit _ i trivial)

theorem worked_concludeReap {s : State n} {i : Fin n} {pid : Pid}
    (hlast : (s.entries i).lastPid = some pid) : Worked i s (s.concludeReap i pid) := by
  apply worked_setExit
  unfold State.groupAlive
  cases hmembers : s.hasMembers pid with
  | true => trivial
  | false =>
      intro other hother
      obtain rfl := Option.some.inj (hlast.symm.trans hother)
      exact hmembers

theorem worked_pollReapKilled {s : State n} {i : Fin n} {pid : Pid}
    (hlast : (s.entries i).lastPid = some pid) (waited : ℕ) :
    Worked i s (s.pollReapKilled i pid waited) := by
  unfold State.pollReapKilled
  split
  · exact worked_setExit s i hlast
  · exact worked_concludeReap hlast

theorem worked_pollReapTermed {s : State n} {i : Fin n} {pid : Pid}
    (hlast : (s.entries i).lastPid = some pid) (waited : ℕ) :
    Worked i s (s.pollReapTermed i pid waited) := by
  unfold State.pollReapTermed
  split
  · exact worked_setExit s i hlast
  · split
    · apply Worked.after (Quiet.killGroup s pid .SIGKILL) rfl rfl
      exact worked_pollReapKilled (s := s.killGroup pid .SIGKILL) hlast 0
    · exact worked_concludeReap hlast

theorem worked_pollReap {s : State n} {i : Fin n} {pid : Pid}
    (hlast : (s.entries i).lastPid = some pid) (signal : Signal) (waited : ℕ) :
    Worked i s (s.pollReap i pid signal waited) := by
  cases signal with
  | SIGTERM => exact worked_pollReapTermed hlast waited
  | SIGKILL => exact worked_pollReapKilled hlast waited

theorem worked_reapGroup (s : State n) (i : Fin n) : Worked i s (s.reapGroup i) := by
  unfold State.reapGroup
  split
  next hlast =>
    apply worked_setExit
    intro pid hpid
    rw [hlast] at hpid
    exact absurd hpid (by simp)
  next pid hlast =>
    split
    next =>
      apply Worked.after (Quiet.killGroup s pid .SIGTERM) rfl rfl
      exact worked_pollReapTermed (s := s.killGroup pid .SIGTERM) hlast 0
    next hempty =>
      apply worked_setExit
      intro other hother
      obtain rfl := Option.some.inj (hlast.symm.trans hother)
      simpa [State.groupAlive] using hempty

theorem Contained.worked {s t : State n} (h : Contained s) {i : Fin n} (hi : s.exits i ≠ none)
    (hworked : Worked i s t) : Contained t := by
  refine h.quiet hworked.quiet (fun j hj => ?_) (fun j => ?_) (fun point hpoint hpast => ?_)
    (h.started_of_exit hi)
  · apply hworked.quiet.handle
    by_cases hji : j = i
    · exact hji ▸ h.oneRoutine i hi
    · exact h.oneRoutine j (hworked.others j hji ▸ hj)
  · by_cases hji : j = i
    · exact hji ▸ hworked.knows
    · rw [hworked.others j hji]
      exact hworked.quiet.knows (h.knows j)
  · rw [hworked.stop] at hpoint
    exact hworked.quiet.sentKill (h.sentKill point hpoint hpast)

/-! ## Spawning -/

/-- What becomes of the groups where a child is spawned. -/
structure Spawned (i : Fin n) (pid : Option Pid) (s t : State n) : Prop where
  fresh : s.IsFresh pid
  spawned : t.spawned = (pid.toList.map fun p => (i, p)) ++ s.spawned
  hasMembers : ∀ p, t.hasMembers p = if some p = pid then true else s.hasMembers p
  lastPid : (t.entries i).lastPid = pid
  others : ∀ j, j ≠ i → t.entries j = s.entries j
  exits : t.exits i = none
  otherExits : ∀ j, j ≠ i → t.exits j = s.exits j
  stop : t.stop = s.stop

theorem Spawned.mem {i : Fin n} {pid : Option Pid} {s t : State n} (hspawned : Spawned i pid s t)
    {j : Fin n} {p : Pid} (hmem : (j, p) ∈ t.spawned) :
    (j = i ∧ pid = some p) ∨ (j, p) ∈ s.spawned := by
  rw [hspawned.spawned, List.mem_append] at hmem
  rcases hmem with hnew | hold
  · obtain ⟨q, hq, hpair⟩ := List.mem_map.mp hnew
    have hqp : q = p := congrArg Prod.snd hpair
    have hij : i = j := congrArg Prod.fst hpair
    exact Or.inl ⟨hij.symm, by simpa [hqp] using hq⟩
  · exact Or.inr hold

/-- A process id that was handed out before is not the new one. -/
theorem Spawned.hasMembers_of_mem {i : Fin n} {pid : Option Pid} {s t : State n}
    (hspawned : Spawned i pid s t) {j : Fin n} {p : Pid} (hmem : (j, p) ∈ s.spawned) :
    t.hasMembers p = s.hasMembers p := by
  rw [hspawned.hasMembers, if_neg]
  intro hp
  exact hspawned.fresh p hp.symm (List.mem_map_of_mem hmem)

/-- A child is spawned where the last group of its entry is empty and no stop is under way. -/
theorem Contained.spawned {s t : State n} (h : Contained s) {i : Fin n} {pid : Option Pid}
    (hempty : ∀ p, (s.entries i).lastPid = some p → s.hasMembers p = false)
    (hstop : s.stop = none) (hspawned : Spawned i pid s t)
    (hstarted : t.started = true) : Contained t where
  lastSpawned j p hp := by
    by_cases hj : j = i
    · subst hj
      rw [hspawned.lastPid] at hp
      rw [hspawned.spawned, hp]
      simp
    · rw [hspawned.others j hj] at hp
      rw [hspawned.spawned]
      exact List.mem_append_right _ (h.lastSpawned j p hp)
  onlyLast j p hmem hmembers := by
    rcases hspawned.mem hmem with ⟨rfl, hp⟩ | hold
    · rw [hspawned.lastPid, hp]
    · rw [hspawned.hasMembers_of_mem hold] at hmembers
      have hlast := h.onlyLast j p hold hmembers
      by_cases hj : j = i
      · rw [hj] at hlast
        rw [hempty p hlast] at hmembers
        exact absurd hmembers (by simp)
      · rw [hspawned.others j hj]
        exact hlast
  known p hmembers := by
    rw [hspawned.spawned, List.map_append, List.mem_append]
    rw [hspawned.hasMembers] at hmembers
    by_cases hp : some p = pid
    · left
      simp [← hp]
    · rw [if_neg hp] at hmembers
      exact Or.inr (h.known p hmembers)
  oneRoutine j hj := by
    by_cases hji : j = i
    · rw [hji, hspawned.exits] at hj
      exact absurd rfl hj
    · rw [hspawned.others j hji]
      exact h.oneRoutine j (hspawned.otherExits j hji ▸ hj)
  knows j := by
    by_cases hji : j = i
    · rw [hji, hspawned.exits]
      trivial
    · rw [hspawned.otherExits j hji]
      apply (h.knows j).of_lastPid (congrArg Entry.lastPid (hspawned.others j hji))
      intro p hp hmembers
      exact hspawned.hasMembers_of_mem (h.lastSpawned j p hp) ▸ hmembers
  sentKill point hpoint _ := by
    rw [hspawned.stop, hstop] at hpoint
    exact absurd hpoint (by simp)
  notStarted hfalse := by
    rw [hstarted] at hfalse
    exact absurd hfalse (by simp)

/-- Spawning through a state that only differs in counts and exit points. -/
theorem spawned_spawn {s : State n} {i : Fin n} {pid : Option Pid} (hfresh : s.IsFresh pid)
    (hexit : s.exits i = none) : Spawned i pid s (s.spawn i pid) where
  fresh := hfresh
  spawned := rfl
  hasMembers _ := rfl
  lastPid := by simp [State.spawn, State.setEntry]
  others j hj := by simp [State.spawn, State.setEntry, hj]
  exits := hexit
  otherExits _ _ := rfl
  stop := rfl

/-- The loop of `start` keeps the invariant, as no entry has a group before its turn. -/
theorem Contained.spawnEach {pids : Fin n → Option Pid} {order : List (Fin n)}
    (horder : order.Nodup) {s t : State n} (h : Contained { s with started := true })
    (hstop : s.stop = none) (hexits : ∀ i, s.exits i = none)
    (hlast : ∀ i ∈ order, (s.entries i).lastPid = none)
    (hrun : State.spawnEach order pids s = some t) : Contained { t with started := true } := by
  induction order generalizing s with
  | nil => exact Option.some.inj hrun ▸ h
  | cons i rest ih =>
      obtain ⟨hi, hrest⟩ := List.nodup_cons.mp horder
      unfold State.spawnEach at hrun
      split at hrun
      next hfresh =>
        have hspawned : Spawned i (pids i) { s with started := true }
            { s.spawn i (pids i) with started := true } :=
          spawned_spawn (s := { s with started := true }) hfresh (hexits i)
        apply ih hrest (h.spawned ?_ hstop hspawned rfl) hstop hexits ?_ hrun
        · intro p hp
          have hnone : (s.entries i).lastPid = some p := hp
          rw [hlast i List.mem_cons_self] at hnone
          exact absurd hnone (by simp)
        · intro j hj
          have hji : j ≠ i := fun heq => hi (heq ▸ hj)
          rw [show (s.spawn i (pids i)).entries j = s.entries j from hspawned.others j hji]
          exact hlast j (List.mem_cons_of_mem i hj)
      next => exact absurd hrun (by simp)

/-! ## The stop between two awaits -/

/-- `t` comes from `s` by what `stop` does between two awaits. -/
structure Stopped (s t : State n) : Prop where
  quiet : Quiet s t
  exits : t.exits = s.exits
  stop : t.stop ≠ none
  sentKill : ∀ point, t.stop = some point → point.isPastKill = true → SentKill t

theorem Stopped.after {s t u : State n} (hquiet : Quiet s t) (hexits : t.exits = s.exits)
    (hstopped : Stopped t u) : Stopped s u where
  quiet := hquiet.trans hstopped.quiet
  exits := hstopped.exits.trans hexits
  stop := hstopped.stop
  sentKill := hstopped.sentKill

theorem stopped_setStop (s : State n) {point : StopPoint}
    (hsent : point.isPastKill = true → SentKill s) : Stopped s (s.setStop point) where
  quiet := Quiet.setStop s point
  exits := rfl
  stop := by simp [State.setStop]
  sentKill other hother hpast := by
    obtain rfl : point = other := Option.some.inj hother
    exact (Quiet.setStop s point).sentKill (hsent hpast)

theorem stopped_waitForAllStopped (s : State n) (signal : Signal) (waited : ℕ) :
    Stopped s (s.waitForAllStopped signal waited) := by
  unfold State.waitForAllStopped
  split
  all_goals exact stopped_setStop s (by simp [StopPoint.isPastKill])

theorem mem_lingeringGroups {s : State n} {i : Fin n} {pid : Pid}
    (hpid : (s.entries i).lastPid = some pid) (hmembers : s.hasMembers pid = true) :
    pid ∈ s.lingeringGroups := by
  apply List.mem_filterMap.mpr
  exact ⟨i, List.mem_finRange i, Option.filter_eq_some_iff.mpr ⟨hpid, hmembers⟩⟩

/-- The sweep reaches every last group that has members. -/
theorem sentKill_signalGroups (s : State n) : SentKill (s.signalGroups .SIGKILL) := by
  intro i pid hpid hmembers
  have hlingering : pid ∈ s.lingeringGroups := mem_lingeringGroups hpid hmembers
  apply List.mem_append_left
  apply List.mem_reverse.mpr
  exact List.mem_map.mpr ⟨pid, hlingering, rfl⟩

/-- Where no last group has members there is nothing to send. -/
theorem sentKill_of_lingeringGroups {s : State n} (hnone : s.lingeringGroups = []) :
    SentKill s := by
  intro i pid hpid hmembers
  have hlingering : pid ∈ s.lingeringGroups := mem_lingeringGroups hpid hmembers
  rw [hnone] at hlingering
  exact absurd hlingering (by simp)

theorem stopped_pollSweepKilled {s : State n} (hsent : SentKill s) (waited : ℕ) :
    Stopped s (s.pollSweepKilled waited) := by
  unfold State.pollSweepKilled
  split
  all_goals exact stopped_setStop s fun _ => hsent

theorem stopped_pollSweepTermed (s : State n) (waited : ℕ) :
    Stopped s (s.pollSweepTermed waited) := by
  unfold State.pollSweepTermed
  split
  · exact stopped_setStop s (by simp [StopPoint.isPastKill])
  · apply Stopped.after (Quiet.signalGroups s .SIGKILL) rfl
    exact stopped_pollSweepKilled (sentKill_signalGroups s) 0

theorem stopped_sweepProcessGroups (s : State n) : Stopped s s.sweepProcessGroups := by
  unfold State.sweepProcessGroups
  split
  next hnone => exact stopped_setStop s fun _ => sentKill_of_lingeringGroups hnone
  next =>
    exact Stopped.after (Quiet.signalGroups s .SIGTERM) rfl (stopped_pollSweepTermed _ 0)

theorem stopped_beginStop (s : State n) : Stopped s s.beginStop :=
  Stopped.after (Quiet.signalChildren s .SIGTERM) rfl
    (Stopped.after (Quiet.stopOthers _) rfl (stopped_waitForAllStopped _ .SIGTERM 0))

theorem stopped_proceedStop {s t : State n} (h : Contained s) (hstep : s.proceedStop = some t) :
    Stopped s t := by
  unfold State.proceedStop at hstep
  split at hstep
  next => exact absurd hstep (by simp)
  next signal waited _ =>
    exact Option.some.inj hstep ▸ stopped_waitForAllStopped s signal (waited + pollMs)
  next =>
    exact Option.some.inj hstep ▸ Stopped.after (Quiet.signalChildren s .SIGKILL) rfl
      (stopped_waitForAllStopped _ .SIGKILL 0)
  next => exact Option.some.inj hstep ▸ stopped_sweepProcessGroups s
  next signal waited hstop =>
    obtain rfl := Option.some.inj hstep
    cases signal with
    | SIGTERM => exact stopped_pollSweepTermed s (waited + pollMs)
    | SIGKILL => exact stopped_pollSweepKilled (h.sentKill _ hstop rfl) (waited + pollMs)
  next hstop =>
    obtain rfl := Option.some.inj hstep
    apply Stopped.after (Quiet.publish s) rfl
    exact stopped_setStop _ fun _ => (Quiet.publish s).sentKill (h.sentKill _ hstop rfl)
  next hstop =>
    obtain rfl := Option.some.inj hstep
    exact stopped_setStop s fun _ => h.sentKill _ hstop rfl
  next => exact absurd hstep (by simp)

theorem Contained.stopped {s t : State n} (h : Contained s) (hstarted : s.started = true)
    (hstopped : Stopped s t) : Contained t := by
  apply h.quiet hstopped.quiet ?_ ?_ hstopped.sentKill hstarted
  · intro i hi
    exact hstopped.quiet.handle i (h.oneRoutine i (hstopped.exits ▸ hi))
  · intro i
    rw [hstopped.exits]
    exact hstopped.quiet.knows (h.knows i)

/-! ## Every step -/

/-- An entry that keeps its process group. -/
theorem Quiet.setEntry {s : State n} {i : Fin n} {entry : Entry}
    (hlast : entry.lastPid = (s.entries i).lastPid)
    (hrestarts : entry.restarts = (s.entries i).restarts) (hhandle : entry.handle = none) :
    Quiet s (s.setEntry i entry) := by
  refine ⟨rfl, rfl, fun j => ?_, fun j => ?_, fun j hj => ?_, fun _ h => h, rfl⟩
  all_goals
    by_cases hji : j = i
    · subst hji
      simp [State.setEntry, hlast, hrestarts, hhandle]
    · simp_all [State.setEntry]

/-- What `handleExit` does before its first `await` leaves the groups alone. -/
theorem quiet_handleExit (s : State n) (i : Fin n) (code : Option ℤ) (signal : Option String) :
    Quiet s (s.handleExit i code signal) := by
  unfold State.handleExit
  split
  · exact Quiet.setEntry rfl rfl rfl
  · apply Quiet.trans (Quiet.trans ?_ (Quiet.publish _)) (Quiet.setExit _ i _)
    exact Quiet.setEntry rfl rfl rfl

theorem handleExit_handle (s : State n) (i : Fin n) (code : Option ℤ) (signal : Option String) :
    ((s.handleExit i code signal).entries i).handle = none := by
  unfold State.handleExit
  split
  all_goals simp [State.setEntry, State.setExit, State.publish]

theorem handleExit_exits (s : State n) {i j : Fin n} (hj : j ≠ i) (code : Option ℤ)
    (signal : Option String) : (s.handleExit i code signal).exits j = s.exits j := by
  unfold State.handleExit
  split
  · rfl
  · simp [State.setEntry, State.setExit, State.publish, hj]

theorem handleExit_knows {s : State n} {i : Fin n} (hnone : s.exits i = none) (code : Option ℤ)
    (signal : Option String) :
    ExitPoint.Knows (s.handleExit i code signal) i ((s.handleExit i code signal).exits i) := by
  unfold State.handleExit
  split
  · rw [show (s.setEntry i _).exits i = none from hnone]
    trivial
  · simp [State.setExit, ExitPoint.Knows]

theorem handleExit_stop (s : State n) (i : Fin n) (code : Option ℤ) (signal : Option String) :
    (s.handleExit i code signal).stop = s.stop := by
  unfold State.handleExit
  split <;> rfl

theorem Contained.exits_of_handle {s : State n} (h : Contained s) {i : Fin n}
    (hi : (s.entries i).handle.isSome) : s.exits i = none := by
  by_contra hsome
  rw [h.oneRoutine i hsome] at hi
  exact absurd hi (by simp)

theorem Contained.handleExit {s : State n} (h : Contained s) {i : Fin n}
    (hi : (s.entries i).handle.isSome) (hstarted : s.started = true) (code : Option ℤ)
    (signal : Option String) : Contained (s.handleExit i code signal) := by
  have hquiet := quiet_handleExit s i code signal
  refine h.quiet hquiet (fun j hj => ?_) (fun j => ?_) (fun point hpoint hpast => ?_) hstarted
  · by_cases hji : j = i
    · exact hji ▸ handleExit_handle s i code signal
    · rw [handleExit_exits s hji] at hj
      exact hquiet.handle j (h.oneRoutine j hj)
  · by_cases hji : j = i
    · subst hji
      exact handleExit_knows (h.exits_of_handle hi) code signal
    · rw [handleExit_exits s hji]
      exact hquiet.knows (h.knows j)
  · rw [handleExit_stop] at hpoint
    exact hquiet.sentKill (h.sentKill point hpoint hpast)

/-- A group that ends only has fewer members. -/
theorem Contained.groupEnds {s : State n} (h : Contained s) (pid : Pid) :
    Contained { s with hasMembers := Function.update s.hasMembers pid false } := by
  have hbefore : ∀ p, Function.update s.hasMembers pid false p = true → s.hasMembers p = true := by
    intro p hp
    by_cases hpid : p = pid
    · rw [hpid, Function.update_self] at hp
      exact absurd hp (by simp)
    · rwa [Function.update_of_ne hpid] at hp
  exact {
    lastSpawned := h.lastSpawned
    onlyLast := fun i p hmem hp => h.onlyLast i p hmem (hbefore p hp)
    known := fun p hp => h.known p (hbefore p hp)
    oneRoutine := h.oneRoutine
    knows := fun i => by
      apply (h.knows i).of_lastPid
      · rfl
      · exact fun p _ hp => hbefore p hp
    sentKill := fun point hpoint hpast i p hlast hp =>
      h.sentKill point hpoint hpast i p hlast (hbefore p hp)
    notStarted := h.notStarted }

/-- What `handleExit` does from one `await` to the next, when it spawns and when it does not. -/
theorem proceed_cases {s t : State n} (h : Contained s) {i : Fin n} {pid : Option Pid}
    (hstep : s.proceed i pid = some t) :
    s.exits i ≠ none ∧ (Worked i s t ∨
      (s.exits i = some (.reaped true) ∧ s.stop = none ∧ Spawned i pid s t ∧
        t.started = s.started ∧ (t.entries i).restarts = (s.entries i).restarts + 1)) := by
  have hknows := h.knows i
  unfold State.proceed at hstep
  split at hstep
  next => exact absurd hstep (by simp)
  next delay hi =>
    obtain rfl := Option.some.inj hstep
    exact ⟨by simp [hi], Or.inl (worked_setExit s i trivial)⟩
  next hi =>
    obtain rfl := Option.some.inj hstep
    refine ⟨by simp [hi], Or.inl ?_⟩
    split
    · exact worked_giveUp s i
    · exact worked_reapGroup s i
  next group signal waited hi =>
    obtain rfl := Option.some.inj hstep
    rw [hi] at hknows
    exact ⟨by simp [hi], Or.inl (worked_pollReap hknows signal _)⟩
  next hi =>
    obtain rfl := Option.some.inj hstep
    refine ⟨by simp [hi], Or.inl ?_⟩
    split
    · exact worked_giveUp s i
    · apply Worked.after ((Quiet.setStatus s i .backoff).trans (Quiet.publish _)) rfl rfl
      exact worked_setExit _ i trivial
  next hi =>
    obtain rfl := Option.some.inj hstep
    exact ⟨by simp [hi], Or.inl (worked_setExit s i trivial)⟩
  next hi =>
    obtain rfl := Option.some.inj hstep
    exact ⟨by simp [hi], Or.inl (worked_reapGroup s i)⟩
  next hi =>
    refine ⟨by simp [hi], ?_⟩
    split at hstep
    next =>
      obtain rfl := Option.some.inj hstep
      exact Or.inl (worked_giveUp s i)
    next hstopping =>
      split at hstep
      next hfresh =>
        obtain rfl := Option.some.inj hstep
        refine Or.inr ⟨hi, by simpa [State.stopping] using hstopping, ?_, rfl, by
          simp [State.spawn, State.setEntry, State.setExit, State.publish]⟩
        exact {
          fresh := hfresh
          spawned := rfl
          hasMembers := fun _ => rfl
          lastPid := by simp [State.spawn, State.setEntry, State.setExit, State.publish]
          others := fun j hj => by
            simp [State.spawn, State.setEntry, State.setExit, State.publish, hj]
          exits := by simp [State.setExit, State.publish]
          otherExits := fun j hj => by
            simp [State.spawn, State.setEntry, State.setExit, State.publish, hj]
          stop := rfl }
      next => exact absurd hstep (by simp)

theorem Contained.proceed {s t : State n} (h : Contained s) {i : Fin n} {pid : Option Pid}
    (hstep : s.proceed i pid = some t) : Contained t := by
  obtain ⟨hi, hworked | ⟨hreaped, hstop, hspawned, hstarted, _⟩⟩ := proceed_cases h hstep
  · exact h.worked hi hworked
  · have hknows := h.knows i
    rw [hreaped] at hknows
    exact h.spawned hknows hstop hspawned (hstarted.trans (h.started_of_exit hi))

theorem Contained.start {s t : State n} (h : Contained s) {pids : Fin n → Option Pid}
    (hnot : s.started = false) (hrun : State.spawnEach (List.finRange n) pids s = some t) :
    Contained { t.publish with started := true } := by
  obtain ⟨hstop, hidle⟩ := h.notStarted hnot
  have hstarted : Contained { s with started := true } := { h with notStarted := by simp }
  have hcontained := hstarted.spawnEach (List.nodup_finRange n) hstop (fun i => (hidle i).1)
    (fun i _ => (hidle i).2.1) hrun
  exact { hcontained with notStarted := by simp }

/-- **Every step** of the supervisor and of its host keeps the groups contained. -/
theorem Contained.step {s t : State n} (h : Contained s) {a : Action n}
    (hstep : Supervisor.step s a = some t) : Contained t := by
  cases a with
  | start pids =>
      simp only [Supervisor.step] at hstep
      split at hstep
      next => exact absurd hstep (by simp)
      next hnot =>
        obtain ⟨u, hrun, rfl⟩ := Option.map_eq_some_iff.mp hstep
        exact h.start (by simpa using hnot) hrun
  | childExit i code signal =>
      simp only [Supervisor.step] at hstep
      split at hstep
      next hi =>
        obtain rfl := Option.some.inj hstep
        exact h.handleExit hi (h.started_of_handle hi) code signal
      next => exact absurd hstep (by simp)
  | proceed i pid => exact h.proceed hstep
  | stop =>
      simp only [Supervisor.step] at hstep
      split at hstep
      next hcond =>
        obtain rfl := Option.some.inj hstep
        exact h.stopped hcond.1 (stopped_beginStop s)
      next => exact absurd hstep (by simp)
  | proceedStop =>
      refine h.stopped (h.started_of_stop ?_) (stopped_proceedStop h hstep)
      intro hnone
      simp [Supervisor.step, State.proceedStop, hnone] at hstep
  | groupEnds pid => exact Option.some.inj hstep ▸ h.groupEnds pid
  | tick ms => exact Option.some.inj hstep ▸ { h with }

theorem contained_init (keys : Fin n → String) (nowMs : ℕ) : Contained (init keys nowMs) where
  lastSpawned _ _ h := absurd h (by simp [init, Entry.new])
  onlyLast _ _ h := absurd h (by simp [init])
  known _ h := absurd h (by simp [init])
  oneRoutine _ h := absurd rfl h
  knows _ := trivial
  sentKill _ h := absurd h (by simp [init])
  notStarted _ := ⟨rfl, fun _ => ⟨rfl, rfl, rfl⟩⟩

/-! ## Every run -/

theorem Contained.of_reachable {s : State n} (hs : (machine n).Reachable s) : Contained s := by
  apply hs.invariant
  · rintro _ ⟨keys, nowMs, rfl⟩
    exact contained_init keys nowMs
  · exact fun s a t h hstep => h.step hstep

/-- Once a stop is under way no step spawns a child. -/
theorem spawned_of_stopping {s t : State n} (h : Contained s) (hstop : s.stop ≠ none)
    {a : Action n} (hstep : Supervisor.step s a = some t) :
    t.spawned = s.spawned ∧ t.stop ≠ none := by
  have hstarted := h.started_of_stop hstop
  cases a with
  | start pids => simp [Supervisor.step, hstarted] at hstep
  | childExit i code signal =>
      simp only [Supervisor.step] at hstep
      split at hstep
      next =>
        obtain rfl := Option.some.inj hstep
        exact ⟨(quiet_handleExit s i code signal).spawned, by rwa [handleExit_stop]⟩
      next => exact absurd hstep (by simp)
  | proceed i pid =>
      obtain ⟨_, hworked | ⟨_, hnone, _⟩⟩ := proceed_cases h hstep
      · exact ⟨hworked.quiet.spawned, by rwa [hworked.stop]⟩
      · exact absurd hnone hstop
  | stop => simp [Supervisor.step, hstop] at hstep
  | proceedStop =>
      have hstopped := stopped_proceedStop h hstep
      exact ⟨hstopped.quiet.spawned, hstopped.stop⟩
  | groupEnds pid => exact Option.some.inj hstep ▸ ⟨rfl, hstop⟩
  | tick ms => exact Option.some.inj hstep ▸ ⟨rfl, hstop⟩

theorem spawned_of_exec {s t : State n} (h : Contained s) (hstop : s.stop ≠ none)
    {as : List (Action n)} (hrun : (machine n).exec s as = some t) : t.spawned = s.spawned := by
  induction as generalizing s with
  | nil => exact congrArg State.spawned (Option.some.inj hrun).symm
  | cons a as ih =>
      obtain ⟨m, hm, hrest⟩ := (machine n).exec_cons_eq_some.mp hrun
      obtain ⟨hspawned, hstop'⟩ := spawned_of_stopping h hstop hm
      exact (ih (h.step hm) hstop' hrest).trans hspawned

/-- **Process groups stay contained.** In every reachable state at most one process group of each
entry has members. Once `stop` was called, no run spawns another child; and when `stop` has
returned, every process group that was ever spawned is empty or was sent the last signal. -/
theorem groups_stay_contained (s : State n) (hs : (machine n).Reachable s) :
    (∀ i p q, (i, p) ∈ s.spawned → (i, q) ∈ s.spawned →
      s.hasMembers p = true → s.hasMembers q = true → p = q) ∧
    (s.stop ≠ none → ∀ as t, (machine n).exec s as = some t → t.spawned = s.spawned) ∧
    (s.stop = some .returned → ∀ i p, (i, p) ∈ s.spawned →
      s.hasMembers p = false ∨ (p, .SIGKILL) ∈ s.groupSignals) := by
  have h := Contained.of_reachable hs
  refine ⟨fun i p q hp hq hmp hmq => ?_, fun hstop as t hrun => ?_, fun hreturned i p hp => ?_⟩
  · have hlast := (h.onlyLast i p hp hmp).symm.trans (h.onlyLast i q hq hmq)
    exact Option.some.inj hlast
  · exact spawned_of_exec h hstop hrun
  · cases hmembers : s.hasMembers p with
    | false => exact Or.inl rfl
    | true =>
        right
        exact h.sentKill .returned hreturned rfl i p (h.onlyLast i p hp hmembers) hmembers

/-- One child that is stopped in time, and whose group ends with it. -/
def stopRun : List (Action 1) :=
  [.start fun _ => some 7, .stop, .childExit 0 none (some "SIGTERM"), .groupEnds 7, .proceedStop,
    .proceedStop, .proceedStop, .proceedStop, .proceedStop]

def stoppedState : State 1 :=
  ((machine 1).exec (init (fun _ => "api") 0) stopRun).getD (init (fun _ => "api") 0)

/-- The group of that child, once `stop` has returned. -/
theorem groups_stay_contained_when_stopped : stoppedState.hasMembers 7 = false ∨
    (7, Signal.SIGKILL) ∈ stoppedState.groupSignals :=
  (groups_stay_contained stoppedState
    ⟨init (fun _ => "api") 0, stopRun, ⟨_, _, rfl⟩, rfl⟩).2.2 rfl ⟨0, Nat.zero_lt_one⟩ 7
      (by decide +kernel)

end Eveland.Supervisor
