/-
# Nothing is left behind

A runtime that leaves its place is shut down in the same step, so the ones that have not been shut
down are those in place. After `shutdown` the place stays empty unless the reload in flight, of
which there is one at most, still creates a runtime.
-/

import Eveland.AgentObserver.PolicyRuntime

namespace Eveland.PolicyRuntime

variable {s t : State} {interval : ℤ}

/-! ## Events after a return -/

theorem quietAfterReturn_of_not_mem {events : List Event} (h : .returned ∉ events) :
    QuietAfterReturn events := by
  intro before after hsplit
  apply absurd _ h
  rw [hsplit]
  exact List.mem_append_right _ List.mem_cons_self

theorem QuietAfterReturn.append {events more : List Event} (h : QuietAfterReturn events)
    (hmore : ∀ event ∈ more, event.isActivity = false) : QuietAfterReturn (events ++ more) := by
  intro before after hsplit event hevent
  rcases List.append_eq_append_iff.mp hsplit with ⟨front, hbefore, hmore'⟩ | ⟨back, hevents, hback⟩
  · apply hmore
    rw [hmore']
    exact List.mem_append_right _ (List.mem_cons_of_mem _ hevent)
  · cases back with
    | nil =>
        apply hmore
        rw [List.nil_append] at hback
        rw [← hback]
        exact List.mem_cons_of_mem _ hevent
    | cons first back =>
        rw [List.cons_append] at hback
        obtain ⟨rfl, rfl⟩ := List.cons.inj hback
        rcases List.mem_append.mp hevent with hold | hnew
        · exact h before back hevents event hold
        · exact hmore event hnew

theorem stopActive_isActivity : ∀ event ∈ s.stopActive, event.isActivity = false := by
  intro event h
  obtain ⟨active, -, rfl⟩ := List.mem_map.mp h
  rfl

/-! ## The invariant -/

/-- The runtime in place, if any. -/
def State.place (s : State) : Option ℕ := s.active.map Active.runtime

/-- The invariant of every run. -/
structure Consistent (s : State) : Prop where
  created : ∀ runtime, .created runtime ∈ s.events ↔ runtime < s.runtimes
  shutdown : ∀ runtime, s.events.count (.shutdown runtime) =
    if runtime < s.runtimes ∧ s.place ≠ some runtime then 1 else 0
  place : ∀ runtime, s.place = some runtime → runtime < s.runtimes
  late : s.late = true ↔ s.stopped = true ∧ s.active ≠ none
  pending : s.stopped = true → s.reload = some .loading → s.late = false
  returned : .returned ∈ s.events → s.stopped = true
  closing : s.closing = true → s.stopped = true

theorem consistent_initial : Consistent initial where
  created runtime := by simp [initial]
  shutdown runtime := by simp [initial]
  place runtime h := by cases h
  late := by simp [initial]
  pending h := by cases h
  returned h := by cases h
  closing h := by cases h

/-- What a step does that leaves the place and the runtimes alone, and adds no event about them. -/
theorem Consistent.congr (hs : Consistent s) {more : List Event}
    (hactive : t.active = s.active) (hruntimes : t.runtimes = s.runtimes)
    (hevents : t.events = s.events ++ more)
    (hcreated : ∀ runtime, .created runtime ∉ more)
    (hshutdown : ∀ runtime, .shutdown runtime ∉ more)
    (hlate : t.late = s.late) (hstopped : t.stopped = s.stopped)
    (hpending : t.stopped = true → t.reload = some .loading → s.reload = some .loading)
    (hreturned : .returned ∈ more → s.stopped = true)
    (hclosing : t.closing = true → s.stopped = true) : Consistent t where
  created runtime := by
    rw [hevents, hruntimes, List.mem_append, hs.created, or_iff_left (hcreated runtime)]
  shutdown runtime := by
    rw [hevents, hruntimes, State.place, hactive, List.count_append,
      List.count_eq_zero.mpr (hshutdown runtime), Nat.add_zero]
    exact hs.shutdown runtime
  place := by
    rw [State.place, hactive, hruntimes]
    exact hs.place
  late := by
    rw [hlate, hstopped, hactive]
    exact hs.late
  pending hstop hreload := by
    rw [hlate]
    exact hs.pending (hstopped ▸ hstop) (hpending hstop hreload)
  returned h := by
    rw [hevents, List.mem_append] at h
    rw [hstopped]
    rcases h with hold | hnew
    · exact hs.returned hold
    · exact hreturned hnew
  closing h := by
    rw [hstopped]
    exact hclosing h

theorem count_stopActive (s : State) (runtime : ℕ) :
    s.stopActive.count (.shutdown runtime) = if s.place = some runtime then 1 else 0 := by
  rw [State.stopActive, State.place]
  cases s.active with
  | none => rfl
  | some active => simp [List.count_cons, List.count_nil]

theorem created_not_mem_stopActive (s : State) (runtime : ℕ) :
    .created runtime ∉ s.stopActive := by
  simp [State.stopActive]

theorem returned_not_mem_stopActive (s : State) : .returned ∉ s.stopActive := by
  simp [State.stopActive]

/-- Disabling shuts down the runtime in place. -/
theorem count_disable (hs : Consistent s) (runtime : ℕ) :
    (s.events ++ s.stopActive).count (.shutdown runtime) =
      if runtime < s.runtimes then 1 else 0 := by
  rw [List.count_append, hs.shutdown, count_stopActive]
  by_cases hplace : s.place = some runtime
  · simp [hplace, hs.place runtime hplace]
  · simp [hplace]

/-- `disable`, by a reload or by `shutdown`. -/
theorem Consistent.disable (hs : Consistent s) (hactive : t.active = none)
    (hruntimes : t.runtimes = s.runtimes) (hevents : t.events = s.events ++ s.stopActive)
    (hlate : t.late = false) (hstopped : s.stopped = true → t.stopped = true)
    (hclosing : t.closing = true → t.stopped = true) : Consistent t where
  created runtime := by
    rw [hevents, hruntimes, List.mem_append, hs.created,
      or_iff_left (created_not_mem_stopActive s runtime)]
  shutdown runtime := by
    rw [hevents, hruntimes, State.place, hactive, count_disable hs]
    simp
  place runtime h := by
    rw [State.place, hactive] at h
    cases h
  late := by simp [hlate, hactive]
  pending _ _ := hlate
  returned h := by
    rw [hevents, List.mem_append, or_iff_left (returned_not_mem_stopActive s)] at h
    exact hstopped (hs.returned h)
  closing := hclosing

/-- A reload that finds the manager stopped finds no runtime in place. -/
theorem Consistent.not_late (hs : Consistent s) (hreload : s.reload = some .loading) :
    s.late = false := by
  by_cases hstopped : s.stopped = true
  · exact hs.pending hstopped hreload
  · rw [← Bool.not_eq_true, hs.late]
    exact fun h => hstopped h.1

/-- A reload creates a runtime, and shuts down the one in place. -/
theorem Consistent.install (hs : Consistent s) (hlate : s.late = false) (revision : ℕ) :
    Consistent
      { s with
        active := some ⟨revision, s.runtimes⟩
        runtimes := s.runtimes + 1
        events := s.events ++ .created s.runtimes :: s.stopActive
        late := s.late || s.stopped
        reload := some .stopping } where
  created runtime := by
    simp only [List.mem_append, List.mem_cons, hs.created, Event.created.injEq,
      or_iff_left (created_not_mem_stopActive s runtime)]
    omega
  shutdown runtime := by
    have hcount : (s.events ++ .created s.runtimes :: s.stopActive).count (.shutdown runtime) =
        (s.events ++ s.stopActive).count (.shutdown runtime) := by
      simp [List.count_append]
    simp only [hcount, count_disable hs, State.place, Option.map_some, ne_eq, Option.some_inj]
    by_cases hlt : runtime < s.runtimes
    · rw [if_pos hlt, if_pos ⟨Nat.lt_succ_of_lt hlt, by omega⟩]
    · rw [if_neg hlt, if_neg (by omega)]
  place runtime h := by
    cases h
    exact Nat.lt_succ_self _
  late := by simp [hlate]
  pending _ h := by cases h
  returned h := by
    apply hs.returned
    simpa [returned_not_mem_stopActive] using h
  closing := hs.closing

/-! ## One step -/

/-- A reload does one of three things. -/
theorem applyPolicy_cases (s : State) (policy : Option RuntimeAgentPolicy) (creates : Bool) :
    s.creates policy creates = false ∧
        (s.applyPolicy policy creates = s ∨ s.applyPolicy policy creates = s.disable) ∨
      s.creates policy creates = true ∧ ∃ revision,
        s.applyPolicy policy creates =
          { s with
            active := some ⟨revision, s.runtimes⟩
            runtimes := s.runtimes + 1
            events := s.events ++ .created s.runtimes :: s.stopActive
            late := s.late || s.stopped } := by
  cases policy with
  | none => exact Or.inl ⟨rfl, Or.inr rfl⟩
  | some policy =>
      simp only [State.applyPolicy, State.creates]
      cases hcapture : policy.captureEnabled with
      | false => exact Or.inl ⟨rfl, Or.inr rfl⟩
      | true =>
          by_cases hsame : s.active.map Active.revision = some policy.revision
          · simp [hsame]
          · cases creates with
            | false => simp [hsame]
            | true => simp [hsame]

theorem Consistent.step {a : Action} (hs : Consistent s) (hstep : s.step interval a = some t) :
    Consistent t := by
  cases a with
  | capture event now later =>
      cases hstep
      rw [State.capture]
      split_ifs with hstopped hreload hdue
      · exact hs
      · exact hs.congr rfl rfl (List.append_nil _).symm (by simp) (by simp) rfl rfl
          (fun _ h => h) (by simp) hs.closing
      · exact hs.congr rfl rfl (List.append_nil _).symm (by simp) (by simp) rfl rfl
          (fun _ h => h) (by simp) hs.closing
      · exact hs.congr rfl rfl (List.append_nil _).symm (by simp) (by simp) rfl rfl
          (fun h => absurd h hstopped) (by simp) hs.closing
  | loaded policy creates =>
      rw [State.step] at hstep
      split at hstep
      case isFalse => cases hstep
      case isTrue hreload =>
          cases hstep
          rcases applyPolicy_cases s policy creates with ⟨-, hkept | hdisabled⟩ | ⟨-, revision, hnew⟩
          · rw [hkept]
            exact hs.congr rfl rfl (List.append_nil _).symm (by simp) (by simp) rfl rfl
              (fun _ h => by cases h) (by simp) hs.closing
          · rw [hdisabled]
            exact hs.disable rfl rfl rfl (hs.not_late hreload) id hs.closing
          · rw [hnew]
            exact hs.install (hs.not_late hreload) revision
  | reloaded =>
      rw [State.step] at hstep
      split at hstep
      case isFalse => cases hstep
      case isTrue =>
          cases hstep
          exact hs.congr rfl rfl (List.append_nil _).symm (by simp) (by simp) rfl rfl
            (fun _ h => by cases h) (by simp) hs.closing
  | resume index =>
      rw [State.step] at hstep
      split at hstep
      case h_1 => cases hstep
      case h_2 capture _ =>
          split at hstep
          case isTrue => cases hstep
          case isFalse =>
              cases hstep
              exact hs.congr rfl rfl rfl (by simp [State.captureActive])
                (by simp [State.captureActive]) rfl rfl (fun _ h => h)
                (by simp [State.captureActive]) hs.closing
  | forceFlush =>
      rw [State.step] at hstep
      split at hstep
      case isTrue =>
          cases hstep
          exact hs
      case isFalse =>
          cases hstep
          exact hs.congr rfl rfl rfl (by simp) (by simp) rfl rfl (fun _ h => h) (by simp)
            hs.closing
  | shutdown =>
      rw [State.step] at hstep
      split at hstep
      case isTrue hstopped =>
          cases hstep
          exact hs.congr rfl rfl rfl (by simp) (by simp) rfl rfl (fun _ h => h)
            (fun _ => hstopped) hs.closing
      case isFalse hstopped =>
          cases hstep
          have hlate : s.late = false := by
            rw [← Bool.not_eq_true, hs.late]
            exact fun h => hstopped h.1
          exact hs.disable rfl rfl rfl hlate (fun _ => rfl) fun _ => rfl
  | shutdownReturns =>
      rw [State.step] at hstep
      split at hstep
      case isFalse => cases hstep
      case isTrue hclosing =>
          cases hstep
          exact hs.congr rfl rfl rfl (by simp) (by simp) rfl rfl (fun _ h => h)
            (fun _ => hs.closing hclosing) (fun h => by cases h)

/-! ## The property -/

/-- Given the invariant, the property is what holds after a return. -/
theorem Consistent.leavesNothing (hs : Consistent s)
    (hinactive : .returned ∈ s.events → s.active = none) (hquiet : QuietAfterReturn s.events) :
    LeavesNothing s where
  single := by
    have hplace : ∀ runtime, s.IsRunning runtime → s.place = some runtime := by
      intro runtime hrunning
      have hlt := (hs.created runtime).mp hrunning.1
      have hcount := hs.shutdown runtime
      rw [List.count_eq_zero.mpr hrunning.2] at hcount
      by_contra hne
      rw [if_pos ⟨hlt, hne⟩] at hcount
      cases hcount
    intro first second hfirst hsecond
    have heq := (hplace first hfirst).symm.trans (hplace second hsecond)
    exact Option.some.inj heq
  once := by
    intro runtime hcreated hne
    rw [hs.shutdown, if_pos ⟨(hs.created runtime).mp hcreated, hne⟩]
  inactive := hinactive
  quiet := hquiet

/-- Events that are no activity, with nothing new in place, keep the property. -/
theorem LeavesNothing.congr (hs : LeavesNothing s) (ht : Consistent t) {more : List Event}
    (hactive : s.active = none → t.active = none) (hevents : t.events = s.events ++ more)
    (hreturned : .returned ∉ more) (hmore : ∀ event ∈ more, event.isActivity = false) :
    LeavesNothing t := by
  apply ht.leavesNothing
  · rw [hevents, List.mem_append, or_iff_left hreturned]
    exact fun h => hactive (hs.inactive h)
  · rw [hevents]
    exact hs.quiet.append hmore

/-- A call of `shutdown` returns rightly exactly when no runtime was created late. -/
theorem leavesNothing_return (hs : Consistent s) (hs' : LeavesNothing s) (ht : Consistent t)
    (hstopped : s.stopped = true) (hactive : t.active = s.active)
    (hevents : t.events = s.events ++ [.returned]) : LeavesNothing t ↔ s.late = false := by
  have hlate : s.late = false ↔ s.active = none := by
    rw [← Bool.not_eq_true, hs.late]
    simp [hstopped]
  constructor
  · intro h
    rw [hlate, ← hactive]
    apply h.inactive
    rw [hevents]
    exact List.mem_append_right _ List.mem_cons_self
  · intro h
    apply ht.leavesNothing
    · intro _
      rw [hactive]
      exact hlate.mp h
    · rw [hevents]
      apply hs'.quiet.append
      intro event hevent
      rw [List.mem_singleton.mp hevent]
      rfl

theorem leavesNothing_step {a : Action} (hs : Consistent s) (hs' : LeavesNothing s)
    (hstep : s.step interval a = some t) : LeavesNothing t ↔ s.outlives a = false := by
  have ht := hs.step hstep
  cases a with
  | capture event now later =>
      apply iff_of_true _ rfl
      cases hstep
      revert ht
      rw [State.capture]
      split_ifs with hstopped hreload hdue
      · exact fun _ => hs'
      all_goals
        intro ht
        exact hs'.congr ht id (List.append_nil _).symm (by simp) (by simp)
  | loaded policy creates =>
      rw [State.step] at hstep
      split at hstep
      case isFalse => cases hstep
      case isTrue hreload =>
          cases hstep
          rcases applyPolicy_cases s policy creates with
            ⟨hcreates, hkept | hdisabled⟩ | ⟨hcreates, revision, hnew⟩
          · apply iff_of_true _ (by simp [State.outlives, hcreates])
            rw [hkept] at ht ⊢
            exact hs'.congr ht id (List.append_nil _).symm (by simp) (by simp)
          · apply iff_of_true _ (by simp [State.outlives, hcreates])
            rw [hdisabled] at ht ⊢
            exact hs'.congr ht (fun _ => rfl) rfl (returned_not_mem_stopActive s)
              stopActive_isActivity
          · simp only [State.outlives, hcreates, Bool.and_true]
            rw [hnew] at ht ⊢
            rw [← Bool.not_eq_true, List.contains_iff_mem]
            have hmem : .returned ∈ s.events ++ .created s.runtimes :: s.stopActive ↔
                .returned ∈ s.events := by
              simp [returned_not_mem_stopActive]
            constructor
            · intro h hreturned
              have hnone := h.inactive (hmem.mpr hreturned)
              cases hnone
            · intro hreturned
              apply ht.leavesNothing
              · intro h
                exact absurd (hmem.mp h) hreturned
              · exact quietAfterReturn_of_not_mem fun h => hreturned (hmem.mp h)
  | reloaded =>
      apply iff_of_true _ rfl
      rw [State.step] at hstep
      split at hstep
      case isFalse => cases hstep
      case isTrue =>
          cases hstep
          exact hs'.congr ht id (List.append_nil _).symm (by simp) (by simp)
  | resume index =>
      apply iff_of_true _ rfl
      rw [State.step] at hstep
      split at hstep
      case h_1 => cases hstep
      case h_2 capture _ =>
          split at hstep
          case isTrue => cases hstep
          case isFalse =>
              cases hstep
              have hmem : .returned ∈ s.events ++ s.captureActive capture.event →
                  .returned ∈ s.events := by
                simp [State.captureActive]
              apply ht.leavesNothing
              · exact fun h => hs'.inactive (hmem h)
              · by_cases hreturned : .returned ∈ s.events
                · have hnone : s.captureActive capture.event = [] := by
                    rw [State.captureActive, hs'.inactive hreturned]
                    rfl
                  rw [hnone, List.append_nil]
                  exact hs'.quiet
                · exact quietAfterReturn_of_not_mem fun h => hreturned (hmem h)
  | forceFlush =>
      apply iff_of_true _ rfl
      rw [State.step] at hstep
      split at hstep
      case isTrue =>
          cases hstep
          exact hs'
      case isFalse =>
          cases hstep
          apply hs'.congr ht id rfl (by simp)
          intro event hevent
          obtain ⟨active, -, rfl⟩ := List.mem_map.mp hevent
          rfl
  | shutdown =>
      rw [State.step] at hstep
      split at hstep
      case isTrue hstopped =>
          cases hstep
          rw [leavesNothing_return hs hs' ht hstopped rfl rfl]
          simp [State.outlives, hstopped]
      case isFalse hstopped =>
          cases hstep
          apply iff_of_true _ (by simp [State.outlives, hstopped])
          exact hs'.congr ht (fun _ => rfl) rfl (returned_not_mem_stopActive s)
            stopActive_isActivity
  | shutdownReturns =>
      rw [State.step] at hstep
      split at hstep
      case isFalse => cases hstep
      case isTrue hclosing =>
          cases hstep
          exact leavesNothing_return hs hs' ht (hs.closing hclosing) rfl rfl

/-- **Nothing is left behind**, throughout a run, exactly when no reload creates a runtime after
`shutdown` has returned, or has created one late when it returns. -/
theorem leavesNothing_iff (interval : ℤ) {t : State} {actions : List Action}
    (hrun : (machine interval).exec initial actions = some t) :
    (machine interval).Always LeavesNothing initial actions ↔
      (machine interval).Meets (fun s a => s.outlives a = false) initial actions := by
  apply (machine interval).always_iff_meets (J := Consistent) _ _ consistent_initial _ hrun
  · intro s a t hs hstep
    exact hs.step hstep
  · intro s a t hs hs' hstep
    exact leavesNothing_step hs hs' hstep
  · apply consistent_initial.leavesNothing
    · intro h
      cases h
    · exact quietAfterReturn_of_not_mem (by simp [initial])

/-- A policy is loaded, an event captured, and the manager shut down while the next load is on its
way; that one fails. -/
def failsLate : List Action :=
  [.capture "first" 0 0, .loaded (some ⟨1, true⟩) true, .reloaded, .resume 0,
    .capture "second" 5000 5000, .shutdown, .loaded none true, .reloaded, .resume 0,
    .shutdownReturns, .shutdown]

theorem leavesNothing_iff_failsLate :
    (machine 5000).Always LeavesNothing initial failsLate ∧
      ∃ t, (machine 5000).exec initial failsLate = some t ∧
        t.events = [.created 0, .captured 0 "first", .shutdown 0, .returned, .returned] := by
  have hmeets : (machine 5000).Meets (fun s a => s.outlives a = false) initial failsLate := by
    decide +kernel
  exact ⟨(leavesNothing_iff 5000 rfl).mpr hmeets, _, rfl, rfl⟩

/-- The load answers after the manager has been shut down. -/
def answersLate : List Action :=
  [.capture "first" 0 0, .shutdown, .shutdownReturns, .loaded (some ⟨1, true⟩) true, .reloaded,
    .resume 0]

/-- A runtime is created for good, and captures the event that waited. -/
theorem runtime_left_behind :
    ¬(machine 5000).Always LeavesNothing initial answersLate ∧
      ∃ t, (machine 5000).exec initial answersLate = some t ∧
        t.active = some ⟨1, 0⟩ ∧ t.events = [.returned, .created 0, .captured 0 "first"] := by
  have hrun : ∃ t, (machine 5000).exec initial answersLate = some t ∧
      t.active = some ⟨1, 0⟩ ∧ t.events = [.returned, .created 0, .captured 0 "first"] :=
    ⟨_, rfl, rfl, rfl⟩
  refine ⟨?_, hrun⟩
  intro halways
  obtain ⟨t, hexec, hactive, hevents⟩ := hrun
  have hnone := (halways.of_exec hexec).inactive (by rw [hevents]; exact List.mem_cons_self)
  rw [hactive] at hnone
  cases hnone

end Eveland.PolicyRuntime
