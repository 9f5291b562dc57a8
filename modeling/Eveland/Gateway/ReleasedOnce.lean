/-
# A lease is released exactly once

Each stage of the handler, and the stream that takes over from it, either holds the lease, has
released it, or has none. The lease is lost where a step throws that no error path covers: the look
at an opaque failure, and the decoration of the response.
-/

import Eveland.Gateway.ActivationLease

namespace Eveland.ActivationLease

/-! ## Orderly events -/

/-- The body has ended before a release, and nothing but the end of the body comes after it. -/
def Orderly (events : List Event) : Prop :=
  ∀ before leaseId after, events = before ++ .release leaseId :: after →
    (.bodyOpened ∈ before → .bodyEnded ∈ before) ∧ ∀ event ∈ after, event = .bodyEnded

/-- An event at the end is the release, or comes after it. -/
theorem eq_append_cons_of_concat {events before after : List Event} {last event : Event}
    (hsplit : events ++ [last] = before ++ event :: after) :
    after = [] ∧ last = event ∧ events = before ∨
      ∃ rest, after = rest ++ [last] ∧ events = before ++ event :: rest := by
  rcases List.eq_nil_or_concat after with rfl | ⟨rest, other, rfl⟩
  · left
    obtain ⟨hbefore, hlast⟩ := List.append_inj' hsplit rfl
    exact ⟨rfl, List.singleton_inj.mp hlast, hbefore⟩
  · right
    rw [List.concat_eq_append, ← List.cons_append, ← List.append_assoc] at hsplit
    obtain ⟨hbefore, hlast⟩ := List.append_inj' hsplit rfl
    obtain rfl := List.singleton_inj.mp hlast
    exact ⟨rest, List.concat_eq_append, hbefore⟩

/-- Before the release everything may happen. -/
theorem Orderly.append {events : List Event} {event : Event}
    (hnone : ∀ leaseId, .release leaseId ∉ events) (hevent : ∀ leaseId, event ≠ .release leaseId) :
    Orderly (events ++ [event]) := by
  intro before leaseId after hsplit
  have hmem : Event.release leaseId ∈ events ++ [event] := by
    rw [hsplit]
    exact List.mem_append_right _ List.mem_cons_self
  rcases List.mem_append.mp hmem with hold | hnew
  · exact absurd hold (hnone leaseId)
  · exact absurd (List.mem_singleton.mp hnew).symm (hevent leaseId)

/-- The release comes after the end of the body. -/
theorem Orderly.release {events : List Event} (hnone : ∀ leaseId, .release leaseId ∉ events)
    (hended : .bodyOpened ∈ events → .bodyEnded ∈ events) (leaseId : String) :
    Orderly (events ++ [.release leaseId]) := by
  intro before other after hsplit
  rcases eq_append_cons_of_concat hsplit with ⟨rfl, -, rfl⟩ | ⟨rest, rfl, hevents⟩
  · exact ⟨hended, fun event hevent => absurd hevent List.not_mem_nil⟩
  · refine absurd ?_ (hnone other)
    rw [hevents]
    exact List.mem_append_right _ List.mem_cons_self

/-- The end of the body may come at any time. -/
theorem Orderly.bodyEnded {events : List Event} (horderly : Orderly events) :
    Orderly (events ++ [.bodyEnded]) := by
  intro before leaseId after hsplit
  rcases eq_append_cons_of_concat hsplit with ⟨-, hlast, -⟩ | ⟨rest, rfl, hevents⟩
  · cases hlast
  · obtain ⟨hended, hrest⟩ := horderly before leaseId rest hevents
    refine ⟨hended, ?_⟩
    intro event hevent
    rcases List.mem_append.mp hevent with hold | hnew
    · exact hrest event hold
    · exact List.mem_singleton.mp hnew

theorem orderly_nil : Orderly [] := by
  intro before leaseId after hsplit
  cases before <;> cases hsplit

/-! ## Who holds the lease -/

namespace Stage

/-- There is no lease yet. -/
def isEarly : Stage → Bool
  | .resolveTarget | .gateVersion | .bindOperation | .resolveClaimed | .gateClaimed
  | .activate => true
  | _ => false

/-- The handler, or the stream, still has to release the lease. -/
def holds : Stage → Bool
  | .proxy | .observe _ | .applySession _ _ | .cancelUpstream _ | .respond _ _ => true
  | .streaming managed => !managed.finalized
  | stage => stage.isEarly

/-- The lease has been released. -/
def hasReleased : Stage → Bool
  | .releaseFailed _ | .releaseUnbound => true
  | .streaming managed => managed.finalized
  | _ => false

/-- There is no body. -/
def isBodiless : Stage → Bool
  | .proxy => true
  | .observe upstream | .applySession upstream _ | .cancelUpstream upstream
  | .respond upstream _ => !upstream.hasBody
  | stage => stage.isEarly

end Stage

/-- The stream releases its lease when the body has ended, and stops its timer with that. -/
structure Managed.Holds (managed : Managed) (s : State) : Prop where
  lease : s.lease = some managed.leaseId
  timer : managed.renewTimer = true → managed.finalized = false
  pulled : managed.pull = .closing ∨ managed.pull = .failing → managed.finalized = true
  closed : managed.stream = .closed ∨ managed.stream = .errored → managed.finalized = true
  cancelled : managed.cancel = .finalizing ∨ managed.cancel = .done → managed.finalized = true
  ended : managed.finalized = true ∨ managed.stream ≠ .readable ∨ managed.cancel ≠ .idle →
    .bodyEnded ∈ s.events

/-- The events are in order, and the stage says who holds the lease. -/
structure Consistent (s : State) : Prop where
  orderly : Orderly s.events
  acquired : ∀ leaseId, .acquired leaseId ∈ s.events ↔ s.lease = some leaseId
  early : s.stage.isEarly = true → s.lease = none
  held : s.stage.holds = true → ∀ leaseId, .release leaseId ∉ s.events
  given : s.stage.hasReleased = true → ∀ leaseId, s.lease = some leaseId →
    .release leaseId ∈ s.events
  bodiless : s.stage.isBodiless = true → .bodyOpened ∉ s.events
  stream : ∀ managed, s.stage = .streaming managed → managed.Holds s

/-- A handler that is over has released its lease. -/
def Settled (s : State) : Prop :=
  ∀ ending, s.stage = .over ending → ∀ leaseId, s.lease = some leaseId →
    .release leaseId ∈ s.events

/-- What is released is settled, and the other way round. -/
theorem Consistent.releasedOnce {s : State} (hs : Consistent s) :
    ReleasedOnce s ↔ Settled s := by
  constructor
  · intro hreleased ending hstage leaseId hlease
    apply hreleased.released
    · rw [hstage]
      rfl
    · exact (hs.acquired leaseId).mpr hlease
  · intro hsettled
    refine ⟨?_, ?_, ?_, ?_⟩
    · intro hover leaseId hacquired
      have hlease := (hs.acquired leaseId).mp hacquired
      cases hstage : s.stage with
      | «over» ending => exact hsettled ending hstage leaseId hlease
      | streaming managed =>
          have hholds := hs.stream managed hstage
          have hfinalized : managed.finalized = true := by
            rw [hstage] at hover
            cases hstream : managed.stream with
            | readable => simp [Stage.isOver, hstream] at hover
            | closed => exact hholds.closed (Or.inl hstream)
            | errored => exact hholds.closed (Or.inr hstream)
            | cancelled =>
                simp only [Stage.isOver, hstream, decide_eq_true_eq] at hover
                exact hholds.cancelled (Or.inr hover)
          apply hs.given _ leaseId hlease
          rw [hstage]
          exact hfinalized
      | _ =>
          rw [hstage] at hover
          cases hover
    · intro before leaseId after hsplit hmem
      cases (hs.orderly before leaseId after hsplit).2 _ hmem
    · intro before leaseId after hsplit
      obtain ⟨hended, hafter⟩ := hs.orderly before leaseId after hsplit
      refine ⟨?_, hended⟩
      intro hmem
      cases hafter _ hmem
    · intro before leaseId after hsplit hmem
      cases (hs.orderly before leaseId after hsplit).2 _ hmem

/-! ## Steps of the handler -/

variable {s t : State}

/-- A step that changes the stage only. -/
theorem Consistent.move (hs : Consistent s) {stage : Stage}
    (hearly : stage.isEarly = true → s.stage.isEarly = true)
    (hholds : stage.holds = true → s.stage.holds = true)
    (hreleased : stage.hasReleased = true → s.stage.hasReleased = true)
    (hbodiless : stage.isBodiless = true → s.stage.isBodiless = true)
    (hstream : ∀ managed, stage ≠ .streaming managed) : Consistent { s with stage } where
  orderly := hs.orderly
  acquired := hs.acquired
  early := fun h => hs.early (hearly h)
  held := fun h => hs.held (hholds h)
  given := fun h => hs.given (hreleased h)
  bodiless := fun h => hs.bodiless (hbodiless h)
  stream := fun managed h => absurd h (hstream managed)

theorem Consistent.endWith (hs : Consistent s) (ending : Ending) :
    Consistent (s.endWith ending) :=
  hs.move nofun nofun nofun nofun nofun

/-- From a stage without a lease to another such stage. -/
theorem Consistent.moveEarly (hs : Consistent s) (hearly : s.stage.isEarly = true)
    {stage : Stage} (hstage : stage.isEarly = true ∨ stage = .proxy) :
    Consistent { s with stage } := by
  have hholds : s.stage.holds = true := by
    revert hearly
    cases s.stage <;> simp [Stage.isEarly, Stage.holds]
  have hbodiless : s.stage.isBodiless = true := by
    revert hearly
    cases s.stage <;> simp [Stage.isEarly, Stage.isBodiless]
  apply hs.move (fun _ => hearly) (fun _ => hholds) _ (fun _ => hbodiless)
  · intro managed heq
    subst heq
    rcases hstage with h | h <;> cases h
  · intro hreleased
    rcases hstage with h | rfl
    · cases stage <;> cases h <;> cases hreleased
    · cases hreleased

theorem Consistent.afterTarget (hs : Consistent s) (hearly : s.stage.isEarly = true) :
    Consistent s.afterTarget := by
  unfold State.afterTarget
  split
  · exact hs.moveEarly hearly (Or.inl rfl)
  · exact hs.moveEarly hearly (Or.inr rfl)

/-- The lease is acquired. -/
theorem Consistent.activated (hs : Consistent s) (hstage : s.stage = .activate)
    (leaseId : String) :
    Consistent { s with
      stage := .proxy, lease := some leaseId, events := s.events ++ [.acquired leaseId] } := by
  have hnone : s.lease = none := hs.early (by rw [hstage]; rfl)
  have hheld := hs.held (by rw [hstage]; rfl)
  refine ⟨Orderly.append hheld nofun, ?_, nofun, ?_, nofun, ?_, nofun⟩
  · intro other
    have hold := hs.acquired other
    simp only [List.mem_append, List.mem_singleton, hold, hnone, Event.acquired.injEq,
      Option.some.injEq]
    constructor
    · rintro (h | h)
      · cases h
      · exact h.symm
    · intro h
      exact Or.inr h.symm
  · intro _ other hmem
    rcases List.mem_append.mp hmem with hold | hnew
    · exact hheld other hold
    · cases List.mem_singleton.mp hnew
  · intro _ hmem
    rcases List.mem_append.mp hmem with hold | hnew
    · exact hs.bodiless (by rw [hstage]; rfl) hold
    · cases List.mem_singleton.mp hnew

/-- The lease is released, by a stage that holds it, after the body has ended. -/
theorem Consistent.release (hs : Consistent s) (hholds : s.stage.holds = true)
    (hended : .bodyOpened ∈ s.events → .bodyEnded ∈ s.events) (stage : Stage)
    (hstage : stage.isEarly = false) (hnew : stage.holds = false)
    (hbodiless : stage.isBodiless = false) (hstream : ∀ managed, stage ≠ .streaming managed) :
    Consistent { s.release with stage } := by
  have hheld := hs.held hholds
  have hlease : s.release.lease = s.lease := by
    unfold State.release
    split <;> rfl
  have hacquired : ∀ leaseId, .acquired leaseId ∈ s.release.events ↔ s.lease = some leaseId := by
    intro leaseId
    rw [← hs.acquired leaseId]
    unfold State.release
    split <;> simp
  have horderly : Orderly s.release.events := by
    unfold State.release
    split
    · exact hs.orderly
    · exact Orderly.release hheld hended _
  refine ⟨horderly, ?_, ?_, ?_, ?_, ?_, ?_⟩
  · rw [hlease]
    exact hacquired
  · intro h
    exact absurd h (by simp [hstage])
  · intro h
    exact absurd h (by simp [hnew])
  · intro _ leaseId hsome
    have hsome' : s.lease = some leaseId := hlease ▸ hsome
    simp [State.release, hsome']
  · intro h
    exact absurd h (by simp [hbodiless])
  · intro managed h
    exact absurd h (hstream managed)

/-- The body of the upstream is opened, if it has one. -/
theorem Consistent.proxied (hs : Consistent s) (hstage : s.stage = .proxy) (upstream : Upstream) :
    Consistent { s with
      stage := .observe upstream
      events := if upstream.hasBody then s.events ++ [.bodyOpened] else s.events } := by
  have hheld := hs.held (by rw [hstage]; rfl)
  have hbodiless := hs.bodiless (by rw [hstage]; rfl)
  cases hbody : upstream.hasBody with
  | false =>
      refine ⟨hs.orderly, hs.acquired, nofun, fun _ => hheld, nofun, fun _ => hbodiless, nofun⟩
  | true =>
      refine ⟨Orderly.append hheld nofun, ?_, nofun, ?_, nofun, ?_, nofun⟩
      · intro leaseId
        have hold := hs.acquired leaseId
        simpa using hold
      · intro _ leaseId hmem
        rcases List.mem_append.mp hmem with hold | hnew
        · exact hheld leaseId hold
        · cases List.mem_singleton.mp hnew
      · intro h
        simp [Stage.isBodiless, hbody] at h

/-- The body comes to its end. -/
theorem Consistent.endBody (hs : Consistent s) (hasBody : Bool) :
    Consistent (s.endBody hasBody) := by
  unfold State.endBody
  split
  · refine ⟨hs.orderly.bodyEnded, ?_, hs.early, ?_, ?_, ?_, ?_⟩
    · intro leaseId
      have hold := hs.acquired leaseId
      simpa using hold
    · intro h leaseId
      have hold := hs.held h leaseId
      simpa using hold
    · intro h leaseId hlease
      exact List.mem_append_left _ (hs.given h leaseId hlease)
    · intro h
      have hold := hs.bodiless h
      simpa using hold
    · intro managed h
      have hholds := hs.stream managed h
      refine ⟨hholds.lease, hholds.timer, hholds.pulled, hholds.closed, hholds.cancelled, ?_⟩
      intro hended
      exact List.mem_append_left _ (hholds.ended hended)
  · exact hs

/-- The response is returned, and holds the lease if it has a body. -/
theorem Consistent.manageActivationResponse (hs : Consistent s) {upstream : Upstream}
    {opaqueFailure : Bool} (hstage : s.stage = .respond upstream opaqueFailure) {leaseId : String}
    (hlease : s.lease = some leaseId) :
    Consistent (s.manageActivationResponse leaseId upstream) ∧
      Settled (s.manageActivationResponse leaseId upstream) := by
  have hheld := hs.held (by rw [hstage]; rfl)
  unfold State.manageActivationResponse
  cases hbody : upstream.hasBody with
  | true =>
      refine ⟨⟨hs.orderly, hs.acquired, nofun, fun _ => hheld, nofun, nofun, ?_⟩, nofun⟩
      intro managed h
      obtain rfl := Stage.streaming.inj h
      exact ⟨hlease, fun _ => rfl, by simp, by simp, by simp, by simp⟩
  | false =>
      have hbodiless := hs.bodiless (by rw [hstage]; simp [Stage.isBodiless, hbody])
      have horderly := Orderly.release hheld (fun h => absurd h hbodiless) leaseId
      refine ⟨⟨horderly, ?_, nofun, nofun, nofun, nofun, nofun⟩, ?_⟩
      · intro other
        have hold := hs.acquired other
        simpa using hold
      · intro _ _ other hother
        have heq : other = leaseId := Option.some.inj (hother.symm.trans hlease)
        rw [heq]
        exact List.mem_append_right _ (List.mem_singleton.mpr rfl)

/-! ## Steps of the stream -/

variable {managed : Managed}

/-- A step of the stream that neither finalizes it nor does anything to the lease. -/
theorem Consistent.moveStream (hs : Consistent s) (hstage : s.stage = .streaming managed)
    (other : Managed) (hfinalized : other.finalized = managed.finalized) (hholds : other.Holds s) :
    Consistent { s with stage := .streaming other } := by
  refine ⟨hs.orderly, hs.acquired, nofun, ?_, ?_, nofun, ?_⟩
  · intro h
    apply hs.held
    rw [hstage]
    simpa [Stage.holds, hfinalized] using h
  · intro h
    apply hs.given
    rw [hstage]
    simpa [Stage.hasReleased, hfinalized] using h
  · intro next h
    obtain rfl := Stage.streaming.inj h
    exact ⟨hholds.lease, hholds.timer, hholds.pulled, hholds.closed, hholds.cancelled,
      hholds.ended⟩

/-- `finalize`, once the body has ended. -/
theorem Consistent.finalize (hs : Consistent s) (hstage : s.stage = .streaming managed)
    (hended : .bodyEnded ∈ s.events) (pull : Pull) (cancel : Cancel) :
    Consistent { (s.finalize managed).1 with
      stage := .streaming { (s.finalize managed).2 with pull, cancel } } := by
  have hholds := hs.stream managed hstage
  unfold State.finalize
  by_cases hfinalized : managed.finalized = true
  · rw [if_pos hfinalized]
    refine hs.moveStream hstage { managed with pull, cancel } rfl ?_
    exact ⟨hholds.lease, hholds.timer, fun _ => hfinalized, fun _ => hfinalized,
      fun _ => hfinalized, fun _ => hended⟩
  · rw [if_neg hfinalized]
    have hheld := hs.held (by rw [hstage]; simpa [Stage.holds] using hfinalized)
    refine ⟨Orderly.release hheld (fun _ => hended) _, ?_, nofun, ?_, ?_, nofun, ?_⟩
    · intro leaseId
      have hold := hs.acquired leaseId
      simpa using hold
    · intro h
      cases h
    · intro _ leaseId hlease
      have heq : leaseId = managed.leaseId := Option.some.inj (hlease.symm.trans hholds.lease)
      rw [heq]
      exact List.mem_append_right _ (List.mem_singleton.mpr rfl)
    · intro next h
      obtain rfl := Stage.streaming.inj h
      exact ⟨hholds.lease, nofun, fun _ => rfl, fun _ => rfl, fun _ => rfl,
        fun _ => List.mem_append_left _ hended⟩

theorem Consistent.finalizePull (hs : Consistent s) (hstage : s.stage = .streaming managed)
    (hended : .bodyEnded ∈ s.events) (pull : Pull) : Consistent (s.finalizePull managed pull) :=
  hs.finalize hstage hended pull (s.finalize managed).2.cancel

theorem bodyEnded_mem_endBody (s : State) : .bodyEnded ∈ (s.endBody true).events :=
  List.mem_append_right _ (List.mem_singleton.mpr rfl)

/-- The timer fires only as long as the stream holds the lease. -/
theorem Consistent.renew (hs : Consistent s) (hstage : s.stage = .streaming managed)
    (htimer : managed.renewTimer = true) :
    Consistent { s with events := s.events ++ [.renew managed.leaseId] } := by
  have hholds := hs.stream managed hstage
  have hheld := hs.held (by rw [hstage]; simp [Stage.holds, hholds.timer htimer])
  refine ⟨Orderly.append hheld nofun, ?_, hs.early, ?_, ?_, ?_, ?_⟩
  · intro leaseId
    have hold := hs.acquired leaseId
    simpa using hold
  · intro h leaseId
    have hold := hs.held h leaseId
    simpa using hold
  · intro h leaseId hlease
    exact List.mem_append_left _ (hs.given h leaseId hlease)
  · intro h
    have hold := hs.bodiless h
    simpa using hold
  · intro next h
    have hnext := hs.stream next h
    refine ⟨hnext.lease, hnext.timer, hnext.pulled, hnext.closed, hnext.cancelled, ?_⟩
    intro hended
    exact List.mem_append_left _ (hnext.ended hended)

/-- One action on the stream. -/
theorem Consistent.stepStream (hs : Consistent s) (hstage : s.stage = .streaming managed)
    {a : Action} (hstep : s.stepStream managed a = some t) :
    Consistent t ∧ ∃ other, t.stage = .streaming other := by
  have hholds := hs.stream managed hstage
  cases a with
  | pull =>
      obtain ⟨⟨hreadable, hidle⟩, ht⟩ := Option.ite_none_right_eq_some.mp hstep
      obtain rfl := Option.some.inj ht
      refine ⟨hs.moveStream hstage { managed with pull := .reading } rfl ?_, _, rfl⟩
      exact ⟨hholds.lease, hholds.timer, by simp, hholds.closed, hholds.cancelled, hholds.ended⟩
  | readChunk =>
      obtain ⟨hreading, ht⟩ := Option.ite_none_right_eq_some.mp hstep
      by_cases hreadable : managed.stream = .readable
      · rw [if_pos hreadable] at ht
        obtain rfl := Option.some.inj ht
        refine ⟨hs.moveStream hstage { managed with pull := .idle } rfl ?_, _, rfl⟩
        exact ⟨hholds.lease, hholds.timer, by simp, hholds.closed, hholds.cancelled, hholds.ended⟩
      · rw [if_neg hreadable] at ht
        obtain rfl := Option.some.inj ht
        have hended := hholds.ended (Or.inr (Or.inl hreadable))
        exact ⟨hs.finalizePull hstage hended _, _, rfl⟩
  | readDone =>
      obtain ⟨hreading, ht⟩ := Option.ite_none_right_eq_some.mp hstep
      obtain rfl := Option.some.inj ht
      exact ⟨(hs.endBody true).finalizePull hstage (bodyEnded_mem_endBody s) _, _, rfl⟩
  | readFailed =>
      obtain ⟨hreading, ht⟩ := Option.ite_none_right_eq_some.mp hstep
      obtain rfl := Option.some.inj ht
      exact ⟨(hs.endBody true).finalizePull hstage (bodyEnded_mem_endBody s) _, _, rfl⟩
  | pullSettled =>
      simp only [State.stepStream] at hstep
      split at hstep
      · next hclosing =>
          have hfinalized := hholds.pulled (Or.inl hclosing)
          split at hstep
          · obtain rfl := Option.some.inj hstep
            refine ⟨hs.moveStream hstage
              { managed with pull := .idle, stream := .closed } rfl ?_, _, rfl⟩
            exact ⟨hholds.lease, hholds.timer, fun _ => hfinalized, fun _ => hfinalized,
              hholds.cancelled, fun _ => hholds.ended (Or.inl hfinalized)⟩
          · obtain rfl := Option.some.inj hstep
            exact ⟨hs.finalizePull hstage (hholds.ended (Or.inl hfinalized)) _, _, rfl⟩
      · next hfailing =>
          have hfinalized := hholds.pulled (Or.inr hfailing)
          split at hstep
          · obtain rfl := Option.some.inj hstep
            refine ⟨hs.moveStream hstage
              { managed with pull := .idle, stream := .errored } rfl ?_, _, rfl⟩
            exact ⟨hholds.lease, hholds.timer, fun _ => hfinalized, fun _ => hfinalized,
              hholds.cancelled, fun _ => hholds.ended (Or.inl hfinalized)⟩
          · obtain rfl := Option.some.inj hstep
            refine ⟨hs.moveStream hstage { managed with pull := .idle } rfl ?_, _, rfl⟩
            exact ⟨hholds.lease, hholds.timer, fun _ => hfinalized, hholds.closed,
              hholds.cancelled, hholds.ended⟩
      · cases hstep
  | cancel =>
      obtain ⟨hreadable, ht⟩ := Option.ite_none_right_eq_some.mp hstep
      obtain rfl := Option.some.inj ht
      have hbody := hs.endBody true
      have hholds' := hbody.stream managed hstage
      refine ⟨hbody.moveStream hstage
        { managed with stream := .cancelled, cancel := .cancelling } rfl ?_, _, rfl⟩
      exact ⟨hholds'.lease, hholds'.timer, hholds'.pulled, by simp, by simp,
        fun _ => bodyEnded_mem_endBody s⟩
  | cancelSettled =>
      simp only [State.stepStream] at hstep
      split at hstep
      · next hcancelling =>
          obtain rfl := Option.some.inj hstep
          have hended := hholds.ended (Or.inr (Or.inr (by simp [hcancelling])))
          exact ⟨hs.finalize hstage hended (s.finalize managed).2.pull .finalizing, _, rfl⟩
      · next hfinalizing =>
          obtain rfl := Option.some.inj hstep
          have hfinalized := hholds.cancelled (Or.inl hfinalizing)
          refine ⟨hs.moveStream hstage { managed with cancel := .done } rfl ?_, _, rfl⟩
          exact ⟨hholds.lease, hholds.timer, hholds.pulled, hholds.closed, fun _ => hfinalized,
            fun _ => hholds.ended (Or.inl hfinalized)⟩
      · cases hstep
  | renewTimer =>
      obtain ⟨htimer, ht⟩ := Option.ite_none_right_eq_some.mp hstep
      obtain rfl := Option.some.inj ht
      exact ⟨hs.renew hstage htimer, managed, hstage⟩
  | _ => cases hstep

/-! ## Runs -/

/-- The condition on a step, that fails where a step throws that no error path covers. The look at
an opaque failure throws if the body of the upstream fails or reads `null`. -/
def losesLease (parse : String → Option Json) (s : State) (a : Action) : Bool :=
  s.lease.isSome &&
    match s.stage, a with
    | .observe upstream, .observed reading =>
        match observeOpaqueSessionCreateFailure parse s.input upstream reading with
        | .error () => true
        | .ok _ => false
    | .respond _ _, .decorated throws => throws
    | _, _ => false

theorem settled_of_stage (hstage : ∀ ending, s.stage ≠ .over ending) : Settled s :=
  fun ending h => absurd h (hstage ending)

theorem settled_of_none (hlease : s.lease = none) : Settled s := by
  intro ending _ leaseId h
  rw [hlease] at h
  cases h

/-- A handler that ends while it holds the lease has settled it only if there is none. -/
theorem Consistent.settled_endWith_iff (hs : Consistent s) (hholds : s.stage.holds = true)
    {ending : Ending} : Settled (s.endWith ending) ↔ s.lease = none := by
  constructor
  · intro hsettled
    apply Option.eq_none_iff_forall_ne_some.mpr
    intro leaseId hlease
    exact hs.held hholds leaseId (hsettled ending rfl leaseId hlease)
  · exact fun hnone => settled_of_none (s := s.endWith ending) hnone

/-- Without a lease there is nothing to settle. -/
theorem quiet_of_none {parse : String → Option Json} (a : Action) (hlease : s.lease = none)
    (hsame : t.lease = none) (ht : Consistent t) :
    Consistent t ∧ (Settled t ↔ losesLease parse s a = false) := by
  have hnot : losesLease parse s a = false := by simp [losesLease, hlease]
  exact ⟨ht, fun _ => hnot, fun _ => settled_of_none hsame⟩

@[simp]
theorem afterTarget_lease (s : State) : s.afterTarget.lease = s.lease := by
  unfold State.afterTarget
  split <;> rfl

/-- A step leaves who holds the lease to the stage, and loses it exactly where it throws. -/
theorem Consistent.step {parse : String → Option Json} (hs : Consistent s) {a : Action}
    (hstep : (machine parse).step s a = some t) :
    Consistent t ∧ (Settled t ↔ losesLease parse s a = false) := by
  have hquiet : Consistent t → Settled t → losesLease parse s a = false →
      Consistent t ∧ (Settled t ↔ losesLease parse s a = false) :=
    fun ht hsettled hnot => ⟨ht, fun _ => hnot, fun _ => hsettled⟩
  have hearly : s.stage.isEarly = true → ∀ ending, Consistent (s.endWith ending) ∧
      (Settled (s.endWith ending) ↔ losesLease parse s a = false) := by
    intro h ending
    exact quiet_of_none a (hs.early h) (hs.early h) (hs.endWith ending)
  have htarget : s.stage.isEarly = true → Consistent s.afterTarget ∧
      (Settled s.afterTarget ↔ losesLease parse s a = false) := by
    intro h
    exact quiet_of_none a (hs.early h) ((afterTarget_lease s).trans (hs.early h))
      (hs.afterTarget h)
  have hmove : s.stage.isEarly = true → ∀ stage : Stage, stage.isEarly = true →
      Consistent { s with stage } ∧
        (Settled { s with stage } ↔ losesLease parse s a = false) := by
    intro h stage hstage
    exact quiet_of_none a (hs.early h) (hs.early h) (hs.moveEarly h (Or.inl hstage))
  simp only [machine, ActivationLease.step] at hstep
  split at hstep
  · next found hstage =>
      have h : s.stage.isEarly = true := by rw [hstage]; rfl
      split at hstep
      · obtain rfl := Option.some.inj hstep
        apply hmove h
        rw [hstage]
        rfl
      · obtain rfl := Option.some.inj hstep
        exact hearly h _
  · next found hstage =>
      have h : s.stage.isEarly = true := by rw [hstage]; rfl
      split at hstep
      · obtain rfl := Option.some.inj hstep
        apply hmove h
        rw [hstage]
        rfl
      · obtain rfl := Option.some.inj hstep
        exact hearly h _
  · next supported hstage =>
      have h : s.stage.isEarly = true := by rw [hstage]; rfl
      split at hstep
      · obtain rfl := Option.some.inj hstep
        exact hearly h _
      · split at hstep
        · obtain rfl := Option.some.inj hstep
          exact hmove h _ rfl
        · obtain rfl := Option.some.inj hstep
          exact htarget h
  · next same hstage =>
      have h : s.stage.isEarly = true := by rw [hstage]; rfl
      split at hstep
      · obtain rfl := Option.some.inj hstep
        exact htarget h
      · obtain rfl := Option.some.inj hstep
        exact hmove h _ rfl
  · next supported hstage =>
      have h : s.stage.isEarly = true := by rw [hstage]; rfl
      split at hstep
      · obtain rfl := Option.some.inj hstep
        exact hearly h _
      · obtain rfl := Option.some.inj hstep
        exact htarget h
  · next hstage =>
      obtain rfl := Option.some.inj hstep
      exact hearly (by rw [hstage]; rfl) _
  · next hstage =>
      obtain rfl := Option.some.inj hstep
      exact hearly (by rw [hstage]; rfl) _
  · next hstage =>
      obtain rfl := Option.some.inj hstep
      exact hearly (by rw [hstage]; rfl) _
  · next hstage =>
      obtain rfl := Option.some.inj hstep
      exact hearly (by rw [hstage]; rfl) _
  · next hstage =>
      obtain rfl := Option.some.inj hstep
      exact hearly (by rw [hstage]; rfl) _
  · next leaseId hstage =>
      obtain rfl := Option.some.inj hstep
      exact hquiet (hs.activated hstage leaseId) (settled_of_stage nofun)
        (by simp [losesLease, hstage])
  · next aborted hstage =>
      obtain rfl := Option.some.inj hstep
      exact hearly (by rw [hstage]; rfl) _
  · next error hstage =>
      obtain rfl := Option.some.inj hstep
      have hunopened := hs.bodiless (by rw [hstage]; rfl)
      have ht := hs.release (by rw [hstage]; rfl) (fun h => absurd h hunopened)
        (.releaseFailed error) rfl rfl rfl nofun
      exact hquiet ht (settled_of_stage nofun) (by simp [losesLease, hstage])
  · next upstream hstage =>
      obtain rfl := Option.some.inj hstep
      exact hquiet (hs.proxied hstage upstream) (settled_of_stage nofun)
        (by simp [losesLease, hstage])
  · next error hstage =>
      obtain rfl := Option.some.inj hstep
      have hgiven := hs.given (by rw [hstage]; rfl)
      exact hquiet (hs.endWith _) (fun _ _ => hgiven) (by simp [losesLease, hstage])
  · next upstream reading hstage =>
      cases hobserved : observeOpaqueSessionCreateFailure parse s.input upstream reading with
      | error _ =>
          simp only [hobserved, Option.some.injEq] at hstep
          obtain rfl := hstep
          refine ⟨hs.endWith _, ?_⟩
          rw [hs.settled_endWith_iff (by rw [hstage]; rfl)]
          simp [losesLease, hstage, hobserved]
      | ok opaqueFailure =>
          simp only [hobserved, Option.some.injEq] at hstep
          obtain rfl := hstep
          have ht : Consistent { s with stage := .applySession upstream opaqueFailure } := by
            refine hs.move nofun ?_ nofun ?_ nofun
            · rw [hstage]
              exact fun h => h
            · rw [hstage]
              exact fun h => h
          exact hquiet ht (settled_of_stage nofun) (by simp [losesLease, hstage, hobserved])
  · next upstream opaqueFailure fails hstage =>
      have ht : ∀ stage : Stage, stage = .cancelUpstream upstream ∨
          stage = .respond upstream opaqueFailure →
          Consistent { s with stage } ∧ Settled { s with stage } := by
        intro stage hnext
        rcases hnext with rfl | rfl
        · refine ⟨hs.move nofun ?_ nofun ?_ nofun, settled_of_stage nofun⟩
          · rw [hstage]
            exact fun h => h
          · rw [hstage]
            exact fun h => h
        · refine ⟨hs.move nofun ?_ nofun ?_ nofun, settled_of_stage nofun⟩
          · rw [hstage]
            exact fun h => h
          · rw [hstage]
            exact fun h => h
      have hnot : losesLease parse s (.sessionApplied fails) = false := by
        simp [losesLease, hstage]
      split at hstep
      · obtain rfl := Option.some.inj hstep
        exact hquiet (ht _ (Or.inl rfl)).1 (ht _ (Or.inl rfl)).2 hnot
      · obtain rfl := Option.some.inj hstep
        exact hquiet (ht _ (Or.inr rfl)).1 (ht _ (Or.inr rfl)).2 hnot
  · next upstream hstage =>
      obtain rfl := Option.some.inj hstep
      have hbody := hs.endBody upstream.hasBody
      have hsame : (s.endBody upstream.hasBody).stage = s.stage := by
        unfold State.endBody
        split <;> rfl
      have hended : .bodyOpened ∈ (s.endBody upstream.hasBody).events →
          .bodyEnded ∈ (s.endBody upstream.hasBody).events := by
        cases hhas : upstream.hasBody with
        | true => exact fun _ => bodyEnded_mem_endBody s
        | false =>
            intro hopened
            exact absurd hopened (hs.bodiless (by rw [hstage]; simp [Stage.isBodiless, hhas]))
      have ht := hbody.release (by rw [hsame, hstage]; rfl) hended .releaseUnbound rfl rfl rfl
        nofun
      exact hquiet ht (settled_of_stage nofun) (by simp [losesLease, hstage])
  · next hstage =>
      obtain rfl := Option.some.inj hstep
      have hgiven := hs.given (by rw [hstage]; rfl)
      exact hquiet (hs.endWith _) (fun _ _ => hgiven) (by simp [losesLease, hstage])
  · next upstream opaqueFailure throws hstage =>
      cases hthrows : throws with
      | true =>
          simp only [hthrows, if_true, Option.some.injEq] at hstep
          obtain rfl := hstep
          refine ⟨hs.endWith _, ?_⟩
          rw [hs.settled_endWith_iff (by rw [hstage]; rfl)]
          simp [losesLease, hstage]
      | false =>
          have hnot : losesLease parse s (.decorated false) = false := by
            simp [losesLease, hstage]
          simp only [hthrows, Bool.false_eq_true, if_false] at hstep
          split at hstep
          · next hlease =>
              obtain rfl := Option.some.inj hstep
              exact quiet_of_none _ hlease hlease (hs.endWith _)
          · next leaseId hlease =>
              obtain rfl := Option.some.inj hstep
              obtain ⟨ht, hsettled⟩ := hs.manageActivationResponse hstage hlease
              exact ⟨ht, fun _ => hnot, fun _ => hsettled⟩
  · next managed hstage =>
      obtain ⟨ht, other, hother⟩ := hs.stepStream hstage hstep
      have hsettled : Settled t := settled_of_stage (by rw [hother]; exact nofun)
      exact hquiet ht hsettled (by simp [losesLease, hstage])
  · cases hstep

theorem consistent_of_initial (hs : Initial s) : Consistent s := by
  refine ⟨?_, ?_, fun _ => hs.lease, ?_, ?_, ?_, ?_⟩
  · rw [hs.events]
    exact orderly_nil
  · simp [hs.events, hs.lease]
  · simp [hs.events]
  · simp [hs.lease]
  · simp [hs.events]
  · intro managed hstage
    rw [hs.stage] at hstage
    cases hstage

/-- **Released exactly once.** Throughout a run of a request the lease is released once, after the
body has ended, and not renewed afterwards, exactly when no step throws that no error path
covers while the lease is held. -/
theorem releasedOnce_iff (parse : String → Option Json) {s t : State} (hs : Initial s)
    {actions : List Action} (hrun : (machine parse).exec s actions = some t) :
    (machine parse).Always ReleasedOnce s actions ↔
      (machine parse).Meets (fun s a => losesLease parse s a = false) s actions := by
  have hinitial := consistent_of_initial hs
  apply (machine parse).always_iff_meets (J := Consistent) _ _ hinitial _ hrun
  · intro s a t hs hstep
    exact (hs.step hstep).1
  · intro s a t hs _ hstep
    obtain ⟨ht, hsettled⟩ := hs.step hstep
    exact ht.releasedOnce.trans hsettled
  · exact hinitial.releasedOnce.mpr (settled_of_none hs.lease)

/-- A request that creates a session. -/
def initialRequest : State where
  input := ⟨true, some .initial, false, none⟩
  stage := .resolveTarget
  lease := none
  events := []

/-- The JSON texts of the runs below. -/
def parseNull (text : String) : Option Json := if text = "null" then some .null else none

/-- The steps to the answer of the deployment. -/
def answered (upstream : Upstream) : List Action :=
  [.targetResolved true, .versionGated true, .activated "lease", .proxied upstream]

/-- The body is read in part, while the lease is renewed, and then cancelled. -/
def cancelledRun : List Action :=
  answered ⟨200, some "application/json", none, true⟩ ++
    [.observed .beyondLimit, .sessionApplied false, .decorated false, .pull, .readChunk,
      .renewTimer, .pull, .cancel, .renewTimer, .readDone, .cancelSettled, .cancelSettled]

theorem releasedOnce_iff_cancelledRun :
    ∃ t, (machine parseNull).exec initialRequest cancelledRun = some t ∧
      t.stage.isOver = true ∧ t.events.count (.release "lease") = 1 ∧
        (machine parseNull).Always ReleasedOnce initialRequest cancelledRun := by
  have hmeets : (machine parseNull).Meets (fun s a => losesLease parseNull s a = false)
      initialRequest cancelledRun := by
    decide +kernel
  refine ⟨_, rfl, by decide +kernel, by decide +kernel, ?_⟩
  exact (releasedOnce_iff parseNull ⟨rfl, rfl, rfl⟩ rfl).mpr hmeets

/-- The deployment answers the creation of a session with 500 and the body `null`. -/
def nullBody : List Action :=
  answered ⟨500, some "application/json", none, true⟩ ++ [.observed (.text "null")]

theorem null_body_keeps_lease :
    ¬ ∀ (parse : String → Option Json) (s : State) (actions : List Action), Initial s →
      (machine parse).Always ReleasedOnce s actions := by
  intro hall
  have halways := hall parseNull initialRequest nullBody ⟨rfl, rfl, rfl⟩
  have hreleased := (halways.of_exec rfl).released rfl "lease" (by decide +kernel)
  exact absurd hreleased (by decide +kernel)

end Eveland.ActivationLease
