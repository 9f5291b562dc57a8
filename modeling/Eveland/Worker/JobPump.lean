/-
# The job pump

A bounded pool of loops claims jobs one at a time and runs them concurrently. A loop whose claim
comes back empty sleeps until its delay elapses, a wake arrives or the pump is stopped. Claims and
runs end at any time and with any outcome, and each loop goes on some time after what it waits for
has happened; the steps of the loops, the calls of `wake` and `stop`, and the ends of claims, runs
and delays come in any order.

A wake that lands between the start of a claim and its empty return is not lost: the loop compares
the version of the wakes before it sleeps, in the same step in which it takes up the gate.
-/

import Eveland.Foundations.Machine
import Eveland.Foundations.RowLocks

namespace Eveland.JobPump

variable {ι : Type*}

/-! ## The pump -/

/-- How a claim ends. -/
inductive ClaimResult (ι : Type*)
  | job (item : ι)
  | empty
  | error

/-- Where a loop is. It keeps the version of the wakes that it has read before its claim. -/
inductive Phase (ι : Type*)
  /-- It is about to test `stopped`. -/
  | top
  /-- `claimSerialized` was called, and its turn in the chain has not come. -/
  | queued (versionBeforeClaim : ℕ)
  /-- `options.claim()` is in flight. -/
  | claiming (versionBeforeClaim : ℕ)
  /-- The claim has ended, and the loop has not gone on. -/
  | returned (versionBeforeClaim : ℕ) (result : ClaimResult ι)
  /-- `options.run` is in progress. -/
  | running (item : ι)
  /-- It waits for its delay, the gate of the wakes and the stop signal. -/
  | asleep (version : ℕ)
  | done

/-- The state of a pump, and what happened in it. -/
structure State (ι : Type*) where
  loops : List (Phase ι)
  /-- The loops that wait for their turn, in the order of their calls. -/
  claimChain : List ℕ
  /-- The loop whose claim is in flight. -/
  inFlight : Option ℕ
  wakeVersion : ℕ
  stopped : Bool
  /-- How often `onError` was called. -/
  errors : ℕ
  /-- How many claims were begun, also up to the first call of `stop`. -/
  begun : ℕ
  begunAtStop : Option ℕ
  /-- A call of `wake`, the end of a run, since the last claim was begun. -/
  woken : Bool
  completed : Bool

inductive Action (ι : Type*)
  /-- A loop tests `stopped` and calls `claimSerialized`. -/
  | enter (loop : ℕ)
  /-- The turn of the first loop of the chain comes. -/
  | begin
  /-- The claim in flight ends. -/
  | settle (result : ClaimResult ι)
  /-- A loop goes on after its claim. -/
  | proceed (loop : ℕ)
  /-- A run ends, and its loop starts over. -/
  | finish (loop : ℕ) (failed : Bool)
  /-- The delay of a loop elapses. -/
  | elapse (loop : ℕ)
  | wake
  | stop

/-- A pump of some loops. -/
def start (ι : Type*) (concurrency : ℕ) : State ι where
  loops := List.replicate concurrency .top
  claimChain := []
  inFlight := none
  wakeVersion := 0
  stopped := false
  errors := 0
  begun := 0
  begunAtStop := none
  woken := false
  completed := false

/-- A loop goes to a phase. -/
def State.move (s : State ι) (loop : ℕ) (phase : Phase ι) : State ι :=
  { s with loops := s.loops.set loop phase }

/-- The gate or the stop signal opens for a loop. -/
def Phase.awaken : Phase ι → Phase ι
  | .asleep _ => .top
  | phase => phase

def enter (s : State ι) (loop : ℕ) : Option (State ι) :=
  match s.loops[loop]? with
  | some .top =>
      if s.stopped then some (s.move loop .done)
      else
        some { s.move loop (.queued s.wakeVersion) with
          claimChain := s.claimChain ++ [loop] }
  | _ => none

/-- A turn comes once the claim before it has ended. No claim is begun once the pump is stopped. -/
def begin (s : State ι) : Option (State ι) :=
  match s.inFlight, s.claimChain with
  | none, loop :: rest =>
      match s.loops[loop]? with
      | some (.queued version) =>
          if s.stopped then
            some { s.move loop (.returned version .empty) with claimChain := rest }
          else
            some { s.move loop (.claiming version) with
              claimChain := rest
              inFlight := some loop
              begun := s.begun + 1
              woken := false
              completed := false }
      | _ => none
  | _, _ => none

def settle (s : State ι) (result : ClaimResult ι) : Option (State ι) :=
  match s.inFlight with
  | some loop =>
      match s.loops[loop]? with
      | some (.claiming version) =>
          some { s.move loop (.returned version result) with inFlight := none }
      | _ => none
  | none => none

/-- What a loop does without a job. -/
def idle (s : State ι) (loop version : ℕ) : State ι :=
  if s.stopped then s.move loop .done
  else if s.wakeVersion ≠ version then s.move loop .top
  else s.move loop (.asleep version)

def proceed (s : State ι) (loop : ℕ) : Option (State ι) :=
  match s.loops[loop]? with
  | some (.returned _ (.job item)) => some (s.move loop (.running item))
  | some (.returned version .empty) => some (idle s loop version)
  | some (.returned version .error) =>
      some (idle { s with errors := s.errors + 1 } loop version)
  | _ => none

def finish (s : State ι) (loop : ℕ) (failed : Bool) : Option (State ι) :=
  match s.loops[loop]? with
  | some (.running _) =>
      some { s.move loop .top with
        errors := if failed then s.errors + 1 else s.errors
        completed := true }
  | _ => none

def elapse (s : State ι) (loop : ℕ) : Option (State ι) :=
  match s.loops[loop]? with
  | some (.asleep _) => some (s.move loop .top)
  | _ => none

/-- `wake` opens the gate that the sleepers have taken up, and makes a new one. -/
def wake (s : State ι) : State ι :=
  if s.stopped then { s with woken := true }
  else
    { s with
      loops := s.loops.map Phase.awaken
      wakeVersion := s.wakeVersion + 1
      woken := true }

def stop (s : State ι) : State ι :=
  { s with
    loops := s.loops.map Phase.awaken
    stopped := true
    begunAtStop := s.begunAtStop.or (some s.begun) }

/-- A pump, with whatever happens to it. -/
def machine (ι : Type*) (concurrency : ℕ) : Machine (State ι) (Action ι) where
  init s := s = start ι concurrency
  step s
    | .enter loop => enter s loop
    | .begin => begin s
    | .settle result => settle s result
    | .proceed loop => proceed s loop
    | .finish loop failed => finish s loop failed
    | .elapse loop => elapse s loop
    | .wake => some (wake s)
    | .stop => some (stop s)

/-! ## What holds of a pump -/

def Phase.isClaiming : Phase ι → Bool
  | .claiming _ => true
  | _ => false

def Phase.isRunning : Phase ι → Bool
  | .running _ => true
  | _ => false

def Phase.isAsleep : Phase ι → Bool
  | .asleep _ => true
  | _ => false

/-- The loop is on its way to a claim, in one, or on its way back from one. -/
def Phase.isActive : Phase ι → Bool
  | .top | .queued _ | .claiming _ | .returned _ _ => true
  | _ => false

/-- The pump is parked with free capacity: a loop sleeps, and no loop is about to claim. -/
def State.isParked (s : State ι) : Bool :=
  s.loops.any Phase.isAsleep && s.loops.all fun phase => !phase.isActive

/-- What the pump promises. -/
structure Sound (concurrency : ℕ) (s : State ι) : Prop where
  /-- At most one claim is in flight. -/
  oneClaim : s.loops.countP Phase.isClaiming ≤ 1
  /-- At most as many jobs run as the pump has loops. -/
  bounded : s.loops.countP Phase.isRunning ≤ concurrency
  /-- No claim begins after the pump was stopped. -/
  noLateClaim : ∀ begun, s.begunAtStop = some begun → s.begun = begun
  /-- The pump does not park after a wake, or the end of a run, that the last claim has not seen. -/
  notParked : (s.woken = true ∨ s.completed = true) → s.isParked = false
  /-- After such a wake no loop sleeps at all. -/
  awake : s.woken = true → s.loops.any Phase.isAsleep = false
  /-- A claim that is waiting begins as soon as no other is in flight. -/
  progress : s.inFlight = none → s.claimChain ≠ [] → (begin s).isSome = true

/-! ## Consistency -/

/-- What is known of a loop in a phase. A version that was read before a claim is older than every
wake that the last claim has not seen. -/
def Allowed (s : State ι) (loop : ℕ) : Phase ι → Prop
  | .queued version => version ≤ s.wakeVersion
  | .claiming version =>
      s.inFlight = some loop ∧ version ≤ s.wakeVersion ∧
        (s.woken = true → s.stopped = false → version < s.wakeVersion)
  | .returned version _ =>
      version ≤ s.wakeVersion ∧ (s.woken = true → s.stopped = false → version < s.wakeVersion)
  | .asleep _ => s.stopped = false ∧ s.woken = false
  | .top | .running _ | .done => True

/-- The loop waits for its turn. -/
def IsQueued (s : State ι) (loop : ℕ) : Prop :=
  ∃ version, s.loops[loop]? = some (.queued version)

/-- The loop is about to claim. -/
def Claims (s : State ι) (loop : ℕ) : Prop :=
  s.loops[loop]? = some .top ∨ IsQueued s loop

/-- What is known of every reachable state. -/
structure Consistent (concurrency : ℕ) (s : State ι) : Prop where
  size : s.loops.length = concurrency
  allowed : ∀ loop phase, s.loops[loop]? = some phase → Allowed s loop phase
  queued : ∀ loop ∈ s.claimChain, IsQueued s loop
  nodup : s.claimChain.Nodup
  /-- A loop whose run has ended is about to claim until a claim begins. -/
  claims : s.completed = true → s.stopped = false → ∃ loop, Claims s loop
  begun : ∀ begun, s.begunAtStop = some begun → s.begun = begun
  running : s.stopped = false → s.begunAtStop = none

@[simp]
theorem move_loops (s : State ι) (loop : ℕ) (phase : Phase ι) :
    (s.move loop phase).loops = s.loops.set loop phase := rfl

@[simp]
theorem move_stopped (s : State ι) (loop : ℕ) (phase : Phase ι) :
    (s.move loop phase).stopped = s.stopped := rfl

/-- A loop after one of them was moved. -/
theorem getElem?_set_self {loops : List (Phase ι)} {loop : ℕ} {old new : Phase ι}
    (hold : loops[loop]? = some old) : (loops.set loop new)[loop]? = some new := by
  have hlt := (List.getElem?_eq_some_iff.mp hold).1
  simp [hlt]

theorem getElem?_set_other {loops : List (Phase ι)} {loop other : ℕ} {new : Phase ι}
    (hne : other ≠ loop) : (loops.set loop new)[other]? = loops[other]? := by
  rw [List.getElem?_set, if_neg (Ne.symm hne)]

/-- A loop that is not queued is not in the chain. -/
theorem Consistent.not_mem_chain {concurrency : ℕ} {s : State ι} {loop : ℕ} {phase : Phase ι}
    (hcons : Consistent concurrency s) (hphase : s.loops[loop]? = some phase)
    (hne : ∀ version, phase ≠ .queued version) : loop ∉ s.claimChain := by
  intro hmem
  obtain ⟨version, hqueued⟩ := hcons.queued loop hmem
  exact hne version (Option.some.inj (hphase.symm.trans hqueued))

/-- A loop that is not queued moves on, and nothing else changes but what the pump counts. -/
theorem Consistent.move {concurrency : ℕ} {s t : State ι} {loop : ℕ} {old new : Phase ι}
    (hcons : Consistent concurrency s) (hold : s.loops[loop]? = some old)
    (hloops : t.loops = s.loops.set loop new) (hne : ∀ version, old ≠ .queued version)
    (hallowed : Allowed t loop new)
    (hothers : ∀ other phase, other ≠ loop → Allowed s other phase → Allowed t other phase)
    (hchain : t.claimChain = s.claimChain) (hstopped : t.stopped = s.stopped)
    (hclaims : t.completed = true → t.stopped = false →
      Claims t loop ∨ (s.completed = true ∧ old ≠ .top))
    (hbegun : t.begun = s.begun ∧ t.begunAtStop = s.begunAtStop) : Consistent concurrency t where
  size := by rw [hloops, List.length_set]; exact hcons.size
  allowed other phase hphase := by
    rw [hloops] at hphase
    obtain ⟨rfl, rfl⟩ | ⟨hother, hphase⟩ := RowLocks.getElem?_set_cases hphase
    · exact hallowed
    · exact hothers other phase (Ne.symm hother) (hcons.allowed other phase hphase)
  queued other hmem := by
    rw [hchain] at hmem
    have hother : other ≠ loop := by
      rintro rfl
      exact hcons.not_mem_chain hold hne hmem
    obtain ⟨version, hqueued⟩ := hcons.queued other hmem
    exact ⟨version, by rw [hloops, getElem?_set_other hother]; exact hqueued⟩
  nodup := by rw [hchain]; exact hcons.nodup
  claims hcompleted hopen := by
    rcases hclaims hcompleted hopen with hself | ⟨hbefore, htop⟩
    · exact ⟨loop, hself⟩
    · obtain ⟨other, hother⟩ := hcons.claims hbefore (hstopped ▸ hopen)
      have hdiffers : other ≠ loop := by
        rintro rfl
        rcases hother with hat | ⟨version, hat⟩
        · exact htop (Option.some.inj (hold.symm.trans hat))
        · exact hne version (Option.some.inj (hold.symm.trans hat))
      refine ⟨other, ?_⟩
      rcases hother with hat | ⟨version, hat⟩
      · exact Or.inl (by rw [hloops, getElem?_set_other hdiffers]; exact hat)
      · exact Or.inr ⟨version, by rw [hloops, getElem?_set_other hdiffers]; exact hat⟩
  begun begun hat := by
    rw [hbegun.1]
    exact hcons.begun begun (hbegun.2 ▸ hat)
  running hopen := hbegun.2.trans (hcons.running (hstopped ▸ hopen))

theorem Consistent.initial (ι : Type*) (concurrency : ℕ) :
    Consistent concurrency (start ι concurrency) where
  size := List.length_replicate
  allowed loop phase hphase := by
    obtain ⟨_, rfl⟩ := List.mem_replicate.mp (List.mem_of_getElem? hphase)
    trivial
  queued loop hmem := by cases hmem
  nodup := List.nodup_nil
  claims hcompleted := by cases hcompleted
  begun begun hat := by cases hat
  running _ := rfl

/-! ## Steps -/

variable {concurrency : ℕ} {s t : State ι} {loop : ℕ}

theorem Consistent.enter (hcons : Consistent concurrency s) (hstep : enter s loop = some t) :
    Consistent concurrency t := by
  rw [JobPump.enter] at hstep
  split at hstep
  · next hphase =>
      split at hstep
      · next hstopped =>
          cases hstep
          exact hcons.move hphase rfl (by simp) trivial (fun _ _ _ hother => hother) rfl rfl
            (fun _ hopen => absurd hopen (by simp [hstopped])) ⟨rfl, rfl⟩
      · next hopen =>
          cases hstep
          have hself : (s.loops.set loop (.queued s.wakeVersion))[loop]? =
              some (.queued s.wakeVersion) := getElem?_set_self hphase
          have hfresh : loop ∉ s.claimChain := hcons.not_mem_chain hphase (by simp)
          exact {
            size := by rw [move_loops, List.length_set]; exact hcons.size
            allowed := by
              intro other phase hother
              obtain ⟨rfl, rfl⟩ | ⟨_, hother⟩ := RowLocks.getElem?_set_cases hother
              · exact Nat.le_refl _
              · exact hcons.allowed other phase hother
            queued := by
              intro other hmem
              rcases List.mem_append.mp hmem with hmem | hmem
              · have hdiffers : other ≠ loop := fun hsame => hfresh (hsame ▸ hmem)
                obtain ⟨version, hqueued⟩ := hcons.queued other hmem
                exact ⟨version, (getElem?_set_other hdiffers).trans hqueued⟩
              · rw [List.mem_singleton.mp hmem]
                exact ⟨_, hself⟩
            nodup := by
              rw [List.nodup_append]
              refine ⟨hcons.nodup, List.pairwise_singleton _ _, fun other hmem last hlast => ?_⟩
              rw [List.mem_singleton.mp hlast]
              exact fun hsame => hfresh (hsame ▸ hmem)
            claims := fun _ _ => ⟨loop, Or.inr ⟨_, hself⟩⟩
            begun := hcons.begun
            running := hcons.running }
  · cases hstep

theorem Consistent.begin (hcons : Consistent concurrency s) (hstep : begin s = some t) :
    Consistent concurrency t := by
  rw [JobPump.begin] at hstep
  split at hstep
  · next loop rest hidle hchain =>
      split at hstep
      · next version hphase =>
          have hnodup := hchain ▸ hcons.nodup
          have hrest : ∀ (new : Phase ι), ∀ other ∈ rest,
              ∃ version, (s.loops.set loop new)[other]? = some (.queued version) := by
            intro new other hmem
            have hdiffers : other ≠ loop := fun hsame =>
              (List.nodup_cons.mp hnodup).1 (hsame ▸ hmem)
            obtain ⟨version, hqueued⟩ := hcons.queued other (by simp [hchain, hmem])
            exact ⟨version, (getElem?_set_other hdiffers).trans hqueued⟩
          have hversion : version ≤ s.wakeVersion := hcons.allowed loop _ hphase
          split at hstep
          · next hstopped =>
              cases hstep
              exact {
                size := by rw [move_loops, List.length_set]; exact hcons.size
                allowed := by
                  intro other phase hother
                  obtain ⟨rfl, rfl⟩ | ⟨_, hother⟩ := RowLocks.getElem?_set_cases hother
                  · exact ⟨hversion, fun _ hopen => absurd hopen (by simp [hstopped])⟩
                  · exact hcons.allowed other phase hother
                queued := hrest _
                nodup := (List.nodup_cons.mp hnodup).2
                claims := fun _ hopen => absurd hopen (by simp [hstopped])
                begun := hcons.begun
                running := hcons.running }
          · next hopen =>
              cases hstep
              have hnotStopped : s.stopped = false := by simpa using hopen
              exact {
                size := by rw [move_loops, List.length_set]; exact hcons.size
                allowed := by
                  intro other phase hother
                  obtain ⟨rfl, rfl⟩ | ⟨_, hother⟩ := RowLocks.getElem?_set_cases hother
                  · exact ⟨rfl, hversion, fun hwoken => by cases hwoken⟩
                  · have hbefore := hcons.allowed other phase hother
                    cases phase with
                    | claiming version => exact absurd hbefore.1 (by simp [hidle])
                    | queued version => exact hbefore
                    | returned version result =>
                        exact ⟨hbefore.1, fun hwoken => by cases hwoken⟩
                    | asleep version => exact ⟨hbefore.1, rfl⟩
                    | top => trivial
                    | running item => trivial
                    | done => trivial
                queued := hrest _
                nodup := (List.nodup_cons.mp hnodup).2
                claims := fun hcompleted => by cases hcompleted
                begun := fun begun hat => by
                  have hnone := hcons.running hnotStopped
                  exact absurd (hnone.symm.trans hat) (by simp)
                running := hcons.running }
      · cases hstep
  · cases hstep

theorem Consistent.settle {result : ClaimResult ι} (hcons : Consistent concurrency s)
    (hstep : settle s result = some t) : Consistent concurrency t := by
  rw [JobPump.settle] at hstep
  split at hstep
  · next loop hinFlight =>
      split at hstep
      · next version hphase =>
          cases hstep
          obtain ⟨_, hversion, hstale⟩ := hcons.allowed loop _ hphase
          refine hcons.move hphase rfl (by simp) ⟨hversion, hstale⟩ ?_ rfl rfl
            (fun hcompleted _ => Or.inr ⟨hcompleted, by simp⟩) ⟨rfl, rfl⟩
          intro other phase hother hbefore
          cases phase with
          | claiming version =>
              exact absurd (Option.some.inj (hinFlight.symm.trans hbefore.1)) (Ne.symm hother)
          | _ => exact hbefore
      · cases hstep
  · cases hstep

/-- A loop without a job sleeps only where no wake has come since it has read the version. -/
theorem Consistent.idle {version : ℕ} {result : ClaimResult ι} (hcons : Consistent concurrency s)
    (hphase : s.loops[loop]? = some (.returned version result)) :
    Consistent concurrency (idle s loop version) := by
  obtain ⟨hversion, hstale⟩ := hcons.allowed loop _ hphase
  rw [JobPump.idle]
  split
  · exact hcons.move hphase rfl (by simp) trivial (fun _ _ _ hother => hother) rfl rfl
      (fun hcompleted _ => Or.inr ⟨hcompleted, by simp⟩) ⟨rfl, rfl⟩
  · next hopen =>
      split
      · exact hcons.move hphase rfl (by simp) trivial (fun _ _ _ hother => hother) rfl rfl
          (fun hcompleted _ => Or.inr ⟨hcompleted, by simp⟩) ⟨rfl, rfl⟩
      · next hsame =>
          have hnotStopped : s.stopped = false := by simpa using hopen
          have hunwoken : s.woken = false := by
            rw [← Bool.not_eq_true]
            intro hwoken
            have hlt := hstale hwoken hnotStopped
            omega
          exact hcons.move hphase rfl (by simp) ⟨hnotStopped, hunwoken⟩
            (fun _ _ _ hother => hother) rfl rfl
            (fun hcompleted _ => Or.inr ⟨hcompleted, by simp⟩) ⟨rfl, rfl⟩

/-- Errors are reported, and nothing else depends on them. -/
theorem Consistent.report (hcons : Consistent concurrency s) (errors : ℕ) :
    Consistent concurrency { s with errors } where
  size := hcons.size
  allowed other phase hphase := by
    have hbefore := hcons.allowed other phase hphase
    cases phase <;> exact hbefore
  queued := hcons.queued
  nodup := hcons.nodup
  claims := hcons.claims
  begun := hcons.begun
  running := hcons.running

theorem Consistent.proceed (hcons : Consistent concurrency s) (hstep : proceed s loop = some t) :
    Consistent concurrency t := by
  rw [JobPump.proceed] at hstep
  split at hstep
  · next hphase =>
      cases hstep
      exact hcons.move hphase rfl (by simp) trivial (fun _ _ _ hother => hother) rfl rfl
        (fun hcompleted _ => Or.inr ⟨hcompleted, by simp⟩) ⟨rfl, rfl⟩
  · next hphase =>
      cases hstep
      exact hcons.idle hphase
  · next hphase =>
      cases hstep
      exact (hcons.report _).idle hphase
  · cases hstep

theorem Consistent.finish {failed : Bool} (hcons : Consistent concurrency s)
    (hstep : finish s loop failed = some t) : Consistent concurrency t := by
  rw [JobPump.finish] at hstep
  split at hstep
  · next hphase =>
      cases hstep
      refine hcons.move hphase rfl (by simp) trivial ?_ rfl rfl ?_ ⟨rfl, rfl⟩
      · intro other phase _ hbefore
        cases phase <;> exact hbefore
      · exact fun _ _ => Or.inl (Or.inl (getElem?_set_self hphase))
  · cases hstep

theorem Consistent.elapse (hcons : Consistent concurrency s) (hstep : elapse s loop = some t) :
    Consistent concurrency t := by
  rw [JobPump.elapse] at hstep
  split at hstep
  · next hphase =>
      cases hstep
      exact hcons.move hphase rfl (by simp) trivial (fun _ _ _ hother => hother) rfl rfl
        (fun hcompleted _ => Or.inr ⟨hcompleted, by simp⟩) ⟨rfl, rfl⟩
  · cases hstep

/-- A loop in any phase but sleep stays there when the gate opens. -/
theorem getElem?_awaken {loops : List (Phase ι)} {phase : Phase ι}
    (hphase : (loops.map Phase.awaken)[loop]? = some phase) :
    (∃ version, loops[loop]? = some (.asleep version) ∧ phase = .top) ∨
      (loops[loop]? = some phase ∧ phase.isAsleep = false) := by
  rw [List.getElem?_map] at hphase
  obtain ⟨before, hbefore, rfl⟩ := Option.map_eq_some_iff.mp hphase
  cases before with
  | asleep version => exact Or.inl ⟨version, hbefore, rfl⟩
  | _ => exact Or.inr ⟨hbefore, rfl⟩

theorem IsQueued.awaken (hqueued : IsQueued s loop)
    (hloops : t.loops = s.loops.map Phase.awaken) : IsQueued t loop := by
  obtain ⟨version, hat⟩ := hqueued
  exact ⟨version, by rw [hloops, List.getElem?_map, hat]; rfl⟩

theorem Claims.awaken (hclaims : Claims s loop) (hloops : t.loops = s.loops.map Phase.awaken) :
    Claims t loop := by
  rcases hclaims with htop | hqueued
  · exact Or.inl (by rw [hloops, List.getElem?_map, htop]; rfl)
  · exact Or.inr (hqueued.awaken hloops)

theorem Consistent.wake (hcons : Consistent concurrency s) : Consistent concurrency (wake s) := by
  rw [JobPump.wake]
  split
  · next hstopped =>
      exact { hcons with
        allowed := by
          intro other phase hphase
          have hbefore := hcons.allowed other phase hphase
          have hnever : s.stopped ≠ false := by simp [hstopped]
          cases phase with
          | claiming version => exact ⟨hbefore.1, hbefore.2.1, fun _ hopen => absurd hopen hnever⟩
          | returned version result => exact ⟨hbefore.1, fun _ hopen => absurd hopen hnever⟩
          | asleep version => exact absurd hbefore.1 hnever
          | _ => exact hbefore }
  · exact {
      size := by rw [List.length_map]; exact hcons.size
      allowed := by
        intro other phase hphase
        obtain ⟨version, _, rfl⟩ | ⟨hphase, hawake⟩ := getElem?_awaken hphase
        · trivial
        · have hbefore := hcons.allowed other phase hphase
          cases phase with
          | queued version => exact Nat.le_succ_of_le hbefore
          | claiming version =>
              exact ⟨hbefore.1, Nat.le_succ_of_le hbefore.2.1,
                fun _ _ => Nat.lt_succ_of_le hbefore.2.1⟩
          | returned version result =>
              exact ⟨Nat.le_succ_of_le hbefore.1, fun _ _ => Nat.lt_succ_of_le hbefore.1⟩
          | asleep version => cases hawake
          | _ => trivial
      queued := fun other hmem => (hcons.queued other hmem).awaken rfl
      nodup := hcons.nodup
      claims := by
        intro hcompleted hopen
        obtain ⟨other, hother⟩ := hcons.claims hcompleted hopen
        exact ⟨other, hother.awaken rfl⟩
      begun := hcons.begun
      running := hcons.running }

theorem Consistent.stop (hcons : Consistent concurrency s) : Consistent concurrency (stop s) where
  size := by rw [JobPump.stop, List.length_map]; exact hcons.size
  allowed other phase hphase := by
    obtain ⟨version, _, rfl⟩ | ⟨hphase, hawake⟩ := getElem?_awaken hphase
    · trivial
    · have hbefore := hcons.allowed other phase hphase
      cases phase with
      | claiming version =>
          exact ⟨hbefore.1, hbefore.2.1, fun _ hopen => by cases hopen⟩
      | returned version result => exact ⟨hbefore.1, fun _ hopen => by cases hopen⟩
      | asleep version => cases hawake
      | queued version => exact hbefore
      | _ => trivial
  queued other hmem := (hcons.queued other hmem).awaken rfl
  nodup := hcons.nodup
  claims _ hopen := by cases hopen
  begun begun hat := by
    cases hfirst : s.begunAtStop with
    | none =>
        rw [JobPump.stop, hfirst] at hat
        exact Option.some.inj hat
    | some before =>
        rw [JobPump.stop, hfirst] at hat
        rw [← Option.some.inj hat]
        exact hcons.begun before hfirst
  running hopen := by cases hopen

/-- Every step keeps what is known of the pump. -/
theorem Consistent.step {action : Action ι} (hcons : Consistent concurrency s)
    (hstep : (machine ι concurrency).step s action = some t) : Consistent concurrency t := by
  cases action with
  | enter loop => exact hcons.enter hstep
  | begin => exact hcons.begin hstep
  | settle result => exact hcons.settle hstep
  | proceed loop => exact hcons.proceed hstep
  | finish loop failed => exact hcons.finish hstep
  | elapse loop => exact hcons.elapse hstep
  | wake =>
      cases hstep
      exact hcons.wake
  | stop =>
      cases hstep
      exact hcons.stop

/-! ## Soundness -/

/-- What at most one index has, is counted once at most. -/
theorem countP_le_one {phases : List (Phase ι)} {p : Phase ι → Bool}
    (honly : ∀ (i j : ℕ) (first second : Phase ι), phases[i]? = some first →
      phases[j]? = some second → p first = true → p second = true → i = j) :
    phases.countP p ≤ 1 := by
  induction phases with
  | nil => exact Nat.zero_le _
  | cons head rest ih =>
      rw [List.countP_cons]
      cases hhead : p head with
      | false =>
          simp only [Bool.false_eq_true, if_false, Nat.add_zero]
          apply ih
          intro i j first second hi hj hfirst hsecond
          exact Nat.succ_inj.mp (honly (i + 1) (j + 1) first second hi hj hfirst hsecond)
      | true =>
          have hnone : rest.countP p = 0 := by
            rw [List.countP_eq_zero]
            intro other hmem hother
            obtain ⟨j, hj⟩ := List.mem_iff_getElem?.mp hmem
            exact absurd (honly 0 (j + 1) head other rfl hj hhead hother) (by simp)
          simp [hnone]

/-- After a wake that the last claim has not seen, no loop sleeps. -/
theorem Consistent.awake (hcons : Consistent concurrency s)
    (hseen : s.woken = true ∨ s.stopped = true) : s.loops.any Phase.isAsleep = false := by
  rw [List.any_eq_false]
  intro phase hmem hasleep
  obtain ⟨loop, hphase⟩ := List.mem_iff_getElem?.mp hmem
  cases phase with
  | asleep version =>
      obtain ⟨hopen, hunwoken⟩ := hcons.allowed loop _ hphase
      rcases hseen with hwoken | hstopped
      · rw [hwoken] at hunwoken
        cases hunwoken
      · rw [hstopped] at hopen
        cases hopen
  | _ => cases hasleep

/-- A pump with a loop that is about to claim is not parked. -/
theorem Claims.not_isParked (hclaims : Claims s loop) : s.isParked = false := by
  have hactive : ∃ phase ∈ s.loops, phase.isActive = true := by
    rcases hclaims with htop | ⟨version, hqueued⟩
    · exact ⟨_, List.mem_of_getElem? htop, rfl⟩
    · exact ⟨_, List.mem_of_getElem? hqueued, rfl⟩
  obtain ⟨phase, hmem, hphase⟩ := hactive
  rw [State.isParked, Bool.and_eq_false_iff, List.all_eq_false]
  exact Or.inr ⟨phase, hmem, by simp [hphase]⟩

theorem Consistent.sound (hcons : Consistent concurrency s) : Sound concurrency s where
  oneClaim := by
    apply countP_le_one
    intro i j first second hi hj hfirst hsecond
    cases first with
    | claiming v =>
        cases second with
        | claiming w =>
            have hfirstAt := (hcons.allowed i _ hi).1
            have hsecondAt := (hcons.allowed j _ hj).1
            exact Option.some.inj (hfirstAt.symm.trans hsecondAt)
        | _ => cases hsecond
    | _ => cases hfirst
  bounded := by
    rw [← hcons.size]
    exact List.countP_le_length
  noLateClaim := hcons.begun
  notParked := by
    intro hevent
    cases hstopped : s.stopped with
    | true =>
        rw [State.isParked, hcons.awake (Or.inr hstopped)]
        rfl
    | false =>
        rcases hevent with hwoken | hcompleted
        · rw [State.isParked, hcons.awake (Or.inl hwoken)]
          rfl
        · obtain ⟨loop, hclaims⟩ := hcons.claims hcompleted hstopped
          exact hclaims.not_isParked
  awake hwoken := hcons.awake (Or.inl hwoken)
  progress := by
    intro hidle hne
    obtain ⟨loop, rest, hchain⟩ := List.exists_cons_of_ne_nil hne
    obtain ⟨version, hqueued⟩ := hcons.queued loop (by simp [hchain])
    rw [JobPump.begin, hidle, hchain]
    simp only [hqueued]
    split <;> rfl

/-- **No lost wake-up.** In every state of every run of a pump, whatever the claims come to and in
whatever order claims, runs, delays, wakes and stops happen, the pump keeps its promises. -/
theorem pump_sound (ι : Type*) (concurrency : ℕ) (actions : List (Action ι)) :
    (machine ι concurrency).Always (Sound concurrency) (start ι concurrency) actions := by
  apply (machine ι concurrency).always_of_meets (I := Consistent concurrency)
    (G := fun _ _ => True) _ _ (Consistent.initial ι concurrency)
    ((machine ι concurrency).meets_true _ _)
  · exact fun s action t hcons _ hstep => hcons.step hstep
  · exact fun s hcons => hcons.sound

end Eveland.JobPump
