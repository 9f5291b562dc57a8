/-
# When the mutex excludes

A process has the mutex from its own `mkdir` to the end of its release. Nothing but a contender
that moves the directory aside takes it away in between, and such a contender has judged the
owner it read before, not the directory it moves: the judged one may have been broken and made
anew, and an old directory without an owner may still get one. As long as no contender moves
the directory of a process that has it, `mkdir` succeeds only when nobody has the mutex, and
claims of the supervisor record come one after the other.
-/

import Eveland.Ctl.Mutex

namespace Eveland.CtlMutex

open RowLocks (getElem?_set_cases getElem?_append_cases)

/-! ## The condition -/

/-- From the process's own `mkdir` to the end of its release. -/
def Phase.hasMutex : Phase → Bool
  | .writing _ => true
  | .holding .. => true
  | .releasing .. => true
  | .removing .. => true
  | _ => false

/-- The process is live and has the mutex. -/
def Process.hasMutex (p : Process) : Bool := p.alive && p.phase.hasMutex

/-- No contender moves the directory of a process that has the mutex aside. -/
def Undisturbed (s : State) : Action → Bool
  | .step index _ =>
      match s.processes[index]? with
      | some ⟨_, _, _, _, .breaking .., _⟩ =>
          s.files.mutex.isNone || !s.processes.any Process.hasMutex
      | _ => true
  | _ => true

/-! ## The invariant -/

/-- The owner a process writes into its directories. -/
def Phase.owner : Phase → Option MutexOwner
  | .making owner => some owner
  | .writing owner => some owner
  | .reading owner => some owner
  | .judging owner _ => some owner
  | .breaking owner _ => some owner
  | .inspecting owner _ _ => some owner
  | .restoring owner _ => some owner
  | .holding owner _ => some owner
  | .releasing owner _ => some owner
  | .removing owner _ => some owner
  | _ => none

/-- The process has found that nobody else supervises. -/
def Phase.isSole : Phase → Bool
  | .holding _ .writingTemp => true
  | .holding _ .validating => true
  | .holding _ .publishing => true
  | _ => false

/-- The live process has the pid. -/
def HasPid (p : Process) (pid : ℕ) : Prop := p.alive = true ∧ p.pid = pid

/-- Pids, the mutex and the record, as the processes rely on them. -/
structure Guarded (s : State) : Prop where
  pids : RowLocks.Exclusive HasPid s.processes
  one : RowLocks.Exclusive (fun (p : Process) (_ : Unit) => p.hasMutex = true) s.processes
  present : ∀ p ∈ s.processes, p.hasMutex = true → s.files.mutex ≠ none
  owners : ∀ (i : ℕ) (p : Process), s.processes[i]? = some p → p.alive = true → ∀ owner,
    p.phase.owner = some owner → owner.identity = some i
  recorded : ∀ (i : ℕ) (p : Process), s.processes[i]? = some p → p.alive = true → p.standing = true →
    s.files.record = some ⟨p.pid, some i⟩
  probed : ∀ p ∈ s.processes, p.alive = true → ∀ owner record,
    p.phase = .holding owner (.probing record) →
      s.files.record = none ∨ s.files.record = some record
  sole : ∀ (i : ℕ) (p : Process), s.processes[i]? = some p → p.alive = true → p.phase.isSole = true →
    ∀ (j : ℕ) (q : Process), s.processes[j]? = some q → q.alive = true → q.standing = true →
      j = i

theorem guarded_of_init {s : State} (hinit : machine.init s) : Guarded s := by
  have hdead : ∀ {i : ℕ} {p : Process}, s.processes[i]? = some p → p.alive = true → False := by
    intro i p hp halive
    rw [hinit p (List.mem_of_getElem? hp)] at halive
    cases halive
  constructor
  · intro i j first second pid hi _ hfirst _
    exact (hdead hi hfirst.1).elim
  · intro i j first second _ hi _ hfirst _
    exact (hdead hi (Bool.and_eq_true_iff.mp hfirst).1).elim
  · intro p hp hhas
    rw [Process.hasMutex, hinit p hp] at hhas
    cases hhas
  · exact fun i p hp halive => (hdead hp halive).elim
  · exact fun i p hp halive => (hdead hp halive).elim
  · intro p hp halive
    rw [hinit p hp] at halive
    cases halive
  · exact fun i p hp halive => (hdead hp halive).elim

/-- What the invariant says of the claim. -/
theorem Guarded.exclusive {s : State} (h : Guarded s) : Exclusive s where
  mutex i j first second _ hi hj hfirst hsecond := by
    have hhas : ∀ p : Process, p.Holds → p.hasMutex = true := by
      rintro p ⟨halive, owner, work, hphase⟩
      simp [Process.hasMutex, halive, hphase, Phase.hasMutex]
    exact h.one i j first second () hi hj (hhas first hfirst) (hhas second hsecond)
  record i j first second _ hi hj hfirst hsecond := by
    have hrecord := h.recorded i first hi hfirst.1 hfirst.2.2
    rw [h.recorded j second hj hsecond.1 hsecond.2.2] at hrecord
    exact (Option.some.inj (SupervisorRecord.mk.inj (Option.some.inj hrecord)).2).symm

/-- The probe answers a live process's pid with its identity. -/
theorem Guarded.identityOf {s : State} (h : Guarded s) {i : ℕ} {p : Process}
    (hp : s.processes[i]? = some p) (halive : p.alive = true) : s.identityOf p.pid = some i := by
  obtain ⟨hi, rfl⟩ := List.getElem?_eq_some_iff.mp hp
  rw [State.identityOf, List.findIdx?_eq_some_iff_getElem]
  refine ⟨hi, by simp [halive], ?_⟩
  intro j hj hsame
  have hjLength : j < s.processes.length := Nat.lt_trans hj hi
  obtain ⟨hjAlive, hjPid⟩ := Bool.and_eq_true_iff.mp hsame
  have heq := h.pids i j s.processes[i] s.processes[j] s.processes[i].pid
    (List.getElem?_eq_getElem hi) (List.getElem?_eq_getElem hjLength) ⟨halive, rfl⟩
    ⟨hjAlive, of_decide_eq_true hjPid⟩
  omega

/-- Where nobody has the mutex a process may be taken to have it. -/
theorem Guarded.nobody {s : State} (h : Guarded s) (hnone : s.files.mutex = none) :
    ∀ p ∈ s.processes, p.hasMutex = false := by
  intro p hp
  cases hhas : p.hasMutex with
  | false => rfl
  | true => exact absurd hnone (h.present p hp hhas)

/-! ## A process moves on -/

/-- What one step of a process does, save that it publishes a record: it comes to have the
mutex only where nobody has it, and takes the directory away only where nobody else has it. -/
structure Moves (s : State) (i : ℕ) (p p' : Process) (files : Files) : Prop where
  pid : p'.pid = p.pid
  alive : p'.alive = p.alive
  standing : p'.standing = p.standing
  record : files.record = s.files.record
  comes : p'.phase.hasMutex = true → p.phase.hasMutex = true ∨
    ∀ q ∈ s.processes, q.hasMutex = false
  leaves : files.mutex = none → p'.phase.hasMutex = false ∧ (s.files.mutex = none ∨
    p.phase.hasMutex = true ∨ ∀ q ∈ s.processes, q.hasMutex = false)
  owner : ∀ owner, p'.phase.owner = some owner → owner.identity = some i
  probed : ∀ owner record, p'.phase = .holding owner (.probing record) →
    s.files.record = some record ∨ p.phase = .holding owner (.probing record)
  sole : p'.phase.isSole = true → ∀ (j : ℕ) (q : Process), s.processes[j]? = some q →
    q.alive = true → q.standing = true → j = i

theorem Guarded.moved {s : State} {i : ℕ} {p p' : Process} {files : Files} (h : Guarded s)
    (hp : s.processes[i]? = some p) (halive : p.alive = true) (hmoves : Moves s i p p' files) :
    Guarded { files, processes := s.processes.set i p' } := by
  have hpHas : p'.hasMutex = true → p'.phase.hasMutex = true :=
    fun hhas => (Bool.and_eq_true_iff.mp hhas).2
  have hhas : p.phase.hasMutex = true → p.hasMutex = true :=
    fun hhas => Bool.and_eq_true_iff.mpr ⟨halive, hhas⟩
  have hmem := List.mem_of_getElem? hp
  constructor
  · refine h.pids.set_of_holds hp fun pid hpid => ?_
    exact ⟨halive, hmoves.pid ▸ hpid.2⟩
  · apply h.one.set
    intro _ hnew j other hj hother
    rcases hmoves.comes (hpHas hnew) with hold | hnobody
    · exact h.one i j p other () hp hj (hhas hold) hother
    · rw [hnobody other (List.mem_of_getElem? hj)] at hother
      cases hother
  · intro q hq hqHas hnone
    obtain ⟨hleft, hwhy⟩ := hmoves.leaves hnone
    obtain ⟨j, hj⟩ := List.getElem?_of_mem hq
    obtain ⟨-, rfl⟩ | ⟨hij, hj⟩ := getElem?_set_cases hj
    · rw [hpHas hqHas] at hleft
      cases hleft
    · have hqMem := List.mem_of_getElem? hj
      rcases hwhy with hgone | hmine | hnobody
      · exact h.present q hqMem hqHas hgone
      · exact hij (h.one i j p q () hp hj (hhas hmine) hqHas)
      · rw [hnobody q hqMem] at hqHas
        cases hqHas
  · intro j q hj hqAlive owner howner
    obtain ⟨rfl, rfl⟩ | ⟨-, hj⟩ := getElem?_set_cases hj
    · exact hmoves.owner owner howner
    · exact h.owners j q hj hqAlive owner howner
  · intro j q hj hqAlive hstanding
    simp only [hmoves.record]
    obtain ⟨rfl, rfl⟩ | ⟨-, hj⟩ := getElem?_set_cases hj
    · rw [hmoves.pid]
      exact h.recorded i p hp halive (hmoves.standing ▸ hstanding)
    · exact h.recorded j q hj hqAlive hstanding
  · intro q hq hqAlive owner record hphase
    simp only [hmoves.record]
    rcases List.mem_or_eq_of_mem_set hq with hq | rfl
    · exact h.probed q hq hqAlive owner record hphase
    · rcases hmoves.probed owner record hphase with hread | hprobing
      · exact Or.inr hread
      · exact h.probed p hmem halive owner record hprobing
  · intro j q hj hqAlive hsole k r hk hrAlive hstanding
    have hbefore : ∀ (k : ℕ) (r : Process), (s.processes.set i p')[k]? = some r → r.alive = true →
        r.standing = true →
          ∃ r', s.processes[k]? = some r' ∧ r'.alive = true ∧ r'.standing = true := by
      intro k r hk hrAlive hstanding
      obtain ⟨rfl, rfl⟩ | ⟨-, hk⟩ := getElem?_set_cases hk
      · exact ⟨p, hp, halive, hmoves.standing ▸ hstanding⟩
      · exact ⟨r, hk, hrAlive, hstanding⟩
    obtain ⟨r', hk', hrAlive', hstanding'⟩ := hbefore k r hk hrAlive hstanding
    obtain ⟨rfl, rfl⟩ | ⟨-, hj⟩ := getElem?_set_cases hj
    · exact hmoves.sole hsole k r' hk' hrAlive' hstanding'
    · exact h.sole j q hj hqAlive hsole k r' hk' hrAlive' hstanding'

/-! ## The steps of a process -/

/-- A step that leaves the mutex path alone and gives the process nothing. -/
theorem Guarded.calm {s : State} {i : ℕ} {p p' : Process} {files : Files} (h : Guarded s)
    (hp : s.processes[i]? = some p) (halive : p.alive = true)
    (hsame : p'.pid = p.pid ∧ p'.alive = p.alive ∧ p'.standing = p.standing)
    (hfiles : files.mutex = s.files.mutex ∧ files.record = s.files.record)
    (hhas : p'.phase.hasMutex = true → p.phase.hasMutex = true)
    (howner : ∀ owner, p'.phase.owner = some owner → owner.identity = some i)
    (hprobed : ∀ owner record, p'.phase = .holding owner (.probing record) →
      s.files.record = some record)
    (hsole : p'.phase.isSole = true → ∀ (j : ℕ) (q : Process), s.processes[j]? = some q →
      q.alive = true → q.standing = true → j = i) : Moves s i p p' files where
  pid := hsame.1
  alive := hsame.2.1
  standing := hsame.2.2
  record := hfiles.2
  comes hcomes := Or.inl (hhas hcomes)
  leaves hnone := by
    rw [hfiles.1] at hnone
    refine ⟨?_, Or.inl hnone⟩
    cases hcomes : p'.phase.hasMutex with
    | false => rfl
    | true =>
        have hmine : p.hasMutex = true := Bool.and_eq_true_iff.mpr ⟨halive, hhas hcomes⟩
        rw [h.nobody hnone p (List.mem_of_getElem? hp)] at hmine
        cases hmine
  owner := howner
  probed owner record hphase := Or.inl (hprobed owner record hphase)
  sole := hsole

/-- What is left of a process that ends an attempt. -/
theorem Process.finish_cases (p : Process) (outcome : Outcome) :
    (p.finish outcome).pid = p.pid ∧ (p.finish outcome).alive = p.alive ∧
      (p.finish outcome).standing = p.standing ∧
      ((p.finish outcome).phase = .starting ∨ ∃ result, (p.finish outcome).phase = .ended result) := by
  cases outcome with
  | retry =>
      simp only [Process.finish]
      split
      · exact ⟨rfl, rfl, rfl, Or.inl rfl⟩
      · exact ⟨rfl, rfl, rfl, Or.inr ⟨_, rfl⟩⟩
  | _ => exact ⟨rfl, rfl, rfl, Or.inr ⟨_, rfl⟩⟩

/-- A process that ends an attempt has the mutex no more. -/
theorem Process.finish_idle (p : Process) (outcome : Outcome) :
    (p.finish outcome).phase.hasMutex = false ∧ (p.finish outcome).phase.owner = none ∧
      (p.finish outcome).phase.isSole = false ∧
      ∀ owner work, (p.finish outcome).phase ≠ .holding owner work := by
  obtain ⟨_, _, _, hphase | ⟨result, hphase⟩⟩ := p.finish_cases outcome
  · rw [hphase]
    exact ⟨rfl, rfl, rfl, fun _ _ h => by cases h⟩
  · rw [hphase]
    exact ⟨rfl, rfl, rfl, fun _ _ h => by cases h⟩

/-- The owner of a phase that comes from one with the same owner. -/
theorem Guarded.owner_of_eq {s : State} {i : ℕ} {p : Process} {phase : Phase} (h : Guarded s)
    (hp : s.processes[i]? = some p) (halive : p.alive = true)
    (hphase : phase.owner = p.phase.owner) :
    ∀ owner, phase.owner = some owner → owner.identity = some i := by
  intro owner howner
  exact h.owners i p hp halive owner (hphase ▸ howner)

/-- Whoever finds no record of a live supervisor but its own is the only one. -/
theorem Guarded.sole_of_none {s : State} (h : Guarded s) (hnone : s.files.record = none) :
    ∀ (j : ℕ) (q : Process), s.processes[j]? = some q → q.alive = true → q.standing = true →
      False := by
  intro j q hq hqAlive hstanding
  rw [h.recorded j q hq hqAlive hstanding] at hnone
  cases hnone

/-- A step of the claim, save the one that publishes. -/
theorem Process.work_moves {s : State} {i : ℕ} {p : Process} {choice : Choice}
    {owner : MutexOwner} {work : Work} (h : Guarded s) (hp : s.processes[i]? = some p)
    (halive : p.alive = true) (hphase : p.phase = .holding owner work)
    (hwork : work ≠ .publishing) :
    Moves s i p (p.work s choice owner work).2 (p.work s choice owner work).1 := by
  have hidentity : owner.identity = some i := h.owners i p hp halive owner (by rw [hphase]; rfl)
  -- Every phase it may come to has the mutex and the same owner.
  have hmove : ∀ phase : Phase, phase.owner = some owner →
      (∀ owner record, phase = .holding owner (.probing record) →
        s.files.record = some record) →
      (phase.isSole = true → ∀ (j : ℕ) (q : Process), s.processes[j]? = some q →
        q.alive = true → q.standing = true → j = i) →
      Moves s i p { p with phase } s.files := by
    intro phase howner hprobed hsole
    refine h.calm hp halive ⟨rfl, rfl, rfl⟩ ⟨rfl, rfl⟩ ?_ ?_ hprobed hsole
    · intro _
      rw [hphase]
      rfl
    · intro other hother
      rw [howner] at hother
      rw [← Option.some.inj hother]
      exact hidentity
  have hkeeps : p.phase.isSole = true → ∀ (j : ℕ) (q : Process), s.processes[j]? = some q →
      q.alive = true → q.standing = true → j = i :=
    fun hsole => h.sole i p hp halive hsole
  cases work with
  | guarded => exact hmove _ rfl (fun _ _ h => by cases h) (fun h => by cases h)
  | readingRecord =>
      simp only [Process.work]
      split
      · next hnone =>
          refine hmove _ rfl (fun _ _ h => by cases h) fun _ j q hq hqAlive hstanding => ?_
          exact (h.sole_of_none hnone j q hq hqAlive hstanding).elim
      · next record hrecord =>
          refine hmove _ rfl ?_ (fun h => by cases h)
          rintro _ _ ⟨⟩
          exact hrecord
  | probing record =>
      simp only [Process.work]
      split
      · exact hmove _ rfl (fun _ _ h => by cases h) (fun h => by cases h)
      · split
        · exact hmove _ rfl (fun _ _ h => by cases h) (fun h => by cases h)
        · next hothers =>
            refine hmove _ rfl (fun _ _ h => by cases h) fun _ j q hq hqAlive hstanding => ?_
            have hrecorded := h.recorded j q hq hqAlive hstanding
            rcases h.probed p (List.mem_of_getElem? hp) halive owner record hphase with
              hnone | hread
            · exact (h.sole_of_none hnone j q hq hqAlive hstanding).elim
            · -- The record that was read is that of a live process, so it is its own.
              obtain rfl := Option.some.inj (hread.symm.trans hrecorded)
              have hverifies : s.verifies choice ⟨q.pid, some j⟩ = true := by
                simp [State.verifies, h.identityOf hq hqAlive]
              have hpid : q.pid = p.pid := by
                by_contra hne
                exact hothers (by simp [hverifies, hne])
              exact h.pids j i q p q.pid hq hp ⟨hqAlive, rfl⟩ ⟨halive, hpid.symm⟩
  | writingTemp =>
      exact hmove _ rfl (fun _ _ h => by cases h) fun _ => hkeeps (by rw [hphase]; rfl)
  | validating =>
      simp only [Process.work]
      split
      · exact hmove _ rfl (fun _ _ h => by cases h) fun _ => hkeeps (by rw [hphase]; rfl)
      · exact hmove _ rfl (fun _ _ h => by cases h) (fun h => by cases h)
  | publishing => exact absurd rfl hwork

/-- A step of a process that contends for the mutex or gives it up, and moves no directory of a
process that has it. -/
theorem Process.next_moves {s : State} {i : ℕ} {p p' : Process} {choice : Choice} {files : Files}
    (h : Guarded s) (hp : s.processes[i]? = some p) (halive : p.alive = true)
    (hundisturbed : ∀ owner heldBy, p.phase = .breaking owner heldBy →
      s.files.mutex = none ∨ ∀ q ∈ s.processes, q.hasMutex = false)
    (hpublishing : ∀ owner, p.phase ≠ .holding owner .publishing)
    (hnext : p.next s choice = some (files, p')) : Moves s i p p' files := by
  -- A phase with the same owner in which the process has no more than before.
  have hmove : ∀ {phase : Phase} {files : Files}, files.mutex = s.files.mutex →
      files.record = s.files.record → (phase.hasMutex = true → p.phase.hasMutex = true) →
      (∀ owner, phase.owner = some owner → owner.identity = some i) →
      (∀ owner work, phase ≠ .holding owner work) → Moves s i p { p with phase } files := by
    intro phase files hmutex hrecord hhas howner hwork
    refine h.calm hp halive ⟨rfl, rfl, rfl⟩ ⟨hmutex, hrecord⟩ hhas howner ?_ ?_
    · exact fun owner record hphase => absurd hphase (hwork _ _)
    · intro hsole
      cases phase with
      | holding owner work => exact absurd rfl (hwork owner work)
      | _ => cases hsole
  have howners : ∀ {phase : Phase}, phase.owner = p.phase.owner →
      ∀ owner, phase.owner = some owner → owner.identity = some i :=
    fun hphase => h.owner_of_eq hp halive hphase
  have hnever : ∀ owner, (none : Option MutexOwner) = some owner → owner.identity = some i :=
    fun _ hnone => by cases hnone
  unfold Process.next at hnext
  split at hnext
  · split at hnext
    · cases hnext
      exact hmove rfl rfl (fun h => by cases h) hnever (fun _ _ h => by cases h)
    · cases hnext
      refine hmove rfl rfl (fun h => by cases h) ?_ (fun _ _ h => by cases h)
      intro owner howner
      rw [← Option.some.inj howner]
      exact h.identityOf hp halive
  · next owner hphase =>
      split at hnext
      · next hnone =>
          cases hnext
          exact ⟨rfl, rfl, rfl, rfl, fun _ => Or.inr (h.nobody hnone), (fun h => by cases h),
            howners (by rw [hphase]; rfl), (fun _ _ h => by cases h), fun h => by cases h⟩
      · cases hnext
        exact hmove rfl rfl (fun h => by cases h) (howners (by rw [hphase]; rfl))
          (fun _ _ h => by cases h)
  · next owner hphase =>
      split at hnext
      · cases hnext
        exact hmove rfl rfl (fun h => by cases h) hnever (fun _ _ h => by cases h)
      · cases hnext
        refine ⟨rfl, rfl, rfl, rfl, fun _ => Or.inl (by rw [hphase]; rfl), (fun h => by cases h),
          howners (by rw [hphase]; rfl), ?_, ?_⟩
        · intro _ _ h
          split at h <;> cases h
        · intro h
          split at h <;> cases h
  · next owner hphase =>
      cases hnext
      exact hmove rfl rfl (fun h => by cases h) (howners (by rw [hphase]; rfl))
        (fun _ _ h => by cases h)
  · next owner hphase =>
      split at hnext
      · cases hnext
        exact hmove rfl rfl (fun h => by cases h) (howners (by rw [hphase]; rfl))
          (fun _ _ h => by cases h)
      · split at hnext
        · cases hnext
          exact hmove rfl rfl (fun h => by cases h) (howners (by rw [hphase]; rfl))
            (fun _ _ h => by cases h)
        · split at hnext
          · cases hnext
            exact hmove rfl rfl (fun h => by cases h) hnever (fun _ _ h => by cases h)
          · cases hnext
            exact hmove rfl rfl (fun h => by cases h) (howners (by rw [hphase]; rfl))
              (fun _ _ h => by cases h)
  · next owner heldBy hphase =>
      split at hnext
      · cases hnext
        exact hmove rfl rfl (fun h => by cases h) (howners (by rw [hphase]; rfl))
          (fun _ _ h => by cases h)
      · split at hnext
        · cases hnext
          exact hmove rfl rfl (fun h => by cases h) hnever (fun _ _ h => by cases h)
        · cases hnext
          exact hmove rfl rfl (fun h => by cases h) (howners (by rw [hphase]; rfl))
            (fun _ _ h => by cases h)
  · next owner heldBy hphase =>
      split at hnext
      · cases hnext
        exact hmove rfl rfl (fun h => by cases h) (howners (by rw [hphase]; rfl))
          (fun _ _ h => by cases h)
      · next dir hdir =>
          cases hnext
          -- The directory is moved aside, and nobody has it.
          have hnobody := (hundisturbed owner heldBy hphase).resolve_left (by simp [hdir])
          exact ⟨rfl, rfl, rfl, rfl, (fun h => by cases h), fun _ => ⟨rfl, Or.inr (Or.inr hnobody)⟩,
            howners (by rw [hphase]; rfl), (fun _ _ h => by cases h), fun h => by cases h⟩
  · next owner heldBy aside hphase =>
      split at hnext
      · cases hnext
        exact hmove rfl rfl (fun h => by cases h) (howners (by rw [hphase]; rfl))
          (fun _ _ h => by cases h)
      · cases hnext
        exact hmove rfl rfl (fun h => by cases h) (howners (by rw [hphase]; rfl))
          (fun _ _ h => by cases h)
  · next owner aside hphase =>
      cases hnext
      have hpresent : putBack aside s.files.mutex ≠ none := by
        unfold putBack
        split <;> simp
      exact ⟨rfl, rfl, rfl, rfl, (fun h => by cases h), fun hnone => absurd hnone hpresent,
        howners (by rw [hphase]; rfl), (fun _ _ h => by cases h), fun h => by cases h⟩
  · next owner work hphase =>
      have hmoves : Moves s i p (p.work s choice owner work).2 (p.work s choice owner work).1 :=
        Process.work_moves h hp halive hphase fun hwork => hpublishing owner (hwork ▸ hphase)
      have hresult := Option.some.inj hnext
      rw [hresult] at hmoves
      exact hmoves
  · next owner outcome hphase =>
      split at hnext
      · cases hnext
        refine hmove rfl rfl ?_ (howners (by rw [hphase]; rfl)) (fun _ _ h => by cases h)
        intro _
        rw [hphase]
        rfl
      · cases hnext
        obtain ⟨hpid, hstays, hstanding, _⟩ := p.finish_cases outcome
        obtain ⟨hidle, hnoOwner, hnotSole, hnoWork⟩ := p.finish_idle outcome
        refine h.calm hp halive ⟨hpid, hstays, hstanding⟩ ⟨rfl, rfl⟩ ?_ ?_ ?_ ?_
        · exact fun h => by rw [hidle] at h; cases h
        · exact fun owner h => by rw [hnoOwner] at h; cases h
        · exact fun owner record h => absurd h (hnoWork _ _)
        · exact fun h => by rw [hnotSole] at h; cases h
  · next owner outcome hphase =>
      cases hnext
      obtain ⟨hpid, hstays, hstanding, _⟩ := p.finish_cases outcome
      obtain ⟨hidle, hnoOwner, hnotSole, hnoWork⟩ := p.finish_idle outcome
      refine ⟨hpid, hstays, hstanding, rfl, ?_, ?_, ?_, ?_, ?_⟩
      · exact fun h => by rw [hidle] at h; cases h
      · exact fun _ => ⟨hidle, Or.inr (Or.inl (by rw [hphase]; rfl))⟩
      · exact fun owner h => by rw [hnoOwner] at h; cases h
      · exact fun owner record h => absurd h (hnoWork _ _)
      · exact fun h => by rw [hnotSole] at h; cases h
  · cases hnext

/-! ## The other steps -/

/-- Publishing a record: nobody else's record stood. -/
theorem Guarded.published {s : State} {i : ℕ} {p : Process} {owner : MutexOwner} (h : Guarded s)
    (hp : s.processes[i]? = some p) (halive : p.alive = true)
    (hphase : p.phase = .holding owner .publishing) :
    Guarded
      { files := { s.files with record := some ⟨p.pid, owner.identity⟩ },
        processes := s.processes.set i
          { p with phase := .releasing owner .claimed, standing := true } } := by
  have hidentity : owner.identity = some i := h.owners i p hp halive owner (by rw [hphase]; rfl)
  have hsole := h.sole i p hp halive (by rw [hphase]; rfl)
  have hhas : p.hasMutex = true := by simp [Process.hasMutex, halive, hphase, Phase.hasMutex]
  constructor
  · exact h.pids.set_of_holds hp fun pid hpid => ⟨halive, hpid.2⟩
  · exact h.one.set_of_holds hp fun _ _ => hhas
  · intro q hq hqHas
    rcases List.mem_or_eq_of_mem_set hq with hq | rfl
    · exact h.present q hq hqHas
    · exact h.present p (List.mem_of_getElem? hp) hhas
  · intro j q hj hqAlive other hother
    obtain ⟨rfl, rfl⟩ | ⟨-, hj⟩ := getElem?_set_cases hj
    · rw [← Option.some.inj hother]
      exact hidentity
    · exact h.owners j q hj hqAlive other hother
  · intro j q hj hqAlive hstanding
    obtain ⟨rfl, rfl⟩ | ⟨hij, hj⟩ := getElem?_set_cases hj
    · rw [hidentity]
    · exact absurd (hsole j q hj hqAlive hstanding).symm hij
  · intro q hq hqAlive other record hprobing
    exfalso
    rcases List.mem_or_eq_of_mem_set hq with hq | rfl
    · -- Two processes would have the mutex.
      obtain ⟨j, hj⟩ := List.getElem?_of_mem hq
      have hqHas : q.hasMutex = true := by
        simp [Process.hasMutex, hqAlive, hprobing, Phase.hasMutex]
      obtain rfl := h.one i j p q () hp hj hhas hqHas
      obtain rfl := Option.some.inj (hp.symm.trans hj)
      rw [hphase] at hprobing
      cases hprobing
    · cases hprobing
  · intro j q hj hqAlive hqSole k r hk hrAlive hstanding
    obtain ⟨rfl, rfl⟩ | ⟨hij, hj⟩ := getElem?_set_cases hj
    · cases hqSole
    · have hqHas : q.hasMutex = true := by
        have hphaseHas : q.phase.hasMutex = true := by
          unfold Phase.isSole at hqSole
          split at hqSole <;> simp_all [Phase.hasMutex]
        exact Bool.and_eq_true_iff.mpr ⟨hqAlive, hphaseHas⟩
      exact absurd (h.one i j p q () hp hj hhas hqHas) hij

theorem Guarded.crash {s : State} {i : ℕ} {p : Process} (h : Guarded s)
    (hp : s.processes[i]? = some p) :
    Guarded { s with processes := s.processes.set i { p with alive := false } } := by
  have hdead : ({ p with alive := false } : Process).hasMutex = false := rfl
  constructor
  · exact h.pids.set_of_holds hp fun pid hpid => by cases hpid.1
  · exact h.one.set_of_holds hp fun _ hhas => by cases hhas
  · intro q hq hqHas
    rcases List.mem_or_eq_of_mem_set hq with hq | rfl
    · exact h.present q hq hqHas
    · cases hqHas
  · intro j q hj hqAlive
    obtain ⟨rfl, rfl⟩ | ⟨-, hj⟩ := getElem?_set_cases hj
    · cases hqAlive
    · exact h.owners j q hj hqAlive
  · intro j q hj hqAlive
    obtain ⟨rfl, rfl⟩ | ⟨-, hj⟩ := getElem?_set_cases hj
    · cases hqAlive
    · exact h.recorded j q hj hqAlive
  · intro q hq hqAlive
    rcases List.mem_or_eq_of_mem_set hq with hq | rfl
    · exact h.probed q hq hqAlive
    · cases hqAlive
  · intro j q hj hqAlive hqSole k r hk hrAlive hstanding
    obtain ⟨rfl, rfl⟩ | ⟨-, hj⟩ := getElem?_set_cases hj
    · cases hqAlive
    · obtain ⟨rfl, rfl⟩ | ⟨-, hk⟩ := getElem?_set_cases hk
      · cases hrAlive
      · exact h.sole j q hj hqAlive hqSole k r hk hrAlive hstanding

theorem Guarded.spawn {s : State} {pid : ℕ} {claims : Bool} (h : Guarded s)
    (hfree : ∀ p ∈ s.processes, ¬HasPid p pid) :
    Guarded { s with
      processes := s.processes ++ [⟨pid, true, claims, 0, .starting, false⟩] } := by
  constructor
  · intro i j first second shared hi hj hfirst hsecond
    obtain hi | ⟨rfl, rfl⟩ := getElem?_append_cases hi
    · obtain hj | ⟨rfl, rfl⟩ := getElem?_append_cases hj
      · exact h.pids i j first second shared hi hj hfirst hsecond
      · obtain rfl : pid = shared := hsecond.2
        exact absurd hfirst (hfree first (List.mem_of_getElem? hi))
    · obtain hj | ⟨rfl, rfl⟩ := getElem?_append_cases hj
      · obtain rfl : pid = shared := hfirst.2
        exact absurd hsecond (hfree second (List.mem_of_getElem? hj))
      · rfl
  · exact h.one.append fun _ hhas => by cases hhas
  · intro q hq hqHas
    rcases List.mem_append.mp hq with hq | hq
    · exact h.present q hq hqHas
    · rw [List.mem_singleton.mp hq] at hqHas
      cases hqHas
  · intro j q hj hqAlive owner howner
    obtain hj | ⟨rfl, rfl⟩ := getElem?_append_cases hj
    · exact h.owners j q hj hqAlive owner howner
    · cases howner
  · intro j q hj hqAlive hstanding
    obtain hj | ⟨rfl, rfl⟩ := getElem?_append_cases hj
    · exact h.recorded j q hj hqAlive hstanding
    · cases hstanding
  · intro q hq hqAlive owner record hphase
    rcases List.mem_append.mp hq with hq | hq
    · exact h.probed q hq hqAlive owner record hphase
    · rw [List.mem_singleton.mp hq] at hphase
      cases hphase
  · intro j q hj hqAlive hqSole k r hk hrAlive hstanding
    obtain hj | ⟨rfl, rfl⟩ := getElem?_append_cases hj
    · obtain hk | ⟨rfl, rfl⟩ := getElem?_append_cases hk
      · exact h.sole j q hj hqAlive hqSole k r hk hrAlive hstanding
      · cases hstanding
    · cases hqSole

/-- Once the record is removed, nobody's stands. -/
theorem Guarded.removeRecord {s : State} (h : Guarded s) :
    Guarded { files := { s.files with record := none },
              processes := s.processes.map fun p => { p with standing := false } } := by
  have hback : ∀ {j : ℕ} {q : Process},
      (s.processes.map fun p => { p with standing := false })[j]? = some q →
        ∃ p, s.processes[j]? = some p ∧ q = { p with standing := false } := by
    intro j q hj
    rw [List.getElem?_map] at hj
    obtain ⟨p, hp, rfl⟩ := Option.map_eq_some_iff.mp hj
    exact ⟨p, hp, rfl⟩
  constructor
  · intro i j first second pid hi hj hfirst hsecond
    obtain ⟨p, hp, rfl⟩ := hback hi
    obtain ⟨q, hq, rfl⟩ := hback hj
    exact h.pids i j p q pid hp hq hfirst hsecond
  · intro i j first second _ hi hj hfirst hsecond
    obtain ⟨p, hp, rfl⟩ := hback hi
    obtain ⟨q, hq, rfl⟩ := hback hj
    exact h.one i j p q () hp hq hfirst hsecond
  · intro q hq hqHas
    obtain ⟨p, hp, rfl⟩ := List.mem_map.mp hq
    exact h.present p hp hqHas
  · intro j q hj hqAlive owner howner
    obtain ⟨p, hp, rfl⟩ := hback hj
    exact h.owners j p hp hqAlive owner howner
  · intro j q hj hqAlive hstanding
    obtain ⟨p, hp, rfl⟩ := hback hj
    cases hstanding
  · exact fun _ _ _ _ _ _ => Or.inl rfl
  · intro j q hj hqAlive hqSole k r hk hrAlive hstanding
    obtain ⟨p, hp, rfl⟩ := hback hk
    cases hstanding

/-- Every step that is undisturbed keeps the invariant. -/
theorem step_guarded {s t : State} {action : Action} (h : Guarded s)
    (hundisturbed : Undisturbed s action = true) (hstep : step s action = some t) :
    Guarded t := by
  cases action with
  | spawn pid claims =>
      rw [step] at hstep
      split at hstep
      · cases hstep
      · next hfree =>
          cases hstep
          apply h.spawn
          intro p hp hpid
          exact hfree (List.any_eq_true.mpr ⟨p, hp, by simp [hpid.1, hpid.2]⟩)
  | step index choice =>
      obtain ⟨p, hp, hnext⟩ := Option.bind_eq_some_iff.mp hstep
      split at hnext
      · next halive =>
          obtain ⟨⟨files, p'⟩, hmove, rfl⟩ := Option.map_eq_some_iff.mp hnext
          by_cases hpublishing : ∃ owner, p.phase = .holding owner .publishing
          · obtain ⟨owner, hphase⟩ := hpublishing
            rw [Process.next, hphase] at hmove
            cases hmove
            exact h.published hp halive hphase
          · refine h.moved hp halive (Process.next_moves h hp halive ?_
              (fun owner hphase => hpublishing ⟨owner, hphase⟩) hmove)
            intro owner heldBy hphase
            obtain ⟨pid, alive, claims, attempt, phase, standing⟩ := p
            subst hphase
            rw [Undisturbed, hp] at hundisturbed
            rcases Bool.or_eq_true_iff.mp hundisturbed with hgone | hnobody
            · exact Or.inl (Option.isNone_iff_eq_none.mp hgone)
            · right
              intro q hq
              simpa using List.any_eq_false.mp (Bool.not_eq_true' _ ▸ hnobody) q hq
      · cases hnext
  | crash index =>
      obtain ⟨p, hp, rfl⟩ := Option.map_eq_some_iff.mp hstep
      exact h.crash hp
  | removeSupervisorFiles =>
      cases hstep
      exact h.removeRecord

/-- **The mutex.** In every run of any number of processes, with crashes at any step and pids
that are used again, in which no contender moves the directory of a process that has the mutex,
at most one live process holds the mutex and at most one that was answered that it has claimed
the record supervises, in every state. -/
theorem mutex_excludes {s t : State} {actions : List Action} (hinit : machine.init s)
    (hrun : machine.exec s actions = some t)
    (hundisturbed : machine.Meets (fun s action => Undisturbed s action = true) s actions) :
    Exclusive t :=
  (machine.exec_invariant (fun _ _ _ h hundisturbed hstep => step_guarded h hundisturbed hstep)
    (guarded_of_init hinit) hundisturbed hrun).exclusive

/-! ## A directory that is broken twice -/

/-- An update has crashed and left its mutex. -/
def crashedUpdate : State :=
  { files := { mutex := some ⟨some (.owner ⟨100, some 0, 0⟩)⟩, record := none, clock := 1 }
    processes := [⟨100, false, false, 0, .ended .threw, false⟩] }

/-- Every probe works, and nobody waits for long. -/
def prompt : Choice := ⟨false, false, false, false⟩

/-- The steps of one process. -/
def steps (index count : ℕ) : List Action := List.replicate count (.step index prompt)

/-- An update breaks the mutex of the crashed one, runs and ends; then a supervisor claims the
record. -/
def inTurn : List Action :=
  .spawn 200 false :: steps 1 11 ++ .spawn 300 true :: steps 2 9

/-- In `inTurn` no directory of a process that has the mutex is moved, and the supervisor is
the only one. -/
theorem mutex_excludes_inTurn :
    ∃ t, machine.exec crashedUpdate inTurn = some t ∧ Exclusive t ∧
      ∃ p ∈ t.processes, p.pid = 300 ∧ p.Supervises := by
  have hinit : machine.init crashedUpdate := by simp [machine, crashedUpdate]
  have hundisturbed : machine.Meets (fun s action => Undisturbed s action = true) crashedUpdate
      inTurn := by decide
  exact ⟨_, rfl, mutex_excludes hinit rfl hundisturbed, _,
    List.mem_cons_of_mem _ (List.mem_cons_of_mem _ List.mem_cons_self), rfl, rfl, rfl, rfl⟩

/-- Two updates find the mutex of the crashed one. The second has judged it dead when the first
breaks it and takes the mutex; the second then moves the directory of the first aside, and a
start makes one of its own. -/
def brokenTwice : List Action :=
  .spawn 200 false :: .spawn 300 false :: .spawn 400 false ::
    (steps 2 4 ++ steps 1 8 ++ steps 2 1 ++ steps 3 3)

/-- The first update and the start then run together. -/
theorem two_processes_hold_the_mutex :
    ¬ ∀ (s t : State) (actions : List Action), machine.init s →
      machine.exec s actions = some t → Exclusive t := by
  intro hall
  have hinit : machine.init crashedUpdate := by simp [machine, crashedUpdate]
  have hexclusive := hall crashedUpdate _ brokenTwice hinit rfl
  have heq := hexclusive.mutex 1 3 _ _ () rfl rfl ⟨rfl, _, _, rfl⟩ ⟨rfl, _, _, rfl⟩
  exact absurd heq (by decide)

end Eveland.CtlMutex
