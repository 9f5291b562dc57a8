/-
# Writes of the memory backend form a chain

What a call has read is still stored when it renames its document, as long as its own lock file is
at the path. The lock file of such a call is lost to a waiter that has looked at an older one, to
a stall past the limit, and to a release that removes the file of another; where none of these
happens, the writes form a single chain.
-/

import Eveland.Memory.Backend

namespace Eveland.Memory

section Runs

variable {ι : Type*} [DecidableEq ι] (call : ι → Call)

/-! ## Runs that keep the lock -/

/-- The step takes no lock file away from a call that still needs it, and no write starts at the
version whose successor is rounded back. -/
def KeepsLock (s : State ι) : Action ι → Bool
  | .next i =>
      match s.phase i with
      | .renamingLock | .releasing _ => s.lock.all fun lock => !(s.phase lock.owner).isCritical
      | .reading =>
          s.document.all fun document =>
            document.version < maxVersion || versionOf s.document ≠ (call i).expectedVersion
      | _ => true
  | _ => true

/-- The lock file at the path is the call's own. -/
def Holds (s : State ι) (i : ι) : Prop := ∃ lock, s.lock = some lock ∧ lock.owner = i

/-- The call has replaced nothing yet. -/
def Unwritten (s : State ι) (i : ι) : Prop := ∀ replacement ∈ s.log, replacement.writer ≠ i

/-- The document is the call's replacement. -/
def Written (s : State ι) (i : ι) (document : Document) : Prop :=
  ∃ replacement ∈ s.log, replacement.writer = i ∧ replacement.next = document

/-- The stored document has the expected version, and the one to replace it a later one. -/
structure Prepared (s : State ι) (i : ι) (next : Document) : Prop where
  expected : (call i).expectedVersion = versionOf s.document
  positive : 1 ≤ next.version
  later : ∀ current, s.document = some current → current.version < next.version

/-- What is so of the files while a call is at a step. -/
def Fits (s : State ι) (i : ι) : Phase → Prop
  | .reading => Holds s i ∧ Unwritten s i
  | .writingTemp next | .renamingTemp next =>
      Holds s i ∧ Unwritten s i ∧ Prepared call s i next
  | .releasing (some document) | .succeeded document => Written s i document
  | .crashed => True
  | _ => Unwritten s i

/-- The documents there have been, newest first. -/
def State.chain (start : Option Document) (s : State ι) : List Document :=
  s.log.map Replacement.next ++ start.toList

/-- Every call is where the files have it, and the replacements so far are a chain with falling
versions. -/
structure Chained (start : Option Document) (s : State ι) : Prop where
  fits : ∀ i, Fits call s i (s.phase i)
  linked : Linked start s.log s.document
  expected : ∀ replacement ∈ s.log, replacement.expected = versionOf replacement.before
  positive : ∀ document, s.document = some document → 1 ≤ document.version
  falling : (s.chain start).Pairwise fun newer older => older.version < newer.version
  latest : ∀ document ∈ s.chain start,
    ∃ current, s.document = some current ∧ document.version ≤ current.version
  reads : ∀ document, some document ∈ s.reads → document ∈ s.chain start

variable {call} {start : Option Document}

omit [DecidableEq ι] in
/-- The stored document is the first of its chain. -/
theorem Linked.mem {log : List (Replacement ι)} {document : Document}
    (hlinked : Linked start log (some document)) :
    document ∈ log.map Replacement.next ++ start.toList := by
  cases log with
  | nil =>
      have hstart : some document = start := hlinked
      simp [← hstart]
  | cons replacement older =>
      have hnext := Option.some.inj hlinked.1
      simp [hnext]

omit [DecidableEq ι] in
/-- A call at a critical step has its lock file. -/
theorem Fits.holds {s : State ι} {i : ι} {phase : Phase} (hfits : Fits call s i phase)
    (hcritical : phase.isCritical = true) : Holds s i := by
  cases phase with
  | reading => exact hfits.1
  | writingTemp next => exact hfits.1
  | renamingTemp next => exact hfits.1
  | _ => simp [Phase.isCritical] at hcritical

omit [DecidableEq ι] in
/-- A call that has not come to its release, or failed, has replaced nothing. -/
theorem Fits.unwritten {s : State ι} {i : ι} {phase : Phase} (hfits : Fits call s i phase)
    (hwritten : ∀ document, phase ≠ .releasing (some document) ∧ phase ≠ .succeeded document)
    (hcrashed : phase ≠ .crashed) : Unwritten s i := by
  cases phase with
  | reading => exact hfits.2
  | writingTemp next => exact hfits.2.1
  | renamingTemp next => exact hfits.2.1
  | releasing result =>
      cases result with
      | none => exact hfits
      | some document => exact absurd rfl (hwritten document).1
  | succeeded document => exact absurd rfl (hwritten document).2
  | crashed => exact absurd rfl hcrashed
  | _ => exact hfits

omit [DecidableEq ι] in
/-- A call is where it was while no replacement is added, and, as long as it needs its lock file,
the lock file and the document stay. -/
theorem Fits.congr {s t : State ι} {i : ι} {phase : Phase} (hfits : Fits call s i phase)
    (hlog : t.log = s.log)
    (hsame : phase.isCritical = true → t.lock = s.lock ∧ t.document = s.document) :
    Fits call t i phase := by
  have hunwritten : Unwritten s i → Unwritten t i := by
    intro h
    rw [Unwritten, hlog]
    exact h
  have hwritten : ∀ document, Written s i document → Written t i document := by
    intro document h
    rw [Written, hlog]
    exact h
  have hholds : t.lock = s.lock → Holds s i → Holds t i := by
    intro hlock h
    rw [Holds, hlock]
    exact h
  have hprepared : ∀ next, t.document = s.document → Prepared call s i next →
      Prepared call t i next := by
    intro next hdocument h
    refine ⟨by rw [hdocument]; exact h.expected, h.positive, ?_⟩
    rw [hdocument]
    exact h.later
  cases phase with
  | reading =>
      obtain ⟨hlock, _⟩ := hsame rfl
      exact ⟨hholds hlock hfits.1, hunwritten hfits.2⟩
  | writingTemp next | renamingTemp next =>
      obtain ⟨hlock, hdocument⟩ := hsame rfl
      exact ⟨hholds hlock hfits.1, hunwritten hfits.2.1, hprepared next hdocument hfits.2.2⟩
  | releasing result =>
      cases result with
      | none => exact hunwritten hfits
      | some document => exact hwritten document hfits
  | succeeded document => exact hwritten document hfits
  | crashed => trivial
  | _ => exact hunwritten hfits

/-! ## What a step leaves -/

/-- Of the fields of a state, only the place of the call changes. -/
theorem Chained.move {s : State ι} (h : Chained call start s) (i : ι) {phase : Phase}
    (hfits : Fits call s i phase) : Chained call start (s.move i phase) where
  fits := by
    intro j
    simp only [State.move, Function.update_apply]
    split
    · next hji =>
        subst j
        exact hfits.congr rfl fun _ => ⟨rfl, rfl⟩
    · exact (h.fits j).congr rfl fun _ => ⟨rfl, rfl⟩
  linked := h.linked
  expected := h.expected
  positive := h.positive
  falling := h.falling
  latest := h.latest
  reads := h.reads

omit [DecidableEq ι] in
/-- Only the call whose lock file is at the path is at a critical step. -/
theorem Chained.owner {s : State ι} (h : Chained call start s) {i : ι}
    (hcritical : (s.phase i).isCritical = true) :
    ∃ lock, s.lock = some lock ∧ lock.owner = i :=
  (h.fits i).holds hcritical

omit [DecidableEq ι] in
/-- Where the call that has created the lock file does not need it, no call does. -/
theorem Chained.idle {s : State ι} (h : Chained call start s)
    (hfree : (s.lock.all fun lock => !(s.phase lock.owner).isCritical) = true) (i : ι) :
    (s.phase i).isCritical = false := by
  cases hcritical : (s.phase i).isCritical with
  | false => rfl
  | true =>
      obtain ⟨lock, hlock, rfl⟩ := h.owner hcritical
      rw [hlock] at hfree
      simp [hcritical] at hfree

omit [DecidableEq ι] in
/-- A change of the lock file that no call needs. -/
theorem Chained.setLock {s : State ι} (h : Chained call start s)
    (hidle : ∀ i, (s.phase i).isCritical = false) (lock : Option (LockFile ι)) :
    Chained call start { s with lock := lock } where
  fits i := by
    refine (h.fits i).congr rfl fun hcritical => ?_
    rw [hidle i] at hcritical
    cases hcritical
  linked := h.linked
  expected := h.expected
  positive := h.positive
  falling := h.falling
  latest := h.latest
  reads := h.reads

/-- The exclusive create of the lock file. -/
theorem Chained.create {s : State ι} (h : Chained call start s) {i : ι}
    (hphase : s.phase i = .opening) (hlock : s.lock = none) :
    Chained call start
      { s.move i .reading with lock := some { mtime := s.clock, owner := i } } := by
  have hidle := h.idle (by rw [hlock]; rfl)
  have hunwritten : Unwritten s i := by
    have hfits := h.fits i
    rw [hphase] at hfits
    exact hfits
  apply (h.setLock hidle (some { mtime := s.clock, owner := i })).move i
  exact ⟨⟨_, rfl, rfl⟩, hunwritten⟩

/-- The rename of a document over the one it was based on. -/
theorem Chained.replace {s : State ι} (h : Chained call start s) {i : ι} {next : Document}
    (hphase : s.phase i = .renamingTemp next) :
    Chained call start
      ((s.replace i (call i).expectedVersion next).move i (.releasing (some next))) := by
  have hfits := h.fits i
  rw [hphase] at hfits
  obtain ⟨⟨lock, hlock, howner⟩, _, hprepared⟩ := hfits
  have hlater : ∀ document ∈ s.chain start, document.version < next.version := by
    intro document hmem
    obtain ⟨current, hcurrent, hle⟩ := h.latest document hmem
    exact Nat.lt_of_le_of_lt hle (hprepared.later current hcurrent)
  -- No other call is at a critical step: the lock file is this one's.
  have hothers : ∀ j, j ≠ i → (s.phase j).isCritical = false := by
    intro j hne
    cases hcritical : (s.phase j).isCritical with
    | false => rfl
    | true =>
        obtain ⟨lock', hlock', howner'⟩ := h.owner hcritical
        rw [hlock] at hlock'
        cases hlock'
        exact absurd (howner'.symm.trans howner) hne
  constructor
  · intro j
    simp only [State.move, Function.update_apply]
    split
    · next hji =>
        subst j
        exact ⟨_, List.mem_cons_self, rfl, rfl⟩
    · next hji =>
        have hj := h.fits j
        have hidle := hothers j hji
        have hunwritten : Unwritten s j → Unwritten
            ({ s.replace i (call i).expectedVersion next with
                phase := Function.update s.phase i (.releasing (some next)) }) j := by
          intro hold replacement hmem
          rcases List.mem_cons.mp hmem with rfl | hmem
          · exact fun heq => hji heq.symm
          · exact hold replacement hmem
        change Fits call ({ s.replace i (call i).expectedVersion next with
                phase := Function.update s.phase i (.releasing (some next)) }) j (s.phase j)
        revert hj hidle
        cases s.phase j with
        | reading => exact fun _ hidle => by cases hidle
        | writingTemp document => exact fun _ hidle => by cases hidle
        | renamingTemp document => exact fun _ hidle => by cases hidle
        | releasing result =>
            cases result with
            | none => exact fun hj _ => hunwritten hj
            | some document =>
                rintro ⟨replacement, hmem, hfound⟩ _
                exact ⟨replacement, List.mem_cons_of_mem _ hmem, hfound⟩
        | succeeded document =>
            rintro ⟨replacement, hmem, hfound⟩ _
            exact ⟨replacement, List.mem_cons_of_mem _ hmem, hfound⟩
        | crashed => exact fun _ _ => trivial
        | _ => exact fun hj _ => hunwritten hj
  · exact ⟨rfl, h.linked⟩
  · intro replacement hmem
    rcases List.mem_cons.mp hmem with rfl | hmem
    · exact hprepared.expected
    · exact h.expected replacement hmem
  · intro document hdocument
    cases hdocument
    exact hprepared.positive
  · exact List.Pairwise.cons hlater h.falling
  · intro document hmem
    refine ⟨next, rfl, ?_⟩
    rcases List.mem_cons.mp hmem with rfl | hmem
    · exact Nat.le_refl _
    · exact Nat.le_of_lt (hlater document hmem)
  · intro document hmem
    exact List.mem_cons_of_mem _ (h.reads document hmem)

omit [DecidableEq ι] in
/-- A version whose successor is not rounded back has a later one after it. -/
theorem prepared_of_read {s : State ι} {i : ι} {content : String}
    {expectedVersion : Option String} (hcall : call i = .write content expectedVersion)
    (hversion : versionOf s.document = expectedVersion)
    (hbound : ∀ document, s.document = some document → document.version < maxVersion) :
    Prepared call s i (nextDocument s.document content) := by
  constructor
  · rw [hcall]
    exact hversion.symm
  · cases hdocument : s.document with
    | none => exact Nat.le_refl 1
    | some document =>
        have hlt := hbound document hdocument
        simp [nextDocument, bumpVersion, hlt]
  · intro current hcurrent
    have hlt := hbound current hcurrent
    simp [hcurrent, nextDocument, bumpVersion, hlt]

/-- A call compares the version under its lock. -/
theorem Chained.read {s : State ι} (h : Chained call start s) {i : ι}
    (hkeeps : KeepsLock call s (.next i) = true) (hphase : s.phase i = .reading) :
    Chained call start (s.move i ((call i).afterRead s.document)) := by
  have hfits := h.fits i
  rw [hphase] at hfits
  obtain ⟨hholds, hunwritten⟩ := hfits
  apply h.move i
  cases hcall : call i with
  | read => exact hunwritten
  | write content expectedVersion =>
      simp only [Call.afterRead]
      split
      · next hversion =>
          refine ⟨hholds, hunwritten, prepared_of_read hcall hversion ?_⟩
          intro document hdocument
          simpa [KeepsLock, hphase, hdocument, hcall, Call.expectedVersion, ← hversion]
            using hkeeps
      · exact hunwritten

/-- The next step of a call keeps the chain. -/
theorem Chained.next {s t : State ι} {i : ι} (h : Chained call start s)
    (hkeeps : KeepsLock call s (.next i) = true) (hnext : next call s i = some t) :
    Chained call start t := by
  have hfits := h.fits i
  unfold Memory.next at hnext
  cases hphase : s.phase i with
  | waiting =>
      rw [hphase] at hnext hfits
      cases hcall : call i with
      | read =>
          rw [hcall] at hnext
          cases hnext
          have hmoved : Chained call start (s.move i (.returned s.document)) := h.move i hfits
          refine ⟨fun j => (hmoved.fits j).congr rfl fun _ => ⟨rfl, rfl⟩, h.linked, h.expected,
            h.positive, h.falling, h.latest, ?_⟩
          intro document hmem
          rcases List.mem_cons.mp hmem with hread | hmem
          · apply Linked.mem
            rw [hread]
            exact h.linked
          · exact h.reads document hmem
      | write content expectedVersion =>
          rw [hcall] at hnext
          cases hnext
          exact h.move i hfits
  | opening =>
      rw [hphase] at hnext hfits
      cases hlock : s.lock with
      | none =>
          simp only [hlock] at hnext
          cases hnext
          exact h.create hphase hlock
      | some lock =>
          simp only [hlock] at hnext
          cases hnext
          exact h.move i hfits
  | stating =>
      rw [hphase] at hnext hfits
      dsimp only at hnext
      split at hnext <;> cases hnext
      · exact h.move i hfits
      · exact h.move i hfits
  | judging heldSince =>
      rw [hphase] at hnext hfits
      dsimp only at hnext
      split at hnext <;> cases hnext
      · exact h.move i hfits
      · exact h.move i hfits
  | delaying =>
      rw [hphase] at hnext hfits
      cases hnext
      exact h.move i hfits
  | renamingLock =>
      rw [hphase] at hnext hfits
      simp only [KeepsLock, hphase] at hkeeps
      dsimp only at hnext
      split at hnext <;> cases hnext
      · exact h.move i hfits
      · exact (h.setLock (h.idle hkeeps) none).move i hfits
  | discarding =>
      rw [hphase] at hnext hfits
      cases hnext
      exact h.move i hfits
  | reading =>
      rw [hphase] at hnext
      cases hnext
      exact h.read hkeeps hphase
  | writingTemp document =>
      rw [hphase] at hnext hfits
      cases hnext
      exact h.move i hfits
  | renamingTemp document =>
      rw [hphase] at hnext
      cases hnext
      exact h.replace hphase
  | releasing result =>
      rw [hphase] at hnext hfits
      simp only [KeepsLock, hphase] at hkeeps
      cases hnext
      have hunlocked := h.setLock (h.idle hkeeps) none
      cases result with
      | none => exact hunlocked.move i hfits
      | some document => exact hunlocked.move i hfits
  | succeeded document =>
      rw [hphase] at hnext
      cases hnext
  | failed =>
      rw [hphase] at hnext
      cases hnext
  | returned document =>
      rw [hphase] at hnext
      cases hnext
  | crashed =>
      rw [hphase] at hnext
      cases hnext

/-- A call that is aborted has replaced nothing. -/
theorem Chained.abort {s t : State ι} {i : ι} (h : Chained call start s)
    (habort : abort s i = some t) : Chained call start t := by
  have hfits := h.fits i
  unfold Memory.abort at habort
  cases hphase : s.phase i with
  | waiting | opening | delaying =>
      rw [hphase] at habort hfits
      cases habort
      exact h.move i hfits
  | reading =>
      rw [hphase] at habort hfits
      cases habort
      exact h.move i hfits.2
  | writingTemp next =>
      rw [hphase] at habort hfits
      cases habort
      exact h.move i hfits.2.1
  | _ =>
      rw [hphase] at habort
      cases habort

theorem Chained.step {s t : State ι} {a : Action ι} (h : Chained call start s)
    (hkeeps : KeepsLock call s a = true) (hstep : step call s a = some t) :
    Chained call start t := by
  cases a with
  | next i => exact h.next hkeeps hstep
  | abort i => exact h.abort hstep
  | crash i =>
      simp only [Memory.step] at hstep
      split at hstep
      · cases hstep
      · cases hstep
        exact h.move i trivial
  | pass ms =>
      cases hstep
      exact ⟨fun i => (h.fits i).congr rfl fun _ => ⟨rfl, rfl⟩, h.linked, h.expected,
        h.positive, h.falling, h.latest, h.reads⟩

omit [DecidableEq ι] in
theorem chained_of_initial {s : State ι} (hinit : Initial s) : Chained call s.document s := by
  have hchain : s.chain s.document = s.document.toList := by
    rw [State.chain, hinit.log]
    rfl
  constructor
  · intro i
    rw [hinit.phase i]
    intro replacement hmem
    rw [hinit.log] at hmem
    cases hmem
  · rw [hinit.log]
    rfl
  · intro replacement hmem
    rw [hinit.log] at hmem
    cases hmem
  · exact hinit.version
  · rw [hchain]
    cases s.document <;> simp
  · intro document hmem
    rw [hchain] at hmem
    exact ⟨document, by simpa using hmem, Nat.le_refl _⟩
  · intro document hmem
    rw [hinit.reads] at hmem
    cases hmem

omit [DecidableEq ι] in
theorem Chained.singleChain {s : State ι} (h : Chained call start s) : SingleChain start s where
  linked := h.linked
  expected := h.expected
  versions := by
    apply List.Pairwise.map Document.version _ h.falling
    intro newer older hlt
    exact Nat.ne_of_gt hlt
  reads := h.reads
  succeeded := by
    intro i document hphase
    have hfits := h.fits i
    rw [hphase] at hfits
    exact hfits
  failed := by
    intro i hphase
    apply (h.fits i).unwritten <;> simp [hphase]

end Runs

/-- In every run of any number of reads and writes on one key, file-system step by file-system
step, with stalls, aborts and crashes, in which no step takes the lock file away from a call that
still needs it and no write starts at the version whose successor is rounded back, the writes
form a single chain in every state. -/
theorem writes_form_chain {ι : Type*} [DecidableEq ι] (call : ι → Call) {s : State ι}
    {actions : List (Action ι)} (hinit : (machine call).init s)
    (hkeeps : (machine call).Meets (fun s a => KeepsLock call s a = true) s actions) :
    (machine call).Always (SingleChain s.document) s actions := by
  have hchained : Chained call s.document s := chained_of_initial hinit
  exact (machine call).always_of_meets (fun _ _ _ h hkeeps hstep => h.step hkeeps hstep)
    (fun _ h => h.singleChain) hchained hkeeps

/-! ## A lock file that was left behind -/

/-- Two writes and a read. -/
def sampleCalls (expectedVersion : Option String) (i : ℕ) : Call :=
  if i = 0 then .write "first" none
  else if i = 1 then .write "second" expectedVersion
  else .read

/-- Nothing is stored, and there is a lock file from long ago. -/
def abandoned : State ℕ where
  clock := 20000
  lock := some { mtime := 0, owner := 2 }
  document := none
  phase _ := .waiting
  log := []
  reads := []

theorem abandoned_initial : Initial abandoned :=
  ⟨by simp [abandoned], fun _ => rfl, rfl, rfl⟩

/-- The next steps of a call. -/
def steps (i count : ℕ) : List (Action ℕ) := List.replicate count (.next i)

/-- One write takes the lock file over and stores its document, then the other does, and the
document is read. -/
def inTurn : List (Action ℕ) := steps 0 11 ++ steps 1 6 ++ steps 2 1

theorem writes_form_chain_inTurn :
    ∃ t, (machine (sampleCalls (some "1"))).exec abandoned inTurn = some t ∧
      SingleChain none t ∧ t.document = some ⟨"second", 2⟩ ∧ t.reads = [t.document] := by
  have hkeeps : (machine (sampleCalls (some "1"))).Meets
      (fun s a => KeepsLock (sampleCalls (some "1")) s a = true) abandoned inTurn := by
    decide +kernel
  have halways := writes_form_chain (sampleCalls (some "1")) abandoned_initial hkeeps
  exact ⟨_, rfl, halways.of_exec rfl, rfl, rfl⟩

/-- Two writes find the lock file too old. One takes it over, creates its own and reads; then the
other moves that one away, creates its own and reads, and both replace the same version. -/
def bothTakeOver : List (Action ℕ) :=
  steps 0 4 ++ steps 1 4 ++ steps 0 4 ++ steps 1 4 ++ steps 0 3 ++ steps 1 3

theorem waiters_lose_write :
    ¬ ∀ (call : ℕ → Call) (s : State ℕ) (actions : List (Action ℕ)),
      (machine call).init s → (machine call).Always (SingleChain s.document) s actions := by
  intro hall
  have halways := hall (sampleCalls none) abandoned bothTakeOver abandoned_initial
  have hchain := halways.of_exec rfl
  have hexpected := hchain.expected _ List.mem_cons_self
  exact absurd hexpected (by decide)

end Eveland.Memory
