/-
# A preflight becomes one project

A step of `PreflightConsumption` has one of six effects, and each of them keeps what the locks
guarantee. As long as no recovery statement takes a preflight that has been consumed, it also
keeps that a preflight is consumed exactly when one call has created a project and a job from
it.
-/

import Eveland.Store.PreflightConsumption

namespace Eveland.SourcePreflights

/-- The session holds the lock on the row. -/
abbrev Holds (session : Session) (id : String) : Prop := session.holds id = true

/-- What a call has put together belongs together. -/
def CreateCall.Sound (call : CreateCall) : Prop :=
  (∀ preflight, call.phase.preflight? = some preflight →
    preflight.id = call.input.preflightId) ∧
  match call.phase with
  | .jobInserted preflight project job => job.projectId = project.id ∧
      job.payload.sourcePath = preflight.sourcePath
  | .marked preflight project job _ => job.projectId = project.id ∧
      job.payload.sourcePath = preflight.sourcePath
  | .ended (.created preflight project job) => preflight.id = call.input.preflightId ∧
      job.projectId = project.id ∧ job.payload.sourcePath = preflight.sourcePath
  | _ => True

/-- The call has created a project. -/
def CreatePhase.isCreated : CreatePhase → Bool
  | .ended (.created _ _ _) => true
  | _ => false

/-- A session that moves on, without a write to the preflights. -/
inductive Moves (s : System) (a : Action) : Session → Session → Prop
  | call (call : CreateCall) (phase : CreatePhase)
      (hopen : call.phase.isCreated = false) (hnot : phase.isCreated = false)
      (hlocks : ∀ preflight, phase.preflight? = some preflight →
        call.phase.preflight? = some preflight ∨
          preflight ∈ s.preflights ∧ preflight.status = .completed ∧ s.locked preflight.id = false)
      (hsound : call.Sound → ({ call with phase } : CreateCall).Sound) :
      Moves s a (.create call) (.create { call with phase })
  | sweep (old new : Sweep) (hopen : old.deleted = none) (hkind : new.kind = old.kind)
      (hdeleted : new.deleted = none ∨ new.deleted = some [])
      (hlocks : ∀ id ∈ new.held, id ∈ old.held ∨ s.locked id = false ∧
        (new.kind = .recover → requeuesConsumed s a = false →
          ∀ row ∈ s.preflights, row.id = id → row.status ≠ .consumed)) :
      Moves s a (.sweep old) (.sweep new)

/-- A session that begins holds nothing and has done nothing. -/
inductive Begins : Session → Prop
  | call (input : ProjectInput) (now : ℤ) : Begins (.create ⟨input, now, .called⟩)
  | sweep (kind : SweepKind) (now : ℤ) (candidates : List String) :
      Begins (.sweep ⟨kind, now, candidates, [], none⟩)

/-- What a step does. -/
inductive Effect (s : System) (a : Action) : System → Prop
  /-- A preflight is created. -/
  | submitted (input : PreflightInput) (id : String) (now : ℤ) (hfresh : id ∉ s.issued) :
      Effect s a { s with
        preflights := s.preflights ++ [createSourcePreflight input id now]
        issued := s.issued ++ [id] }
  /-- A worker claims a preflight or settles its attempt, where no session has it locked. -/
  | worked (p : SourcePreflight → Bool) (f : SourcePreflight → SourcePreflight)
      (claims : List (String × ℕ))
      (hrow : ∀ row ∈ s.preflights, p row = true → s.locked row.id = false ∧
        (row.status = .queued ∨ row.status = .running) ∧ (f row).status ≠ .consumed)
      (hkeep : ∀ row, (f row).id = row.id ∧ row.attempts ≤ (f row).attempts)
      (hclaims : claims = s.claims ∨ ∃ row ∈ s.preflights, p row = true ∧
        row.attempts < (f row).attempts ∧ claims = s.claims ++ [(row.id, (f row).attempts)]) :
      Effect s a { s with preflights := Table.updateWhere p f s.preflights, claims }
  | began (new : Session) (hnew : Begins new) :
      Effect s a { s with sessions := s.sessions ++ [new] }
  | moved (i : ℕ) (old new : Session) (hold : s.sessions[i]? = some old)
      (hmoves : Moves s a old new) :
      Effect s a { s with sessions := s.sessions.set i new }
  | committed (i : ℕ) (call : CreateCall) (preflight : SourcePreflight) (project : ProjectRow)
      (job : ImportJob) (now : ℤ) (hold : s.sessions[i]? = some (.create call))
      (hphase : call.phase = .marked preflight project job now) :
      Effect s a (commit s i call preflight project job now)
  | finished (i : ℕ) (sweep : Sweep) (hold : s.sessions[i]? = some (.sweep sweep))
      (hopen : sweep.deleted = none) :
      Effect s a (finish s i sweep)

variable {s s₀ t : System} {a : Action} {i : ℕ}

theorem call?_eq_some {call : CreateCall} :
    s.call? i = some call ↔ s.sessions[i]? = some (.create call) := by
  unfold System.call?
  split
  · next other hi => simp [hi]
  · next hnot =>
      constructor
      · intro h
        cases h
      · exact fun hi => absurd hi (hnot call)

theorem sweep?_eq_some {sweep : Sweep} :
    s.sweep? i = some sweep ↔ s.sessions[i]? = some (.sweep sweep) ∧ sweep.deleted = none := by
  unfold System.sweep?
  split
  · next other hi =>
      rw [hi]
      constructor
      · intro hsweep
        split at hsweep
        · next hnone =>
            cases hsweep
            exact ⟨rfl, Option.isNone_iff_eq_none.mp hnone⟩
        · cases hsweep
      · rintro ⟨hsame, hnone⟩
        cases hsame
        simp [hnone]
  · next hnot =>
      constructor
      · intro h
        cases h
      · exact fun hi => absurd hi.1 (hnot sweep)

theorem locked_eq_false {id : String} :
    s.locked id = false ↔ RowLocks.Free Holds s.sessions id := by
  simp [System.locked, RowLocks.Free, Holds]

/-! ## The effect of a step -/

theorem claim_effect (hunique : Table.UniqueOn SourcePreflight.id s.preflights) {id : String}
    {now : ℤ} (hclaim : claim s id now = some t) : Effect s a t := by
  obtain ⟨row, hrow, hclaim⟩ := Option.bind_eq_some_iff.mp hclaim
  split at hclaim
  · next hchecks =>
      cases hclaim
      obtain ⟨hclaimable, hfree⟩ := Bool.and_eq_true_iff.mp hchecks
      have hmem : row ∈ s.preflights := List.mem_of_find?_eq_some hrow
      have hid : row.id = id := by simpa using List.find?_some hrow
      refine .worked _ _ _ ?_ (fun row => ⟨rfl, Nat.le_succ _⟩)
        (Or.inr ⟨row, hmem, by simpa using hid, Nat.lt_succ_self _, by rw [hid]; rfl⟩)
      intro other hother hp
      have hsame : other = row :=
        hunique.eq hother hmem ((of_decide_eq_true hp).trans hid.symm)
      subst hsame
      have hqueued := (Bool.and_eq_true_iff.mp hclaimable).1
      exact ⟨by simpa [hid] using hfree, Or.inl (of_decide_eq_true hqueued), by
        simp [SourcePreflight.claimed]⟩
  · cases hclaim

theorem attempt_effect {call : AttemptCall} {id : String} {attempts : ℕ} {now : ℤ}
    (hattempt : attempt s call id attempts now = some t) : Effect s a t := by
  rw [attempt, attemptSourcePreflight] at hattempt
  dsimp only at hattempt
  split at hattempt
  · cases hattempt
  · next hfree =>
      cases hattempt
      refine .worked _ _ _ ?_ (fun row => by cases call <;> exact ⟨rfl, Nat.le_refl _⟩) (Or.inl rfl)
      intro row hrow hp
      have hany : s.preflights.any (currentAttempt id attempts) = true :=
        List.any_eq_true.mpr ⟨row, hrow, hp⟩
      simp only [hany, Bool.true_and, Bool.not_eq_true] at hfree
      simp only [currentAttempt, Bool.and_eq_true, decide_eq_true_eq] at hp
      refine ⟨hp.1.1 ▸ hfree, Or.inr hp.1.2, ?_⟩
      cases call <;> simp [SourcePreflight.attempted, hp.1.2]

/-- A call that moves on without a preflight of its own. -/
theorem Moves.ended {call : CreateCall} {outcome : CreateOutcome}
    (hopen : call.phase.isCreated = false)
    (houtcome : (CreatePhase.ended outcome).isCreated = false) :
    Moves s a (.create call) (.create { call with phase := .ended outcome }) := by
  refine .call call _ hopen houtcome (fun _ h => nomatch h) fun _ => ⟨fun _ h => (nomatch h), ?_⟩
  cases outcome with
  | created preflight project job => cases houtcome
  | notFound => trivial
  | consumed => trivial
  | notReady => trivial
  | failed => trivial

theorem select_effect {call : CreateCall} (hi : s.sessions[i]? = some (.create call))
    (hphase : call.phase = .called) (hselect : select s i call = some t) : Effect s a t := by
  have hopen : call.phase.isCreated = false := by rw [hphase]; rfl
  unfold select at hselect
  split at hselect
  · cases hselect
    exact .moved i _ _ hi (.ended hopen rfl)
  · next preflight hfound =>
      split at hselect
      · cases hselect
      · next hfree =>
          split at hselect
          · cases hselect
            exact .moved i _ _ hi (.ended hopen rfl)
          · split at hselect
            · next hready =>
                cases hselect
                have hmem := List.mem_of_find?_eq_some hfound
                have hid := List.find?_some hfound
                simp only [Bool.and_eq_true, decide_eq_true_eq] at hid
                have hcompleted : preflight.status = .completed := by
                  simp only [ready, Bool.and_eq_true, decide_eq_true_eq] at hready
                  exact hready.1.1
                refine .moved i _ _ hi (.call call _ hopen rfl ?_ ?_)
                · intro other hother
                  cases hother
                  exact Or.inr ⟨hmem, hcompleted, by simpa using hfree⟩
                · intro _
                  refine ⟨fun other hother => ?_, trivial⟩
                  cases hother
                  exact hid.1
            · cases hselect
              exact .moved i _ _ hi (.ended hopen rfl)

theorem insertProject_effect {fold : List Char → List Char} {call : CreateCall}
    {preflight : SourcePreflight} {id : String} (hi : s.sessions[i]? = some (.create call))
    (hphase : call.phase = .selected preflight)
    (hinsert : insertProject s i fold call preflight id = some t) : Effect s a t := by
  have hopen : call.phase.isCreated = false := by rw [hphase]; rfl
  unfold insertProject at hinsert
  split at hinsert
  · cases hinsert
    exact .moved i _ _ hi (.ended hopen rfl)
  · split at hinsert
    · cases hinsert
      exact .moved i _ _ hi (.ended hopen rfl)
    · split at hinsert
      · cases hinsert
      · cases hinsert
        refine .moved i _ _ hi (.call call _ hopen rfl ?_ ?_)
        · exact fun other hother => Or.inl (by rw [hphase]; exact hother)
        · exact fun hsound => ⟨fun other hother => hsound.1 other (by rw [hphase]; exact hother),
            trivial⟩

theorem lockNext_effect {sweep : Sweep} (hi : s.sessions[i]? = some (.sweep sweep))
    (hopen : sweep.deleted = none) (hlock : lockNext s i sweep = some t) :
    Effect s (.lockNext i) t := by
  unfold lockNext at hlock
  split at hlock
  · cases hlock
  · next id rest hcandidates =>
      split at hlock
      · cases hlock
      · next hfree =>
          split at hlock
          · cases hlock
            refine .moved i _ _ hi (.sweep sweep _ hopen rfl (Or.inl hopen) ?_)
            intro other hother
            obtain hother | hother := List.mem_append.mp hother
            · exact Or.inl hother
            · rw [List.mem_singleton.mp hother]
              refine Or.inr ⟨by simpa using hfree, fun hkind hguard row hrow hid hconsumed => ?_⟩
              have hany : s.preflights.any (fun row => row.id = id && row.status = .consumed) =
                  true := List.any_eq_true.mpr ⟨row, hrow, by simp [hid, hconsumed]⟩
              have hkind : sweep.kind = .recover := hkind
              simp only [requeuesConsumed, sweep?_eq_some.mpr ⟨hi, hopen⟩, Option.any_some, hkind,
                hcandidates, List.head?_cons, hany] at hguard
              cases hguard
          · cases hlock
            exact .moved i _ _ hi (.sweep sweep _ hopen rfl (Or.inl hopen)
              fun other hother => Or.inl hother)

/-- Every step has one of the six effects. -/
theorem step_effect {fold : List Char → List Char}
    (hunique : Table.UniqueOn SourcePreflight.id s.preflights) (hstep : step fold s a = some t) :
    Effect s a t := by
  cases a with
  | submit input id now =>
      rw [step] at hstep
      split at hstep
      · cases hstep
      · next hfresh =>
          cases hstep
          exact .submitted input id now (by simpa using hfresh)
  | claim id now => exact claim_effect hunique hstep
  | attempt n call now =>
      obtain ⟨claimed, -, hstep⟩ := Option.bind_eq_some_iff.mp hstep
      exact attempt_effect hstep
  | call input now =>
      cases hstep
      exact .began _ (.call input now)
  | select i =>
      obtain ⟨call, hi, hstep⟩ := Option.bind_eq_some_iff.mp hstep
      split at hstep
      · next hphase => exact select_effect (call?_eq_some.mp hi) hphase hstep
      · cases hstep
  | insertProject i id =>
      obtain ⟨call, hi, hstep⟩ := Option.bind_eq_some_iff.mp hstep
      split at hstep
      · next hphase => exact insertProject_effect (call?_eq_some.mp hi) hphase hstep
      · cases hstep
  | insertJob i id =>
      obtain ⟨call, hi, hstep⟩ := Option.bind_eq_some_iff.mp hstep
      split at hstep
      · next preflight project hphase =>
          cases hstep
          refine .moved i _ _ (call?_eq_some.mp hi) (.call call _ (by rw [hphase]; rfl) rfl ?_ ?_)
          · exact fun other hother => Or.inl (by rw [hphase]; exact hother)
          · exact fun hsound => ⟨fun other hother => hsound.1 other (by rw [hphase]; exact hother),
              rfl, rfl⟩
      · cases hstep
  | mark i now =>
      obtain ⟨call, hi, hstep⟩ := Option.bind_eq_some_iff.mp hstep
      split at hstep
      · next preflight project job hphase =>
          cases hstep
          refine .moved i _ _ (call?_eq_some.mp hi) (.call call _ (by rw [hphase]; rfl) rfl ?_ ?_)
          · exact fun other hother => Or.inl (by rw [hphase]; exact hother)
          · rintro ⟨hpreflight, hbelongs⟩
            rw [hphase] at hpreflight hbelongs
            exact ⟨hpreflight, hbelongs⟩
      · cases hstep
  | commit i =>
      obtain ⟨call, hi, hstep⟩ := Option.bind_eq_some_iff.mp hstep
      split at hstep
      · next hphase =>
          cases hstep
          exact .committed i call _ _ _ _ (call?_eq_some.mp hi) hphase
      · cases hstep
  | rollback i =>
      obtain ⟨call, hi, hstep⟩ := Option.bind_eq_some_iff.mp hstep
      split at hstep
      · cases hstep
      · next hnot =>
          cases hstep
          refine .moved i _ _ (call?_eq_some.mp hi) (.ended ?_ rfl)
          cases hphase : call.phase with
          | ended outcome => exact absurd hphase (hnot outcome)
          | called => rfl
          | selected preflight => rfl
          | projectInserted preflight project => rfl
          | jobInserted preflight project job => rfl
          | marked preflight project job now => rfl
  | recover now staleAfter limit =>
      cases hstep
      exact .began _ (.sweep .recover now _)
  | expire now limit =>
      cases hstep
      exact .began _ (.sweep .expire now _)
  | lockNext i =>
      obtain ⟨sweep, hi, hstep⟩ := Option.bind_eq_some_iff.mp hstep
      obtain ⟨hi, hopen⟩ := sweep?_eq_some.mp hi
      exact lockNext_effect hi hopen hstep
  | finish i =>
      obtain ⟨sweep, hi, hstep⟩ := Option.bind_eq_some_iff.mp hstep
      obtain ⟨hi, hopen⟩ := sweep?_eq_some.mp hi
      split at hstep
      · cases hstep
        exact .finished i sweep hi hopen
      · cases hstep
  | cancel i =>
      obtain ⟨sweep, hi, rfl⟩ := Option.map_eq_some_iff.mp hstep
      obtain ⟨hi, hopen⟩ := sweep?_eq_some.mp hi
      exact .moved i _ _ hi (.sweep sweep _ hopen rfl (Or.inr rfl) fun other hother => Or.inl hother)

/-! ## What the locks guarantee -/

/-- A preflight is locked by one session, its id is never drawn again, and the preflight that a
call has locked is in the table as the call has read it. -/
structure Locked (s : System) : Prop where
  unique : Table.UniqueOn SourcePreflight.id s.preflights
  issued : ∀ row ∈ s.preflights, row.id ∈ s.issued
  exclusive : RowLocks.Exclusive Holds s.sessions
  sound : ∀ (i : ℕ) call, s.sessions[i]? = some (.create call) → call.Sound
  selected : ∀ (i : ℕ) call preflight, s.sessions[i]? = some (.create call) →
    call.phase.preflight? = some preflight →
    preflight ∈ s.preflights ∧ preflight.status = .completed

theorem holds_create {call : CreateCall} {id : String} :
    Holds (.create call) id ↔
      ∃ preflight, call.phase.preflight? = some preflight ∧ preflight.id = id := by
  simp [Holds, Session.holds, Option.any_eq_true]

theorem holds_sweep {sweep : Sweep} {id : String} :
    Holds (.sweep sweep) id ↔ sweep.deleted = none ∧ id ∈ sweep.held := by
  simp [Holds, Session.holds]

/-- A row that a call has selected stays where the session that writes is another one. -/
theorem Locked.not_held (hs : Locked s) {writer : Session} (hi : s.sessions[i]? = some writer)
    {j : ℕ} (hij : i ≠ j) {call : CreateCall} {preflight : SourcePreflight}
    (hj : s.sessions[j]? = some (.create call))
    (hphase : call.phase.preflight? = some preflight) : ¬Holds writer preflight.id :=
  fun hholds => hij (hs.exclusive i j _ _ _ hi hj hholds
    (holds_create.mpr ⟨preflight, hphase, rfl⟩))

theorem Begins.holds {new : Session} (hnew : Begins new) (id : String) : ¬Holds new id := by
  cases hnew with
  | call input now => simp [Holds, Session.holds, CreatePhase.preflight?]
  | sweep kind now candidates => simp [Holds, Session.holds]

theorem Begins.create {call : CreateCall} (hnew : Begins (.create call)) :
    call.phase = .called := by
  cases hnew
  rfl

/-- What a session that moves on comes to hold was free. -/
theorem Moves.exclusive {old new : Session} (hmoves : Moves s a old new)
    (hs : RowLocks.Exclusive Holds s.sessions) (hi : s.sessions[i]? = some old) :
    RowLocks.Exclusive Holds (s.sessions.set i new) := by
  have hfree : ∀ id, s.locked id = false → ∀ j other, s.sessions[j]? = some other →
      Holds other id → i = j := fun id hfree j other hj hother =>
    absurd hother (locked_eq_false.mp hfree other (List.mem_of_getElem? hj))
  apply hs.set
  intro id hid j other hj hother
  cases hmoves with
  | call call phase hopen hnot hlocks hsound =>
      obtain ⟨preflight, hphase, rfl⟩ := holds_create.mp hid
      obtain hphase | ⟨-, -, hunlocked⟩ := hlocks preflight hphase
      · exact hs i j _ other _ hi hj (holds_create.mpr ⟨preflight, hphase, rfl⟩) hother
      · exact hfree preflight.id hunlocked j other hj hother
  | sweep old new hopen hkind hdeleted hlocks =>
      obtain hheld | ⟨hunlocked, -⟩ := hlocks id (holds_sweep.mp hid).2
      · exact hs i j _ other _ hi hj (holds_sweep.mpr ⟨hopen, hheld⟩) hother
      · exact hfree id hunlocked j other hj hother

theorem Locked.submitted (hs : Locked s) (input : PreflightInput) {id : String} (now : ℤ)
    (hfresh : id ∉ s.issued) :
    Locked { s with
      preflights := s.preflights ++ [createSourcePreflight input id now]
      issued := s.issued ++ [id] } where
  unique := hs.unique.append fun row hrow hsame =>
    hfresh ((show row.id = id from hsame) ▸ hs.issued row hrow)
  issued row hrow := by
    obtain hrow | hrow := List.mem_append.mp hrow
    · exact List.mem_append_left _ (hs.issued row hrow)
    · rw [List.mem_singleton.mp hrow]
      exact List.mem_append_right _ (List.mem_singleton.mpr rfl)
  exclusive := hs.exclusive
  sound := hs.sound
  selected j call preflight hj hphase := by
    obtain ⟨hmem, hcompleted⟩ := hs.selected j call preflight hj hphase
    exact ⟨List.mem_append_left _ hmem, hcompleted⟩

theorem Locked.worked (hs : Locked s) {p : SourcePreflight → Bool}
    {f : SourcePreflight → SourcePreflight} {claims : List (String × ℕ)}
    (hrow : ∀ row ∈ s.preflights, p row = true → s.locked row.id = false)
    (hkeep : ∀ row, (f row).id = row.id) :
    Locked { s with preflights := Table.updateWhere p f s.preflights, claims } where
  unique := hs.unique.updateWhere hkeep
  issued row hrow := by
    obtain ⟨hrow, -⟩ | ⟨old, hold, -, rfl⟩ := Table.mem_updateWhere.mp hrow
    · exact hs.issued row hrow
    · exact (hkeep old).symm ▸ hs.issued old hold
  exclusive := hs.exclusive
  sound := hs.sound
  selected j call preflight hj hphase := by
    obtain ⟨hmem, hcompleted⟩ := hs.selected j call preflight hj hphase
    refine ⟨Table.mem_updateWhere_of_not hmem ?_, hcompleted⟩
    by_contra hp
    have hfree := locked_eq_false.mp (hrow preflight hmem (by simpa using hp))
    exact hfree _ (List.mem_of_getElem? hj) (holds_create.mpr ⟨preflight, hphase, rfl⟩)

theorem Locked.began (hs : Locked s) {new : Session} (hnew : Begins new) :
    Locked { s with sessions := s.sessions ++ [new] } where
  unique := hs.unique
  issued := hs.issued
  exclusive := hs.exclusive.append hnew.holds
  sound j call hj := by
    obtain hj | ⟨-, rfl⟩ := RowLocks.getElem?_append_cases hj
    · exact hs.sound j call hj
    · constructor
      · rw [hnew.create]
        exact fun _ h => nomatch h
      · rw [hnew.create]
        trivial
  selected j call preflight hj hphase := by
    obtain hj | ⟨-, rfl⟩ := RowLocks.getElem?_append_cases hj
    · exact hs.selected j call preflight hj hphase
    · rw [hnew.create] at hphase
      cases hphase

theorem Locked.moved (hs : Locked s) {old new : Session} (hi : s.sessions[i]? = some old)
    (hmoves : Moves s a old new) : Locked { s with sessions := s.sessions.set i new } where
  unique := hs.unique
  issued := hs.issued
  exclusive := hmoves.exclusive hs.exclusive hi
  sound j call hj := by
    obtain ⟨-, hnew⟩ | ⟨-, hj⟩ := RowLocks.getElem?_set_cases hj
    · cases hmoves with
      | call before phase hopen hnot hlocks hsound =>
          cases hnew
          exact hsound (hs.sound i before hi)
      | sweep => cases hnew
    · exact hs.sound j call hj
  selected j call preflight hj hphase := by
    obtain ⟨-, hnew⟩ | ⟨-, hj⟩ := RowLocks.getElem?_set_cases hj
    · cases hmoves with
      | call before phase hopen hnot hlocks hsound =>
          cases hnew
          obtain hphase | ⟨hmem, hcompleted, -⟩ := hlocks preflight hphase
          · exact hs.selected i before preflight hi hphase
          · exact ⟨hmem, hcompleted⟩
      | sweep => cases hnew
    · exact hs.selected j call preflight hj hphase

/-- A session ends and has written the rows that it held, or deleted them. -/
theorem Locked.ended (hs : Locked s) {old new : Session} {preflights : List SourcePreflight}
    (hi : s.sessions[i]? = some old) (hnew : ∀ id, ¬Holds new id)
    (hsound : ∀ call, new = .create call → call.Sound ∧ call.phase.preflight? = none)
    (hunique : Table.UniqueOn SourcePreflight.id preflights)
    (hissued : ∀ row ∈ preflights, row.id ∈ s.issued)
    (hothers : ∀ row ∈ s.preflights, ¬Holds old row.id → row ∈ preflights)
    (ht : t.preflights = preflights) (htissued : t.issued = s.issued)
    (htsessions : t.sessions = s.sessions.set i new) : Locked t := by
  constructor
  · rw [ht]
    exact hunique
  · rw [ht, htissued]
    exact hissued
  · rw [htsessions]
    exact hs.exclusive.set_of_holds hi fun id h => absurd h (hnew id)
  · rw [htsessions]
    intro j call hj
    obtain ⟨-, hsame⟩ | ⟨-, hj⟩ := RowLocks.getElem?_set_cases hj
    · exact (hsound call hsame.symm).1
    · exact hs.sound j call hj
  · rw [htsessions, ht]
    intro j call preflight hj hphase
    obtain ⟨-, hsame⟩ | ⟨hij, hj⟩ := RowLocks.getElem?_set_cases hj
    · rw [(hsound call hsame.symm).2] at hphase
      cases hphase
    · obtain ⟨hmem, hcompleted⟩ := hs.selected j call preflight hj hphase
      exact ⟨hothers preflight hmem (hs.not_held hi hij hj hphase), hcompleted⟩

theorem commit_sound {call : CreateCall} {preflight : SourcePreflight} {project : ProjectRow}
    {job : ImportJob} {now : ℤ} (hsound : call.Sound)
    (hphase : call.phase = .marked preflight project job now) :
    ({ call with phase := .ended (.created preflight project job) } : CreateCall).Sound := by
  obtain ⟨hpreflight, hbelongs⟩ := hsound
  rw [hphase] at hpreflight hbelongs
  exact ⟨fun _ h => (nomatch h), hpreflight preflight rfl, hbelongs⟩

theorem Locked.committed (hs : Locked s) {call : CreateCall} {preflight : SourcePreflight}
    {project : ProjectRow} {job : ImportJob} {now : ℤ}
    (hi : s.sessions[i]? = some (.create call))
    (hphase : call.phase = .marked preflight project job now) :
    Locked (commit s i call preflight project job now) := by
  have hsessions : (commit s i call preflight project job now).sessions = s.sessions.set i
      (.create { call with phase := .ended (.created preflight project job) }) := rfl
  refine hs.ended hi ?_ ?_ (hs.unique.updateWhere (f := SourcePreflight.consume now) fun _ => rfl)
    ?_ ?_ rfl rfl hsessions
  · intro id hid
    obtain ⟨_, h, -⟩ := holds_create.mp hid
    cases h
  · intro ended hended
    cases hended
    exact ⟨commit_sound (hs.sound i call hi) hphase, rfl⟩
  · intro row hrow
    obtain ⟨hrow, -⟩ | ⟨old, hold, -, rfl⟩ := Table.mem_updateWhere.mp hrow
    · exact hs.issued row hrow
    · exact hs.issued old hold
  · intro row hrow hnot
    refine Table.mem_updateWhere_of_not hrow (decide_eq_false fun hsame => hnot ?_)
    exact holds_create.mpr ⟨preflight, by rw [hphase]; rfl, hsame.symm⟩

theorem Locked.finished (hs : Locked s) {sweep : Sweep} (hi : s.sessions[i]? = some (.sweep sweep))
    (hopen : sweep.deleted = none) : Locked (finish s i sweep) := by
  have hnot : ∀ row : SourcePreflight, ¬Holds (.sweep sweep) row.id →
      sweep.held.contains row.id = false := by
    intro row hrow
    by_contra hheld
    exact hrow (holds_sweep.mpr ⟨hopen, by simpa using hheld⟩)
  have hended : ∀ rows id, ¬Holds (.sweep { sweep with deleted := some rows }) id := by
    intro rows id hid
    cases (holds_sweep.mp hid).1
  rw [finish]
  split
  · refine hs.ended hi (hended _) (fun call h => nomatch h)
      (hs.unique.updateWhere (f := SourcePreflight.requeued sweep.now) fun _ => rfl)
      ?_ ?_ rfl rfl rfl
    · intro row hrow
      obtain ⟨hrow, -⟩ | ⟨old, hold, -, rfl⟩ := Table.mem_updateWhere.mp hrow
      · exact hs.issued row hrow
      · exact hs.issued old hold
    · exact fun row hrow hheld => Table.mem_updateWhere_of_not hrow (hnot row hheld)
  · refine hs.ended hi (hended _) (fun call h => nomatch h) ?_ ?_ ?_ rfl rfl rfl
    · exact List.Nodup.sublist (List.Sublist.map _ (List.filter_sublist)) hs.unique
    · exact fun row hrow => hs.issued row (List.mem_filter.mp hrow).1
    · exact fun row hrow hheld => List.mem_filter.mpr ⟨hrow, congrArg (!·) (hnot row hheld)⟩

/-- Every step keeps what the locks guarantee. -/
theorem Locked.effect (hs : Locked s) (heffect : Effect s a t) : Locked t := by
  cases heffect with
  | submitted input id now hfresh => exact hs.submitted input now hfresh
  | worked p f claims hrow hkeep hclaims =>
      exact hs.worked (fun row hmem hp => (hrow row hmem hp).1) fun row => (hkeep row).1
  | began new hnew => exact hs.began hnew
  | moved i old new hold hmoves => exact hs.moved hold hmoves
  | committed i call preflight project job now hold hphase => exact hs.committed hold hphase
  | finished i sweep hold hopen => exact hs.finished hold hopen

/-! ## The attempts of a preflight -/

/-- The claims of a preflight return ascending attempts, and its row counts them. -/
structure Counted (s : System) : Prop where
  known : ∀ claim ∈ s.claims, claim.1 ∈ s.issued ∧
    ∀ row ∈ s.preflights, row.id = claim.1 → claim.2 ≤ row.attempts
  ascending : s.claims.Pairwise fun first later => first.1 = later.1 → first.2 < later.2

/-- A step that makes no claim, creates no preflight and lowers no count. -/
theorem Counted.of_rows (hs : Counted s) (hclaims : t.claims = s.claims)
    (hissued : t.issued = s.issued)
    (hrows : ∀ row ∈ t.preflights, ∃ old ∈ s.preflights, old.id = row.id ∧
      old.attempts ≤ row.attempts) : Counted t := by
  refine ⟨fun claim hclaim => ?_, hclaims ▸ hs.ascending⟩
  rw [hclaims] at hclaim
  obtain ⟨hdrawn, hcount⟩ := hs.known claim hclaim
  refine ⟨hissued ▸ hdrawn, fun row hrow hid => ?_⟩
  obtain ⟨old, hold, hsame, hle⟩ := hrows row hrow
  exact (hcount old hold (hsame.trans hid)).trans hle

theorem rows_of_updateWhere {p : SourcePreflight → Bool} {f : SourcePreflight → SourcePreflight}
    (hkeep : ∀ row, (f row).id = row.id ∧ row.attempts ≤ (f row).attempts)
    {rows : List SourcePreflight} {row : SourcePreflight}
    (hrow : row ∈ Table.updateWhere p f rows) :
    ∃ old ∈ rows, old.id = row.id ∧ old.attempts ≤ row.attempts := by
  obtain ⟨hrow, -⟩ | ⟨old, hold, -, rfl⟩ := Table.mem_updateWhere.mp hrow
  · exact ⟨row, hrow, rfl, Nat.le_refl _⟩
  · exact ⟨old, hold, (hkeep old).1.symm, (hkeep old).2⟩

theorem Counted.worked (hs : Counted s) (hlocked : Locked s) {p : SourcePreflight → Bool}
    {f : SourcePreflight → SourcePreflight} {claims : List (String × ℕ)}
    (hkeep : ∀ row, (f row).id = row.id ∧ row.attempts ≤ (f row).attempts)
    (hclaims : claims = s.claims ∨ ∃ row ∈ s.preflights, p row = true ∧
      row.attempts < (f row).attempts ∧ claims = s.claims ++ [(row.id, (f row).attempts)]) :
    Counted { s with preflights := Table.updateWhere p f s.preflights, claims } := by
  have hsame : Counted { s with preflights := Table.updateWhere p f s.preflights } :=
    hs.of_rows rfl rfl fun row hrow => rows_of_updateWhere hkeep hrow
  obtain rfl | ⟨claimed, hclaimed, hp, hlt, rfl⟩ := hclaims
  · exact hsame
  · constructor
    · intro claim hclaim
      obtain hclaim | hclaim := List.mem_append.mp hclaim
      · exact hsame.known claim hclaim
      · rw [List.mem_singleton.mp hclaim]
        refine ⟨hlocked.issued claimed hclaimed, fun row hrow hid => ?_⟩
        have hid : row.id = claimed.id := hid
        obtain ⟨hrow, hnot⟩ | ⟨old, hold, -, rfl⟩ := Table.mem_updateWhere.mp hrow
        · rw [hlocked.unique.eq hrow hclaimed hid, hp] at hnot
          cases hnot
        · rw [hlocked.unique.eq hold hclaimed ((hkeep old).1.symm.trans hid)]
    · rw [List.pairwise_append]
      refine ⟨hs.ascending, List.pairwise_singleton _ _, ?_⟩
      intro first hfirst later hlater hid
      rw [List.mem_singleton.mp hlater] at hid ⊢
      exact ((hs.known first hfirst).2 claimed hclaimed hid.symm).trans_lt hlt

/-- Every step keeps the attempts of a preflight ascending. -/
theorem Counted.effect (hs : Counted s) (hlocked : Locked s) (heffect : Effect s a t) :
    Counted t := by
  cases heffect with
  | submitted input id now hfresh =>
      refine ⟨fun claim hclaim => ?_, hs.ascending⟩
      obtain ⟨hdrawn, hcount⟩ := hs.known claim hclaim
      refine ⟨List.mem_append_left _ hdrawn, fun row hrow hid => ?_⟩
      obtain hrow | hrow := List.mem_append.mp hrow
      · exact hcount row hrow hid
      · rw [List.mem_singleton.mp hrow] at hid
        exact absurd ((show id = claim.1 from hid) ▸ hdrawn) hfresh
  | worked p f claims hrow hkeep hclaims => exact hs.worked hlocked hkeep hclaims
  | began new hnew => exact ⟨hs.known, hs.ascending⟩
  | moved i old new hold hmoves => exact ⟨hs.known, hs.ascending⟩
  | committed i call preflight project job now hold hphase =>
      refine hs.of_rows rfl rfl fun row hrow => ?_
      exact rows_of_updateWhere (f := SourcePreflight.consume now)
        (fun _ => ⟨rfl, Nat.le_refl _⟩) hrow
  | finished i sweep hold hopen =>
      rw [finish]
      split
      · refine hs.of_rows rfl rfl fun row hrow => ?_
        exact rows_of_updateWhere (f := SourcePreflight.requeued sweep.now)
          (fun _ => ⟨rfl, Nat.le_refl _⟩) hrow
      · exact hs.of_rows rfl rfl fun row hrow =>
          ⟨row, (List.mem_filter.mp hrow).1, rfl, Nat.le_refl _⟩

/-! ## One project for each preflight -/

/-- A preflight is consumed exactly when a call has created a project and a job from it, and
every project and job since the first state was created so. -/
structure ConsumedOnce (s₀ s : System) : Prop where
  created : ∀ (i : ℕ) id preflight project job, Created s i id preflight project job →
    id ∈ s.issued ∧ (project ∈ s.projects ∧ job ∈ s.jobs) ∧
      ∀ row ∈ s.preflights, row.id = id → row.status = .consumed
  consumed : ∀ row ∈ s.preflights, row.status = .consumed →
    ∃ i preflight project job, Created s i row.id preflight project job
  once : ∀ (i j : ℕ) id p q project₁ project₂ job₁ job₂, Created s i id p project₁ job₁ →
    Created s j id q project₂ job₂ → i = j
  projects : ∀ project ∈ s.projects, project ∈ s₀.projects ∨
    ∃ i id preflight job, Created s i id preflight project job
  jobs : ∀ job ∈ s.jobs, job ∈ s₀.jobs ∨
    ∃ i id preflight project, Created s i id preflight project job
  /-- A recovery statement holds no consumed preflight. -/
  recovering : ∀ (i : ℕ) sweep, s.sessions[i]? = some (.sweep sweep) → sweep.kind = .recover →
    ∀ row ∈ s.preflights, Holds (.sweep sweep) row.id → row.status ≠ .consumed
  /-- What was deleted is gone, and was consumed if a project was created from it. -/
  deleted : ∀ (i : ℕ) sweep rows, s.sessions[i]? = some (.sweep sweep) →
    sweep.deleted = some rows → ∀ row ∈ rows, row.id ∈ s.issued ∧
      (∀ other ∈ s.preflights, other.id ≠ row.id) ∧
      (row.status ≠ .consumed →
        ∀ j preflight project job, ¬Created s j row.id preflight project job)

section Created

variable {j : ℕ} {id : String} {preflight : SourcePreflight} {project : ProjectRow}
  {job : ImportJob}

/-- The session is a call that has created a project. -/
def Session.isCreated : Session → Bool
  | .create call => call.phase.isCreated
  | .sweep _ => false

theorem Moves.isCreated {old new : Session} (hmoves : Moves s a old new) :
    old.isCreated = false ∧ new.isCreated = false := by
  cases hmoves with
  | call call phase hopen hnot => exact ⟨hopen, hnot⟩
  | sweep => exact ⟨rfl, rfl⟩

theorem Begins.isCreated {new : Session} (hnew : Begins new) : new.isCreated = false := by
  cases hnew <;> rfl

/-- A session is replaced, and neither the old nor the new one has created a project. -/
theorem created_iff_of_set {old new : Session} (hi : s.sessions[i]? = some old)
    (hold : old.isCreated = false) (hnew : new.isCreated = false)
    (ht : t.sessions = s.sessions.set i new) :
    Created t j id preflight project job ↔ Created s j id preflight project job := by
  constructor
  · rintro ⟨call, hj, hid, hphase⟩
    rw [ht] at hj
    obtain ⟨-, rfl⟩ | ⟨-, hj⟩ := RowLocks.getElem?_set_cases hj
    · rw [Session.isCreated, hphase] at hnew
      cases hnew
    · exact ⟨call, hj, hid, hphase⟩
  · rintro ⟨call, hj, hid, hphase⟩
    refine ⟨call, ?_, hid, hphase⟩
    have hij : i ≠ j := by
      rintro rfl
      rw [hi] at hj
      cases hj
      rw [Session.isCreated, hphase] at hold
      cases hold
    rw [ht, List.getElem?_set_ne hij]
    exact hj

theorem created_iff_of_append {new : Session} (hnew : new.isCreated = false)
    (ht : t.sessions = s.sessions ++ [new]) :
    Created t j id preflight project job ↔ Created s j id preflight project job := by
  constructor
  · rintro ⟨call, hj, hid, hphase⟩
    rw [ht] at hj
    obtain hj | ⟨-, rfl⟩ := RowLocks.getElem?_append_cases hj
    · exact ⟨call, hj, hid, hphase⟩
    · rw [Session.isCreated, hphase] at hnew
      cases hnew
  · rintro ⟨call, hj, hid, hphase⟩
    refine ⟨call, ?_, hid, hphase⟩
    rw [ht, List.getElem?_append_left (List.getElem?_eq_some_iff.mp hj).1]
    exact hj

/-- A step that creates no project and neither consumes a preflight nor puts a consumed one
back. -/
theorem ConsumedOnce.of_rows (hs : ConsumedOnce s₀ s)
    (hcreated : ∀ j id preflight project job, Created t j id preflight project job ↔
      Created s j id preflight project job)
    (hissued : ∀ id ∈ s.issued, id ∈ t.issued) (hprojects : t.projects = s.projects)
    (hjobs : t.jobs = s.jobs)
    (hrows : ∀ row ∈ t.preflights, (row.id ∉ s.issued ∧ row.status ≠ .consumed) ∨
      ∃ old ∈ s.preflights, old.id = row.id ∧ (old.status = .consumed ↔ row.status = .consumed))
    (hrecovering : ∀ (i : ℕ) sweep, t.sessions[i]? = some (.sweep sweep) → sweep.kind = .recover →
      ∀ row ∈ t.preflights, Holds (.sweep sweep) row.id → row.status ≠ .consumed)
    (hdeleted : ∀ (i : ℕ) sweep rows, t.sessions[i]? = some (.sweep sweep) →
      sweep.deleted = some rows → ∀ row ∈ rows, row.id ∈ t.issued ∧
        (∀ other ∈ t.preflights, other.id ≠ row.id) ∧
        (row.status ≠ .consumed →
          ∀ j preflight project job, ¬Created s j row.id preflight project job)) :
    ConsumedOnce s₀ t where
  created i id preflight project job hi := by
    obtain ⟨hid, hin, hmark⟩ := hs.created i id preflight project job ((hcreated _ _ _ _ _).mp hi)
    refine ⟨hissued id hid, ⟨hprojects ▸ hin.1, hjobs ▸ hin.2⟩, fun row hrow hsame => ?_⟩
    obtain ⟨hfresh, -⟩ | ⟨old, hold, holdId, hstatus⟩ := hrows row hrow
    · exact absurd (hsame ▸ hid) hfresh
    · exact hstatus.mp (hmark old hold (holdId.trans hsame))
  consumed row hrow hconsumed := by
    obtain ⟨-, hnot⟩ | ⟨old, hold, holdId, hstatus⟩ := hrows row hrow
    · exact absurd hconsumed hnot
    · obtain ⟨i, preflight, project, job, hi⟩ := hs.consumed old hold (hstatus.mpr hconsumed)
      exact ⟨i, preflight, project, job, (hcreated _ _ _ _ _).mpr (holdId ▸ hi)⟩
  once i j id p q project₁ project₂ job₁ job₂ hi hj :=
    hs.once i j id p q project₁ project₂ job₁ job₂ ((hcreated _ _ _ _ _).mp hi)
      ((hcreated _ _ _ _ _).mp hj)
  projects project hproject := by
    rw [hprojects] at hproject
    obtain hproject | ⟨i, id, preflight, job, hi⟩ := hs.projects project hproject
    · exact Or.inl hproject
    · exact Or.inr ⟨i, id, preflight, job, (hcreated _ _ _ _ _).mpr hi⟩
  jobs job hjob := by
    rw [hjobs] at hjob
    obtain hjob | ⟨i, id, preflight, project, hi⟩ := hs.jobs job hjob
    · exact Or.inl hjob
    · exact Or.inr ⟨i, id, preflight, project, (hcreated _ _ _ _ _).mpr hi⟩
  recovering := hrecovering
  deleted i sweep rows hi hrows' row hrow := by
    obtain ⟨hid, hgone, hnot⟩ := hdeleted i sweep rows hi hrows' row hrow
    exact ⟨hid, hgone, fun hstatus j preflight project job hj =>
      hnot hstatus j preflight project job ((hcreated _ _ _ _ _).mp hj)⟩

theorem ConsumedOnce.submitted (hs : ConsumedOnce s₀ s) (input : PreflightInput) {id : String}
    (now : ℤ) (hfresh : id ∉ s.issued) :
    ConsumedOnce s₀ { s with
      preflights := s.preflights ++ [createSourcePreflight input id now]
      issued := s.issued ++ [id] } := by
  refine hs.of_rows (fun _ _ _ _ _ => Iff.rfl) (fun _ hid => List.mem_append_left _ hid) rfl rfl
    ?_ ?_ ?_
  · intro row hrow
    obtain hrow | hrow := List.mem_append.mp hrow
    · exact Or.inr ⟨row, hrow, rfl, Iff.rfl⟩
    · rw [List.mem_singleton.mp hrow]
      exact Or.inl ⟨hfresh, fun h => nomatch h⟩
  · intro i sweep hi hkind row hrow hholds
    obtain hrow | hrow := List.mem_append.mp hrow
    · exact hs.recovering i sweep hi hkind row hrow hholds
    · rw [List.mem_singleton.mp hrow]
      exact fun h => nomatch h
  · intro i sweep rows hi hrows row hrow
    obtain ⟨hid, hgone, hnot⟩ := hs.deleted i sweep rows hi hrows row hrow
    refine ⟨List.mem_append_left _ hid, fun other hother => ?_, hnot⟩
    obtain hother | hother := List.mem_append.mp hother
    · exact hgone other hother
    · rw [List.mem_singleton.mp hother]
      exact fun hsame => hfresh ((show id = row.id from hsame) ▸ hid)

theorem ConsumedOnce.worked (hs : ConsumedOnce s₀ s) {p : SourcePreflight → Bool}
    {f : SourcePreflight → SourcePreflight} {claims : List (String × ℕ)}
    (hrow : ∀ row ∈ s.preflights, p row = true →
      (row.status = .queued ∨ row.status = .running) ∧ (f row).status ≠ .consumed)
    (hkeep : ∀ row, (f row).id = row.id) :
    ConsumedOnce s₀ { s with preflights := Table.updateWhere p f s.preflights, claims } := by
  have hrows : ∀ row ∈ Table.updateWhere p f s.preflights, ∃ old ∈ s.preflights,
      old.id = row.id ∧ (old.status = .consumed ↔ row.status = .consumed) := by
    intro row hmem
    obtain ⟨hmem, -⟩ | ⟨old, hold, hp, rfl⟩ := Table.mem_updateWhere.mp hmem
    · exact ⟨row, hmem, rfl, Iff.rfl⟩
    · obtain ⟨hopen, hnot⟩ := hrow old hold hp
      refine ⟨old, hold, (hkeep old).symm, fun h => ?_, fun h => absurd h hnot⟩
      rw [h] at hopen
      obtain h | h := hopen <;> cases h
  refine hs.of_rows (fun _ _ _ _ _ => Iff.rfl) (fun _ hid => hid) rfl rfl
    (fun row hmem => Or.inr (hrows row hmem)) ?_ ?_
  · intro i sweep hi hkind row hmem hholds
    obtain ⟨old, hold, hid, hstatus⟩ := hrows row hmem
    exact fun h => hs.recovering i sweep hi hkind old hold (hid ▸ hholds) (hstatus.mpr h)
  · intro i sweep rows hi hdeleted row hmem
    obtain ⟨hid, hgone, hnot⟩ := hs.deleted i sweep rows hi hdeleted row hmem
    refine ⟨hid, fun other hother => ?_, hnot⟩
    obtain ⟨old, hold, hsame, -⟩ := hrows other hother
    exact hsame ▸ hgone old hold

theorem ConsumedOnce.began (hs : ConsumedOnce s₀ s) {new : Session} (hnew : Begins new) :
    ConsumedOnce s₀ { s with sessions := s.sessions ++ [new] } := by
  refine hs.of_rows (fun _ _ _ _ _ => created_iff_of_append hnew.isCreated rfl)
    (fun _ hid => hid) rfl rfl (fun row hrow => Or.inr ⟨row, hrow, rfl, Iff.rfl⟩) ?_ ?_
  · intro i sweep hi hkind row hrow hholds
    obtain hi | ⟨-, rfl⟩ := RowLocks.getElem?_append_cases hi
    · exact hs.recovering i sweep hi hkind row hrow hholds
    · exact absurd hholds (hnew.holds row.id)
  · intro i sweep rows hi hrows
    obtain hi | ⟨-, rfl⟩ := RowLocks.getElem?_append_cases hi
    · exact hs.deleted i sweep rows hi hrows
    · cases hnew
      cases hrows

theorem ConsumedOnce.moved (hs : ConsumedOnce s₀ s) (hguard : requeuesConsumed s a = false)
    {old new : Session} (hi : s.sessions[i]? = some old) (hmoves : Moves s a old new) :
    ConsumedOnce s₀ { s with sessions := s.sessions.set i new } := by
  refine hs.of_rows
    (fun _ _ _ _ _ => created_iff_of_set hi hmoves.isCreated.1 hmoves.isCreated.2 rfl)
    (fun _ hid => hid) rfl rfl (fun row hrow => Or.inr ⟨row, hrow, rfl, Iff.rfl⟩) ?_ ?_
  · intro j sweep hj hkind row hrow hholds
    obtain ⟨-, hsame⟩ | ⟨-, hj⟩ := RowLocks.getElem?_set_cases hj
    · cases hmoves with
      | call => cases hsame
      | sweep before after hopen hkinds hdeleted hlocks =>
          cases hsame
          obtain hheld | ⟨-, hnot⟩ := hlocks row.id (holds_sweep.mp hholds).2
          · exact hs.recovering i before hi (hkinds ▸ hkind) row hrow
              (holds_sweep.mpr ⟨hopen, hheld⟩)
          · exact hnot hkind hguard row hrow rfl
    · exact hs.recovering j sweep hj hkind row hrow hholds
  · intro j sweep rows hj hrows
    obtain ⟨-, hsame⟩ | ⟨-, hj⟩ := RowLocks.getElem?_set_cases hj
    · cases hmoves with
      | call => cases hsame
      | sweep before after hopen hkinds hdeleted hlocks =>
          cases hsame
          obtain hnone | hnil := hdeleted
          · rw [hnone] at hrows
            cases hrows
          · rw [hnil] at hrows
            cases hrows
            exact fun row hrow => nomatch hrow
    · exact hs.deleted j sweep rows hj hrows

theorem ConsumedOnce.finished (hs : ConsumedOnce s₀ s) (hlocked : Locked s) {sweep : Sweep}
    (hi : s.sessions[i]? = some (.sweep sweep)) (hopen : sweep.deleted = none) :
    ConsumedOnce s₀ (finish s i sweep) := by
  have hended : ∀ (rows : List SourcePreflight) (j : ℕ) other,
      (s.sessions.set i (.sweep { sweep with deleted := some rows }))[j]? = some (.sweep other) →
      (other = { sweep with deleted := some rows }) ∨ s.sessions[j]? = some (.sweep other) := by
    intro rows j other hj
    obtain ⟨-, hsame⟩ | ⟨-, hj⟩ := RowLocks.getElem?_set_cases hj
    · exact Or.inl (Session.sweep.inj hsame)
    · exact Or.inr hj
  rw [finish]
  split
  · next hkind =>
      -- What a recovery statement puts back was not consumed.
      have hrows : ∀ row ∈ Table.updateWhere (fun row => sweep.held.contains row.id)
          (SourcePreflight.requeued sweep.now) s.preflights, ∃ old ∈ s.preflights,
          old.id = row.id ∧ (old.status = .consumed ↔ row.status = .consumed) := by
        intro row hmem
        obtain ⟨hmem, -⟩ | ⟨old, hold, hheld, rfl⟩ := Table.mem_updateWhere.mp hmem
        · exact ⟨row, hmem, rfl, Iff.rfl⟩
        · refine ⟨old, hold, rfl, fun h => absurd h ?_, fun h => nomatch h⟩
          exact hs.recovering i sweep hi hkind old hold
            (holds_sweep.mpr ⟨hopen, by simpa using hheld⟩)
      refine hs.of_rows (fun _ _ _ _ _ => created_iff_of_set hi rfl rfl rfl) (fun _ hid => hid)
        rfl rfl (fun row hmem => Or.inr (hrows row hmem)) ?_ ?_
      · intro j other hj hother row hmem hholds
        obtain rfl | hj := hended _ j other hj
        · cases (holds_sweep.mp hholds).1
        · obtain ⟨old, hold, hid, hstatus⟩ := hrows row hmem
          exact fun h => hs.recovering j other hj hother old hold (hid ▸ hholds) (hstatus.mpr h)
      · intro j other rows hj hdeleted row hmem
        obtain rfl | hj := hended _ j other hj
        · cases hdeleted
          cases hmem
        · obtain ⟨hid, hgone, hnot⟩ := hs.deleted j other rows hj hdeleted row hmem
          refine ⟨hid, fun kept hkept => ?_, hnot⟩
          obtain ⟨old, hold, hsame, -⟩ := hrows kept hkept
          exact hsame ▸ hgone old hold
  · have hkept : ∀ row ∈ s.preflights.filter fun row => !sweep.held.contains row.id,
        row ∈ s.preflights := fun row hrow => (List.mem_filter.mp hrow).1
    refine hs.of_rows (fun _ _ _ _ _ => created_iff_of_set hi rfl rfl rfl) (fun _ hid => hid)
      rfl rfl (fun row hrow => Or.inr ⟨row, hkept row hrow, rfl, Iff.rfl⟩) ?_ ?_
    · intro j other hj hother row hrow hholds
      obtain rfl | hj := hended _ j other hj
      · cases (holds_sweep.mp hholds).1
      · exact hs.recovering j other hj hother row (hkept row hrow) hholds
    · intro j other rows hj hdeleted row hrow
      obtain rfl | hj := hended _ j other hj
      · cases hdeleted
        obtain ⟨hrow, hheld⟩ := List.mem_filter.mp hrow
        refine ⟨hlocked.issued row hrow, fun kept hkept hsame => ?_, ?_⟩
        · obtain ⟨-, hnot⟩ := List.mem_filter.mp hkept
          have hnot : (!sweep.held.contains kept.id) = true := hnot
          rw [hsame, hheld] at hnot
          cases hnot
        · intro hstatus j preflight project job hcreated
          exact hstatus ((hs.created j row.id preflight project job hcreated).2.2 row hrow rfl)
      · obtain ⟨hid, hgone, hnot⟩ := hs.deleted j other rows hj hdeleted row hrow
        exact ⟨hid, fun kept hkeptRow => hgone kept (hkept kept hkeptRow), hnot⟩

/-- The transaction of a call commits: its preflight is consumed, once. -/
theorem ConsumedOnce.committed (hs : ConsumedOnce s₀ s) (hlocked : Locked s) {call : CreateCall}
    {preflight : SourcePreflight} {project : ProjectRow} {job : ImportJob} {now : ℤ}
    (hi : s.sessions[i]? = some (.create call))
    (hphase : call.phase = .marked preflight project job now) :
    ConsumedOnce s₀ (commit s i call preflight project job now) := by
  have hlocks : call.phase.preflight? = some preflight := by rw [hphase]; rfl
  have hown : preflight.id = call.input.preflightId := (hlocked.sound i call hi).1 preflight hlocks
  obtain ⟨hmem, hcompleted⟩ := hlocked.selected i call preflight hi hlocks
  -- Nothing was created from the preflight before.
  have hfirst : ∀ j p project job, ¬Created s j preflight.id p project job := by
    intro j p project job hj
    have hconsumed := (hs.created j _ p project job hj).2.2 preflight hmem rfl
    rw [hcompleted] at hconsumed
    cases hconsumed
  have hsessions : (commit s i call preflight project job now).sessions = s.sessions.set i
      (.create { call with phase := .ended (.created preflight project job) }) := rfl
  have hnew : Created (commit s i call preflight project job now) i preflight.id preflight project
      job := by
    refine ⟨{ call with phase := .ended (.created preflight project job) }, ?_, hown.symm, rfl⟩
    rw [hsessions, List.getElem?_set_self (List.getElem?_eq_some_iff.mp hi).1]
  have hmono : ∀ j id p project' job', Created s j id p project' job' →
      Created (commit s i call preflight project job now) j id p project' job' := by
    rintro j id p project' job' ⟨other, hj, hid, hother⟩
    refine ⟨other, ?_, hid, hother⟩
    have hij : i ≠ j := by
      rintro rfl
      rw [hi] at hj
      cases hj
      rw [hphase] at hother
      cases hother
    rw [hsessions, List.getElem?_set_ne hij]
    exact hj
  have hcases : ∀ j id p project' job',
      Created (commit s i call preflight project job now) j id p project' job' →
      (j = i ∧ id = preflight.id ∧ p = preflight ∧ project' = project ∧ job' = job) ∨
        Created s j id p project' job' := by
    rintro j id p project' job' ⟨other, hj, hid, hother⟩
    rw [hsessions] at hj
    obtain ⟨rfl, hsame⟩ | ⟨-, hj⟩ := RowLocks.getElem?_set_cases hj
    · cases hsame
      cases hother
      exact Or.inl ⟨rfl, hid.symm.trans hown.symm, rfl, rfl, rfl⟩
    · exact Or.inr ⟨other, hj, hid, hother⟩
  have hrows : ∀ row ∈ (commit s i call preflight project job now).preflights,
      (row.id = preflight.id ∧ row.status = .consumed) ∨
        (row.id ≠ preflight.id ∧ row ∈ s.preflights) := by
    intro row hrow
    obtain ⟨hrow, hnot⟩ | ⟨old, hold, hsame, rfl⟩ := Table.mem_updateWhere.mp hrow
    · exact Or.inr ⟨of_decide_eq_false hnot, hrow⟩
    · exact Or.inl ⟨of_decide_eq_true hsame, rfl⟩
  constructor
  · intro j id p project' job' hj
    obtain ⟨rfl, rfl, rfl, rfl, rfl⟩ | hj := hcases j id p project' job' hj
    · refine ⟨hlocked.issued _ hmem, ⟨by simp [commit], by simp [commit]⟩, fun row hrow hid => ?_⟩
      obtain ⟨-, hconsumed⟩ | ⟨hne, -⟩ := hrows row hrow
      · exact hconsumed
      · exact absurd hid hne
    · obtain ⟨hid, ⟨hproject, hjob⟩, hmark⟩ := hs.created j id p project' job' hj
      refine ⟨hid, ⟨List.mem_append_left _ hproject, List.mem_append_left _ hjob⟩, ?_⟩
      intro row hrow hsame
      obtain ⟨-, hconsumed⟩ | ⟨-, hrow⟩ := hrows row hrow
      · exact hconsumed
      · exact hmark row hrow hsame
  · intro row hrow hconsumed
    obtain ⟨hid, -⟩ | ⟨-, hrow⟩ := hrows row hrow
    · exact ⟨i, preflight, project, job, hid ▸ hnew⟩
    · obtain ⟨j, p, project', job', hj⟩ := hs.consumed row hrow hconsumed
      exact ⟨j, p, project', job', hmono _ _ _ _ _ hj⟩
  · intro j k id p q project₁ project₂ job₁ job₂ hj hk
    obtain ⟨hji, rfl, -⟩ | hjBefore := hcases j id p project₁ job₁ hj
    · obtain ⟨hki, -⟩ | hkBefore := hcases k _ q project₂ job₂ hk
      · exact hji.trans hki.symm
      · exact absurd hkBefore (hfirst k q project₂ job₂)
    · obtain ⟨-, rfl, -⟩ | hkBefore := hcases k id q project₂ job₂ hk
      · exact absurd hjBefore (hfirst j p project₁ job₁)
      · exact hs.once j k id p q project₁ project₂ job₁ job₂ hjBefore hkBefore
  · intro project' hproject
    obtain hproject | hproject := List.mem_append.mp hproject
    · obtain hproject | ⟨j, id, p, job', hj⟩ := hs.projects project' hproject
      · exact Or.inl hproject
      · exact Or.inr ⟨j, id, p, job', hmono _ _ _ _ _ hj⟩
    · rw [List.mem_singleton.mp hproject]
      exact Or.inr ⟨i, preflight.id, preflight, job, hnew⟩
  · intro job' hjob
    obtain hjob | hjob := List.mem_append.mp hjob
    · obtain hjob | ⟨j, id, p, project', hj⟩ := hs.jobs job' hjob
      · exact Or.inl hjob
      · exact Or.inr ⟨j, id, p, project', hmono _ _ _ _ _ hj⟩
    · rw [List.mem_singleton.mp hjob]
      exact Or.inr ⟨i, preflight.id, preflight, project, hnew⟩
  · intro j sweep hj hkind row hrow hholds
    obtain ⟨-, hsame⟩ | ⟨hij, hj⟩ := RowLocks.getElem?_set_cases hj
    · cases hsame
    · obtain ⟨hid, -⟩ | ⟨-, hrow⟩ := hrows row hrow
      · refine absurd (hlocked.exclusive i j _ _ row.id hi hj ?_ hholds) hij
        exact holds_create.mpr ⟨preflight, hlocks, hid.symm⟩
      · exact hs.recovering j sweep hj hkind row hrow hholds
  · intro j sweep rows hj hdeleted row hrow
    obtain ⟨-, hsame⟩ | ⟨-, hj⟩ := RowLocks.getElem?_set_cases hj
    · cases hsame
    · obtain ⟨hid, hgone, hnot⟩ := hs.deleted j sweep rows hj hdeleted row hrow
      refine ⟨hid, fun other hother => ?_, fun hstatus k p project' job' hk => ?_⟩
      · obtain ⟨hsame, -⟩ | ⟨-, hother⟩ := hrows other hother
        · exact hsame ▸ hgone preflight hmem
        · exact hgone other hother
      · obtain ⟨-, hsame, -⟩ | hk := hcases k row.id p project' job' hk
        · exact hgone preflight hmem hsame.symm
        · exact hnot hstatus k p project' job' hk

/-- A step that takes no consumed preflight into a recovery statement keeps that a preflight is
consumed once. -/
theorem ConsumedOnce.effect (hs : ConsumedOnce s₀ s) (hlocked : Locked s)
    (hguard : requeuesConsumed s a = false) (heffect : Effect s a t) : ConsumedOnce s₀ t := by
  cases heffect with
  | submitted input id now hfresh => exact hs.submitted input now hfresh
  | worked p f claims hrow hkeep hclaims =>
      exact hs.worked (fun row hmem hp => (hrow row hmem hp).2) fun row => (hkeep row).1
  | began new hnew => exact hs.began hnew
  | moved i old new hold hmoves => exact hs.moved hguard hold hmoves
  | committed i call preflight project job now hold hphase =>
      exact hs.committed hlocked hold hphase
  | finished i sweep hold hopen => exact hs.finished hlocked hold hopen

/-! ## Every run -/

/-- What holds of the preflights of a state that a run from `s₀` has reached. -/
structure BecomesOneProject (fold : List Char → List Char) (s₀ s : System) : Prop where
  /-- One call at most creates a project and a job from a preflight. -/
  once : ∀ (i j : ℕ) id p q project₁ project₂ job₁ job₂, Created s i id p project₁ job₁ →
    Created s j id q project₂ job₂ → i = j
  /-- A project that was created is there, with its job and the mark on its preflight. -/
  created : ∀ (i : ℕ) id preflight project job, Created s i id preflight project job →
    (project ∈ s.projects ∧ job ∈ s.jobs) ∧
      (job.projectId = project.id ∧ job.payload.sourcePath = preflight.sourcePath) ∧
      ∀ row ∈ s.preflights, row.id = id → row.status = .consumed
  /-- A mark, a project or a job is there only if all three were made. -/
  consumed : ∀ row ∈ s.preflights, row.status = .consumed →
    ∃ i preflight project job, Created s i row.id preflight project job
  projects : ∀ project ∈ s.projects, project ∈ s₀.projects ∨
    ∃ i id preflight job, Created s i id preflight project job
  jobs : ∀ job ∈ s.jobs, job ∈ s₀.jobs ∨
    ∃ i id preflight project, Created s i id preflight project job
  /-- A worker changes a preflight only in its running attempt, the last that was claimed. -/
  current : ∀ (n : ℕ) call now t, step fold s (.attempt n call now) = some t →
    t.preflights ≠ s.preflights → ∃ claim row, s.claims[n]? = some claim ∧ row ∈ s.preflights ∧
      row.id = claim.1 ∧ row.status = .running ∧ row.attempts = claim.2 ∧
      ∀ (m : ℕ) later, s.claims[m]? = some later → later.1 = claim.1 → m ≤ n
  /-- A path that was handed to a project is not returned for removal on account of its
  preflight. -/
  kept : ∀ (i : ℕ) sweep rows, s.sessions[i]? = some (.sweep sweep) → sweep.deleted = some rows →
    ∀ j id preflight project job path, Created s j id preflight project job →
      job.payload.sourcePath = some path → path ∈ removedPaths rows →
      ∃ row ∈ rows, row.id ≠ id ∧ row.sourcePath = some path

theorem attempt_current {fold : List Char → List Char} (hs : Counted s) {n : ℕ}
    {call : AttemptCall} {now : ℤ} (hstep : step fold s (.attempt n call now) = some t)
    (hchanged : t.preflights ≠ s.preflights) :
    ∃ claim row, s.claims[n]? = some claim ∧ row ∈ s.preflights ∧ row.id = claim.1 ∧
      row.status = .running ∧ row.attempts = claim.2 ∧
      ∀ (m : ℕ) later, s.claims[m]? = some later → later.1 = claim.1 → m ≤ n := by
  obtain ⟨claim, hclaim, hattempt⟩ := Option.bind_eq_some_iff.mp hstep
  rw [attempt, attemptSourcePreflight] at hattempt
  dsimp only at hattempt
  split at hattempt
  · cases hattempt
  · cases hattempt
    obtain ⟨row, hrow, hcurrent⟩ : ∃ row ∈ s.preflights,
        currentAttempt claim.1 claim.2 row = true := by
      by_contra hnone
      push Not at hnone
      exact hchanged (Table.updateWhere_eq_self fun row hrow hp =>
        absurd hp (by simpa using hnone row hrow))
    simp only [currentAttempt, Bool.and_eq_true, decide_eq_true_eq] at hcurrent
    obtain ⟨⟨hid, hrunning⟩, hattempts⟩ := hcurrent
    refine ⟨claim, row, hclaim, hrow, hid, hrunning, hattempts, fun m later hlater hsame => ?_⟩
    -- A later claim would have raised the count of the row.
    by_contra hlt
    obtain ⟨hn, hclaimAt⟩ := List.getElem?_eq_some_iff.mp hclaim
    obtain ⟨hm, hlaterAt⟩ := List.getElem?_eq_some_iff.mp hlater
    have hraised := List.pairwise_iff_getElem.mp hs.ascending n m hn hm (by omega)
    rw [hclaimAt, hlaterAt] at hraised
    have hcounted := (hs.known later (List.mem_of_getElem? hlater)).2 row hrow (hid.trans hsame.symm)
    have := hraised hsame.symm
    omega

theorem removedPaths_kept (hs : ConsumedOnce s₀ s) {sweep : Sweep} {rows : List SourcePreflight}
    (hi : s.sessions[i]? = some (.sweep sweep)) (hdeleted : sweep.deleted = some rows)
    (hcreated : Created s j id preflight project job) {path : String}
    (hpath : path ∈ removedPaths rows) :
    ∃ row ∈ rows, row.id ≠ id ∧ row.sourcePath = some path := by
  rw [removedPaths, List.mem_eraseDups, List.mem_flatMap] at hpath
  obtain ⟨row, hrow, hpath⟩ := hpath
  split at hpath
  · next hstatus =>
      refine ⟨row, hrow, ?_, Option.mem_toList.mp hpath⟩
      rintro rfl
      exact (hs.deleted i sweep rows hi hdeleted row hrow).2.2 hstatus j preflight project job
        hcreated
  · cases hpath

/-- All that the steps of a run keep. -/
structure Coherent (s₀ s : System) : Prop where
  locked : Locked s
  counted : Counted s
  consumedOnce : ConsumedOnce s₀ s

theorem Coherent.init {fold : List Char → List Char} (hinit : (machine fold).init s₀) :
    Coherent s₀ s₀ := by
  obtain ⟨hpreflights, -, hsessions, hclaims⟩ := hinit
  have hnone : ∀ (i : ℕ) session, s₀.sessions[i]? ≠ some session := by
    intro i session
    rw [hsessions]
    exact fun h => nomatch h
  have hnot : ∀ i id preflight project job, ¬Created s₀ i id preflight project job :=
    fun i _ _ _ _ ⟨call, hi, _⟩ => hnone i _ hi
  refine ⟨⟨?_, ?_, ?_, ?_, ?_⟩, ⟨?_, ?_⟩, ⟨?_, ?_, ?_, ?_, ?_, ?_, ?_⟩⟩
  · rw [hpreflights]
    exact List.nodup_nil
  · rw [hpreflights]
    exact fun row hrow => nomatch hrow
  · rw [hsessions]
    exact RowLocks.Exclusive.nil
  · exact fun i call hi => absurd hi (hnone i _)
  · exact fun i call preflight hi => absurd hi (hnone i _)
  · rw [hclaims]
    exact fun claim hclaim => nomatch hclaim
  · rw [hclaims]
    exact List.Pairwise.nil
  · exact fun i id preflight project job hi => absurd hi (hnot _ _ _ _ _)
  · rw [hpreflights]
    exact fun row hrow => nomatch hrow
  · exact fun i j id p q project₁ project₂ job₁ job₂ hi => absurd hi (hnot _ _ _ _ _)
  · exact fun project hproject => Or.inl hproject
  · exact fun job hjob => Or.inl hjob
  · exact fun i sweep hi => absurd hi (hnone i _)
  · exact fun i sweep rows hi => absurd hi (hnone i _)

theorem Coherent.step {fold : List Char → List Char} (hs : Coherent s₀ s)
    (hguard : requeuesConsumed s a = false) (hstep : step fold s a = some t) : Coherent s₀ t := by
  have heffect := step_effect hs.locked.unique hstep
  exact ⟨hs.locked.effect heffect, hs.counted.effect hs.locked heffect,
    hs.consumedOnce.effect hs.locked hguard heffect⟩

/-- **A preflight becomes one project.** In every run in which no recovery statement takes a
preflight that was consumed after the statement had found it stale, every state that is reached
has one project and one job at most from each preflight, all or nothing of a consumption, only
current attempts at work, and no path of a project returned for removal. -/
theorem preflight_becomes_one_project {fold : List Char → List Char} {run : List Action}
    (hinit : (machine fold).init s₀)
    (hmeets : (machine fold).Meets (fun s a => requeuesConsumed s a = false) s₀ run)
    (hrun : (machine fold).exec s₀ run = some s) : BecomesOneProject fold s₀ s := by
  obtain ⟨hlocked, hcounted, hs⟩ : Coherent s₀ s :=
    (machine fold).exec_invariant (fun s a t hs hguard hstep => hs.step hguard hstep)
      (Coherent.init hinit) hmeets hrun
  constructor
  · exact hs.once
  · intro i id preflight project job hi
    obtain ⟨-, hin, hmark⟩ := hs.created i id preflight project job hi
    obtain ⟨call, hcall, hid, hphase⟩ := hi
    have hsound := (hlocked.sound i call hcall).2
    rw [hphase] at hsound
    exact ⟨hin, hsound.2, hmark⟩
  · exact hs.consumed
  · exact hs.projects
  · exact hs.jobs
  · exact fun n call now t hstep hchanged => attempt_current hcounted hstep hchanged
  · exact fun i sweep rows hi hdeleted j id preflight project job path hcreated _ hpath =>
      removedPaths_kept hs hi hdeleted hcreated hpath

end Created

/-! ## Runs -/

def emptySystem : System := ⟨[], [], [], [], [], [], []⟩

/-- An uploaded source, and a call for a project from it. -/
def uploaded : PreflightInput := ⟨"user", .zip, none, some "zip-1", none, 1000⟩

def projectCall (name : String) : ProjectInput :=
  ⟨"pre", "user", name, false, false, [], none, none, none⟩

/-- The steps of a call after its start. -/
def createSteps (i : ℕ) (project job : String) (now : ℤ) : List Action :=
  [.select i, .insertProject i project, .insertJob i job, .mark i now, .commit i]

/-- A recovery statement finds a preflight stale and comes to it only after it was completed and
consumed; it is then claimed, completed and consumed again. -/
def requeuedRun : List Action :=
  [.submit uploaded "pre" 0, .claim "pre" 0, .recover 400 300 25,
    .attempt 0 (.complete ⟨"zip-1", none, .null⟩) 400, .call (projectCall "one") 400] ++
  createSteps 1 "p1" "j1" 400 ++
  [.lockNext 0, .finish 0, .claim "pre" 500, .attempt 1 (.complete ⟨"zip-1", none, .null⟩) 500,
    .call (projectCall "two") 500] ++
  createSteps 2 "p2" "j2" 500

/-- Two projects and two import jobs come from one preflight. -/
theorem preflight_becomes_two_projects :
    ∃ s, (machine id).init emptySystem ∧ (machine id).exec emptySystem requeuedRun = some s ∧
      ¬BecomesOneProject id emptySystem s := by
  refine ⟨_, ⟨rfl, rfl, rfl, rfl⟩, rfl, fun hs => ?_⟩
  have honce := hs.once 1 2 "pre" _ _ _ _ _ _ ⟨_, rfl, rfl, rfl⟩ ⟨_, rfl, rfl, rfl⟩
  cases honce

/-- A worker stops, its preflight is recovered, claimed again and completed, a project is
created from it, and it expires. -/
def recoveredRun : List Action :=
  [.submit uploaded "pre" 0, .claim "pre" 0, .recover 400 300 25, .lockNext 0, .finish 0,
    .claim "pre" 400, .attempt 0 .heartbeat 401,
    .attempt 1 (.complete ⟨"zip-1", none, .null⟩) 402, .call (projectCall "one") 403] ++
  createSteps 1 "p1" "j1" 403 ++ [.expire 1000 25, .lockNext 2, .finish 2]

/-- The state after `recoveredRun`. -/
def recovered : System := ((machine id).exec emptySystem recoveredRun).getD emptySystem

theorem preflight_becomes_one_project_recovered : BecomesOneProject id emptySystem recovered := by
  have hrun : (machine id).exec emptySystem recoveredRun = some recovered := by rfl
  exact preflight_becomes_one_project ⟨rfl, rfl, rfl, rfl⟩ (by decide) hrun

end Eveland.SourcePreflights
