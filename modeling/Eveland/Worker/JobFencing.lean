/-
# Attempts fence executions

A claim counts an attempt on the row, and every write an execution makes is conditional
on the row still running under the attempt it was claimed under. Once the row was
recovered and claimed again the attempts differ for good, so the earlier execution
changes nothing any more, however late its writes arrive; and as settling takes the row
out of its running state, a claim is settled once at most.
-/

import Eveland.Worker.JobExecutions

namespace Eveland.JobExecutions

open JobStore

/-! ## Fenced writes -/

/-- A write that changes no row but the one running under this attempt, and does not
change whose attempt it is. -/
def FencedWrite (jobId : String) (attempt : ℕ) (s t : Store) : Prop :=
  ∃ (p : JobRow → Bool) (f : JobRow → JobRow), t = s.updateJobs p f ∧
    (∀ row, p row = true → row.id = jobId ∧ row.status = .running ∧ row.attempts = attempt) ∧
    (∀ row, (f row).id = row.id) ∧ ∀ row, (f row).attempts = row.attempts

namespace FencedWrite

variable {jobId : String} {attempt : ℕ} {s t : Store}

theorem refl (jobId : String) (attempt : ℕ) (s : Store) : FencedWrite jobId attempt s s := by
  refine ⟨fun _ => false, id, ?_, by simp, fun _ => rfl, fun _ => rfl⟩
  rw [Store.updateJobs, Table.updateWhere_eq_self (by simp)]

/-- A row that differs after the write is the one running under the attempt. -/
theorem findJob_eq (h : FencedWrite jobId attempt s t) (other : String)
    (hchanged : t.findJob other ≠ s.findJob other) :
    other = jobId ∧ ∃ row, s.findJob other = some row ∧ row.status = .running ∧
      row.attempts = attempt := by
  obtain ⟨p, f, rfl, hp, hid, _⟩ := h
  rw [Store.findJob_updateJobs hid] at hchanged
  cases hfound : s.findJob other with
  | none => simp [hfound] at hchanged
  | some row =>
      have hrow : p row = true := by
        by_contra hnot
        simp [hfound, hnot] at hchanged
      obtain ⟨hjob, hrunning, hattempt⟩ := hp row hrow
      have hkey : row.id = other := by simpa using List.find?_some hfound
      exact ⟨hkey.symm.trans hjob, row, rfl, hrunning, hattempt⟩

/-- Under an attempt that is no longer the row's, the write changes nothing. -/
theorem eq_of_stale (h : FencedWrite jobId attempt s t) (hkeyed : WellKeyed s)
    (hstale : attempt ≠ s.attemptsOf jobId) : t = s := by
  obtain ⟨p, f, rfl, hp, _⟩ := h
  rw [Store.updateJobs, Table.updateWhere_eq_self]
  intro row hrow hsel
  obtain ⟨rfl, _, rfl⟩ := hp row hsel
  rw [Store.attemptsOf, (Store.findJob_eq_some hkeyed).mpr ⟨hrow, rfl⟩] at hstale
  exact absurd rfl hstale

end FencedWrite

theorem replaceJobPayload_fenced {s t : Store} {jobId : String} {type : JobType}
    {payload : Json} {attempt : ℕ} {now : ℤ}
    (hreplace : JobStore.replaceJobPayload s jobId type payload attempt now = .ok t) :
    FencedWrite jobId attempt s t := by
  unfold JobStore.replaceJobPayload at hreplace
  obtain ⟨decoded, _, hreplace⟩ := Outcome.bind_eq_ok.mp hreplace
  cases hreplace
  refine ⟨_, _, rfl, fun row hrow => ?_, fun _ => rfl, fun _ => rfl⟩
  simp only [Bool.and_eq_true, decide_eq_true_eq] at hrow
  exact ⟨hrow.1.1.1, hrow.1.2, hrow.2⟩

theorem clearTemporaryGitCredential_fenced {s t : Store} {e : Execution} {now : ℤ}
    (hclear : clearTemporaryGitCredential s e now = .ok t) :
    FencedWrite e.jobId e.attempt s t := by
  unfold clearTemporaryGitCredential at hclear
  split at hclear
  · exact replaceJobPayload_fenced hclear
  · cases hclear
    exact FencedWrite.refl _ _ _

theorem settles_fenced {jobId : String} {attempt : ℕ} {row : JobRow}
    (hsettles : settles jobId (some attempt) row = true) :
    row.id = jobId ∧ row.status = .running ∧ row.attempts = attempt := by
  simpa [settles] using hsettles

/-- **Every operation of an execution is fenced by its attempt.** -/
theorem operate_fenced {s t : Store} {e : Execution} {operation : Operation} {phase : Phase}
    (hoperate : operate s e operation = some (t, phase)) :
    FencedWrite e.jobId e.attempt s t := by
  cases operation with
  | quarantine now =>
      simp only [operate] at hoperate
      split at hoperate
      · cases hoperate
        refine ⟨_, _, rfl, fun row hrow => ?_, fun _ => rfl, fun _ => rfl⟩
        simpa [and_assoc] using hrow
      · cases hoperate
  | heartbeat now =>
      simp only [operate] at hoperate
      split at hoperate
      · cases hoperate
      · cases hoperate
        refine ⟨_, _, rfl, fun row hrow => ?_, fun _ => rfl, fun _ => rfl⟩
        simpa [and_assoc] using hrow
  | replacePayload type payload now =>
      simp only [operate] at hoperate
      split at hoperate
      · split at hoperate
        · next hreplace =>
            cases hoperate
            exact replaceJobPayload_fenced hreplace
        · cases hoperate
          exact FencedWrite.refl _ _ _
      · cases hoperate
  | dispatchEnds succeeded =>
      simp only [operate] at hoperate
      split at hoperate
      · cases hoperate
        exact FencedWrite.refl _ _ _
      · cases hoperate
  | clearCredential now replyLost =>
      simp only [operate] at hoperate
      split at hoperate
      · split at hoperate
        · next hclear =>
            cases hoperate
            exact clearTemporaryGitCredential_fenced hclear
        · cases hoperate
          exact FencedWrite.refl _ _ _
      · cases hoperate
  | complete now replyLost =>
      simp only [operate] at hoperate
      split at hoperate
      · cases hoperate
        exact ⟨_, _, rfl, fun row hrow => settles_fenced hrow, fun _ => rfl, fun _ => rfl⟩
      · cases hoperate
  | fail error now =>
      simp only [operate] at hoperate
      split at hoperate
      · cases hoperate
        exact ⟨_, _, rfl, fun row hrow => settles_fenced hrow, fun _ => rfl, fun _ => rfl⟩
      · cases hoperate

/-! ## What leaves the attempts alone -/

/-- A change that counts no attempt and starts no job. -/
structure Calm (s t : Store) : Prop where
  keyed : WellKeyed s → WellKeyed t
  attempts : ∀ jobId, t.attemptsOf jobId = s.attemptsOf jobId
  running : ∀ row ∈ t.jobs, row.status = .running → ∃ old ∈ s.jobs, old.status = .running ∧
    row.id = old.id ∧ row.attempts = old.attempts

theorem Calm.of_quiet {action : JobStore.Action} {s t : Store} (h : Quiet action s t) :
    Calm s t where
  keyed := h.keyed
  attempts := h.attempts
  running row hrow hrunning := by
    obtain ⟨old, hold, hwas, hid, _, _, hattempts, _⟩ := h.rows row hrow hrunning
    exact ⟨old, hold, hwas, hid, hattempts⟩

theorem FencedWrite.calm {jobId : String} {attempt : ℕ} {s t : Store}
    (h : FencedWrite jobId attempt s t) : Calm s t := by
  obtain ⟨p, f, rfl, hp, hid, hattempts⟩ := h
  refine ⟨fun hkeyed => Table.UniqueOn.updateWhere hkeyed hid, fun other => ?_, ?_⟩
  · rw [Store.attemptsOf, Store.attemptsOf, Store.findJob_updateJobs hid, Option.map_map]
    congr 2
    funext row
    by_cases hrow : p row = true <;> simp [hrow, hattempts]
  · intro row hrow hrunning
    rcases Table.mem_updateWhere.mp hrow with ⟨hold, _⟩ | ⟨old, hold, hsel, rfl⟩
    · exact ⟨row, hold, hrunning, rfl, rfl⟩
    · exact ⟨old, hold, (hp old hsel).2.1, hid old, hattempts old⟩

theorem requeue_calm (s : Store) (jobIds : List String) (now : ℤ) :
    Calm s (requeue s jobIds now) := by
  have hquiet : Quiet (.recoverStaleJobs now 0 0) s (requeue s jobIds now) :=
    Quiet.updateJobs_of_stopped (fun _ => rfl) (fun _ => rfl) (fun _ => rfl) (fun _ => rfl)
      (by simp)
  exact Calm.of_quiet hquiet

theorem isOutside_calm {s t : Store} {action : JobStore.Action}
    (houtside : isOutside action = true) (hstep : JobStore.step s action = some t) : Calm s t := by
  refine Calm.of_quiet (step_quiet hstep ?_)
  rintro now options locked rfl
  cases houtside

/-- A claim counts one attempt, on the row it starts. -/
theorem claimStatement_attempts {s t : Store} {now : ℤ} {options : ClaimOptions}
    {locked : List String} {row : JobRow} (hkeyed : WellKeyed s)
    (hclaim : claimStatement s now options locked = some (t, row)) :
    row.attempts = s.attemptsOf row.id + 1 ∧ t.attemptsOf row.id = row.attempts ∧
      ∀ jobId, jobId ≠ row.id → t.attemptsOf jobId = s.attemptsOf jobId := by
  obtain ⟨candidate, hstored, _, rfl, rfl⟩ := claimStatement_cases hclaim
  have hfound := (Store.findJob_eq_some hkeyed).mpr ⟨hstored, rfl⟩
  refine ⟨by simp [Store.attemptsOf, hfound], ?_, fun jobId hne => ?_⟩
  · rw [Store.attemptsOf, Store.findJob_updateJobs (by simp), hfound]
    simp
  · rw [Store.attemptsOf, Store.attemptsOf, Store.findJob_updateJobs (by simp)]
    cases hother : s.findJob jobId with
    | none => rfl
    | some other =>
        have hkey : other.id = jobId := by simpa using List.find?_some hother
        have hskip : other.id ≠ candidate.id := by rw [hkey]; exact hne
        simp [hskip]

/-! ## The invariant -/

/-- What holds of a system of executions: claims are told apart by their attempts, and a
settled claim is behind the row it settled. -/
structure Fencing (sys : System) : Prop where
  keyed : WellKeyed sys.store
  claimed : ∀ e ∈ sys.executions, e.attempt ≤ sys.store.attemptsOf e.jobId
  claims : (sys.executions.map Execution.claim).Nodup
  settled : ∀ c ∈ sys.settlements, c.2 ≤ sys.store.attemptsOf c.1 ∧
    ∀ row ∈ sys.store.jobs, row.id = c.1 → row.status = .running → row.attempts ≠ c.2
  settlements : sys.settlements.Nodup

theorem fencing_of_init {sys : System} (h : machine.init sys) : Fencing sys := by
  obtain ⟨hkeyed, hexecutions, _, hsettlements⟩ := h
  exact ⟨hkeyed, by simp [hexecutions], by simp [hexecutions], by simp [hsettlements],
    by simp [hsettlements]⟩

/-- A calm change behind the same claims keeps the invariant, and a settled claim stays
settled. -/
theorem Fencing.calm {sys next : System} (h : Fencing sys) (hcalm : Calm sys.store next.store)
    (hclaims : next.executions.map Execution.claim = sys.executions.map Execution.claim)
    (hsettlements : next.settlements = sys.settlements) : Fencing next where
  keyed := hcalm.keyed h.keyed
  claimed e he := by
    have hmem : e.claim ∈ sys.executions.map Execution.claim :=
      hclaims ▸ List.mem_map_of_mem he
    obtain ⟨old, hold, hsame⟩ := List.mem_map.mp hmem
    obtain ⟨hjob, hattempt⟩ := Prod.mk.inj hsame
    rw [hcalm.attempts, ← hjob, ← hattempt]
    exact h.claimed old hold
  claims := hclaims ▸ h.claims
  settled c hc := by
    rw [hsettlements] at hc
    refine ⟨(h.settled c hc).1.trans (hcalm.attempts c.1).ge, ?_⟩
    intro row hrow hid hrunning
    obtain ⟨old, hold, hwas, hidOld, hattempts⟩ := hcalm.running row hrow hrunning
    rw [hattempts]
    exact (h.settled c hc).2 old hold (hidOld ▸ hid) hwas
  settlements := hsettlements ▸ h.settlements

/-- Recording a claim that the write took out of its running state keeps the invariant. -/
theorem Fencing.settle {sys next : System} {c : String × ℕ} (h : Fencing next)
    (hsettlements : next.settlements = sys.settlements)
    (hbound : c.2 ≤ next.store.attemptsOf c.1)
    (hstopped : ∀ row ∈ next.store.jobs, row.id = c.1 → row.status = .running →
      row.attempts ≠ c.2) (hfresh : c ∉ sys.settlements) :
    Fencing { next with settlements := sys.settlements ++ [c] } where
  keyed := h.keyed
  claimed := h.claimed
  claims := h.claims
  settled d hd := by
    rcases List.mem_append.mp hd with hd | hd
    · exact h.settled d (hsettlements ▸ hd)
    · rw [List.mem_singleton.mp hd]
      exact ⟨hbound, hstopped⟩
  settlements := by
    rw [List.nodup_append]
    refine ⟨hsettlements ▸ h.settlements, List.nodup_singleton c, ?_⟩
    intro d hd d' hd' hsame
    rw [List.mem_singleton.mp hd'] at hsame
    exact hfresh (hsame ▸ hd)

/-- An operation keeps the claim of the execution that makes it. -/
theorem claims_set {executions : List Execution} {i : ℕ} {e : Execution} (phase : Phase)
    (he : executions[i]? = some e) :
    (executions.set i { e with phase }).map Execution.claim =
      executions.map Execution.claim := by
  apply List.ext_getElem?
  intro j
  rw [List.getElem?_map, List.getElem?_map, List.getElem?_set]
  by_cases hij : i = j
  · subst hij
    obtain ⟨hlt, hget⟩ := List.getElem?_eq_some_iff.mp he
    simp [hlt, hget, Execution.claim]
  · simp [hij]

/-- After a settling write no row runs under the attempt. -/
theorem stopped_after_write {s : Store} {jobId : String} {attempt : ℕ} {p : JobRow → Bool}
    {f : JobRow → JobRow}
    (hp : ∀ row, row.id = jobId → row.status = .running → row.attempts = attempt → p row = true)
    (hf : ∀ row, (f row).status ≠ .running) :
    ∀ row ∈ (s.updateJobs p f).jobs, row.id = jobId → row.status = .running →
      row.attempts ≠ attempt := by
  intro row hrow hid hrunning hattempt
  rcases Table.mem_updateWhere.mp hrow with ⟨_, hskipped⟩ | ⟨old, _, _, rfl⟩
  · rw [hp row hid hrunning hattempt] at hskipped
    cases hskipped
  · exact hf old hrunning

theorem operate_stops {s t : Store} {e : Execution} {operation : Operation} {phase : Phase}
    (hsettles : operation.isSettlement = true)
    (hoperate : operate s e operation = some (t, phase)) :
    ∀ row ∈ t.jobs, row.id = e.jobId → row.status = .running → row.attempts ≠ e.attempt := by
  cases operation with
  | quarantine now =>
      simp only [operate] at hoperate
      split at hoperate
      · cases hoperate
        exact stopped_after_write (by simp_all) (by simp)
      · cases hoperate
  | complete now replyLost =>
      simp only [operate] at hoperate
      split at hoperate
      · cases hoperate
        exact stopped_after_write (by simp_all [settles]) (by simp)
      · cases hoperate
  | fail error now =>
      simp only [operate] at hoperate
      split at hoperate
      · cases hoperate
        exact stopped_after_write (by simp_all [settles]) (by simp)
      · cases hoperate
  | _ => cases hsettles

/-- What a step of an execution is made of. -/
theorem step_operate {sys next : System} {i : ℕ} {operation : Operation}
    (hstep : step sys (.operate i operation) = some next) :
    ∃ e store phase, sys.executions[i]? = some e ∧
      operate sys.store e operation = some (store, phase) ∧
      next = { sys with
        store
        executions := sys.executions.set i { e with phase }
        settlements := sys.settlements ++
          if operation.isSettlement && sys.store.jobs.any (settles e.jobId (some e.attempt)) then
            [e.claim]
          else [] } := by
  simp only [step, Option.bind_eq_bind, Option.bind_eq_some_iff] at hstep
  obtain ⟨e, he, ⟨store, phase⟩, hoperate, hnext⟩ := hstep
  exact ⟨e, store, phase, he, hoperate, (Option.some.inj hnext).symm⟩

theorem Fencing.operate {sys next : System} {i : ℕ} {operation : Operation} (h : Fencing sys)
    (hstep : step sys (.operate i operation) = some next) : Fencing next := by
  obtain ⟨e, store, phase, he, hoperate, rfl⟩ := step_operate hstep
  have hcalm := (operate_fenced hoperate).calm
  -- The step without its settlement; the settlement is recorded on top of it.
  have hbase : Fencing { sys with store, executions := sys.executions.set i { e with phase } } :=
    h.calm hcalm (claims_set phase he) rfl
  split
  · next hsettles =>
      simp only [Bool.and_eq_true, List.any_eq_true] at hsettles
      obtain ⟨hkind, row, hrow, hmatch⟩ := hsettles
      obtain ⟨hid, hrunning, hattempt⟩ := settles_fenced hmatch
      have hfound := (Store.findJob_eq_some h.keyed).mpr ⟨hrow, hid⟩
      refine hbase.settle rfl ?_ (operate_stops hkind hoperate) ?_
      · change e.attempt ≤ store.attemptsOf e.jobId
        rw [hcalm.attempts, Store.attemptsOf, hfound, ← hattempt]
        rfl
      · intro hsettled
        exact (h.settled _ hsettled).2 row hrow hid hrunning hattempt
  · simpa using hbase

theorem Fencing.claim {sys : System} {t : Store} {now : ℤ} {options : ClaimOptions}
    {locked : List String} {row : JobRow} (h : Fencing sys)
    (hclaim : claimStatement sys.store now options locked = some (t, row)) :
    Fencing { sys with store := t, executions := sys.executions ++ [execute row] } := by
  obtain ⟨hnext, hself, hothers⟩ := claimStatement_attempts h.keyed hclaim
  have hgrows : ∀ jobId, sys.store.attemptsOf jobId ≤ t.attemptsOf jobId := by
    intro jobId
    by_cases hid : jobId = row.id
    · subst hid
      omega
    · rw [hothers jobId hid]
  obtain ⟨candidate, hstored, _, hrow, ht⟩ := claimStatement_cases hclaim
  refine ⟨?_, ?_, ?_, ?_, h.settlements⟩
  · rw [WellKeyed, ht]
    exact Table.UniqueOn.updateWhere h.keyed fun _ => rfl
  · intro e he
    rcases List.mem_append.mp he with he | he
    · exact (h.claimed e he).trans (hgrows e.jobId)
    · rw [List.mem_singleton.mp he]
      exact hself.ge
  · -- Every earlier claim of the job is behind the attempt just counted.
    rw [List.map_append, List.nodup_append]
    refine ⟨h.claims, List.nodup_singleton _, ?_⟩
    rintro c hc d hd rfl
    obtain ⟨e, he, hclaimed⟩ := List.mem_map.mp hc
    obtain ⟨hjob, hattempt⟩ := Prod.mk.inj (hclaimed.trans (List.mem_singleton.mp hd))
    have hbound := h.claimed e he
    change e.jobId = row.id at hjob
    change e.attempt = row.attempts at hattempt
    rw [hjob] at hbound
    omega
  · intro c hc
    refine ⟨(h.settled c hc).1.trans (hgrows c.1), ?_⟩
    intro other hother hid hrunning
    change other ∈ t.jobs at hother
    rw [ht] at hother
    rcases Table.mem_updateWhere.mp hother with ⟨hold, _⟩ | ⟨old, hold, hkey, rfl⟩
    · exact (h.settled c hc).2 other hold hid hrunning
    · have hfound := (Store.findJob_eq_some h.keyed).mpr ⟨hold, hid⟩
      have hbound := (h.settled c hc).1
      simp only [Store.attemptsOf, hfound, Option.map_some, Option.getD_some] at hbound
      change old.attempts + 1 ≠ c.2
      omega

theorem step_fencing {sys next : System} {action : Action} (h : Fencing sys)
    (hstep : step sys action = some next) : Fencing next := by
  cases action with
  | outside action =>
      simp only [step] at hstep
      split at hstep
      · next houtside =>
          obtain ⟨store, hstore, rfl⟩ := Option.map_eq_some_iff.mp hstep
          exact h.calm (isOutside_calm houtside hstore) rfl rfl
      · cases hstep
  | claim now options locked =>
      obtain ⟨⟨t, row⟩, hclaim, rfl⟩ := Option.map_eq_some_iff.mp hstep
      exact h.claim hclaim
  | operate i operation => exact h.operate hstep
  | selectStale now staleAfterMs limit =>
      cases hstep
      exact ⟨h.keyed, h.claimed, h.claims, h.settled, h.settlements⟩
  | requeueStale k now =>
      simp only [step, Option.bind_eq_bind, Option.bind_eq_some_iff] at hstep
      obtain ⟨jobIds, _, hnext⟩ := hstep
      cases hnext
      exact h.calm (requeue_calm _ _ _) rfl rfl

/-! ## Every run -/

/-- What one step may do to the attempts and the rows. -/
structure StepFenced (sys next : System) (action : Action) : Prop where
  /-- No step takes an attempt back. -/
  monotone : ∀ jobId, sys.store.attemptsOf jobId ≤ next.store.attemptsOf jobId
  /-- A claim is made under an attempt past every earlier one of the job. -/
  claims : ∀ now options locked, action = .claim now options locked →
    ∃ e, next.executions = sys.executions ++ [e] ∧
      e.attempt = sys.store.attemptsOf e.jobId + 1 ∧
      next.store.attemptsOf e.jobId = e.attempt
  /-- An operation changes only the row that is running under its own attempt. -/
  writes : ∀ i operation e, action = .operate i operation → sys.executions[i]? = some e →
    ∀ jobId, next.store.findJob jobId ≠ sys.store.findJob jobId →
      jobId = e.jobId ∧ ∃ row, sys.store.findJob jobId = some row ∧ row.status = .running ∧
        row.attempts = e.attempt

/-- Steps other than claims are calm. -/
theorem step_calm {sys next : System} {action : Action}
    (hclaim : ∀ now options locked, action ≠ .claim now options locked)
    (hstep : step sys action = some next) : Calm sys.store next.store := by
  cases action with
  | outside action =>
      simp only [step] at hstep
      split at hstep
      · next houtside =>
          obtain ⟨store, hstore, rfl⟩ := Option.map_eq_some_iff.mp hstep
          exact isOutside_calm houtside hstore
      · cases hstep
  | claim now options locked => exact absurd rfl (hclaim now options locked)
  | operate i operation =>
      obtain ⟨e, store, phase, _, hoperate, rfl⟩ := step_operate hstep
      exact (operate_fenced hoperate).calm
  | selectStale now staleAfterMs limit =>
      cases hstep
      exact (FencedWrite.refl "" 0 sys.store).calm
  | requeueStale k now =>
      simp only [step, Option.bind_eq_bind, Option.bind_eq_some_iff] at hstep
      obtain ⟨jobIds, _, hnext⟩ := hstep
      cases hnext
      exact requeue_calm _ _ _

theorem step_fenced {sys next : System} {action : Action} (h : Fencing sys)
    (hstep : step sys action = some next) : StepFenced sys next action where
  monotone jobId := by
    by_cases hclaim : ∃ now options locked, action = .claim now options locked
    · obtain ⟨now, options, locked, rfl⟩ := hclaim
      obtain ⟨⟨t, row⟩, hclaim, rfl⟩ := Option.map_eq_some_iff.mp hstep
      obtain ⟨hnext, hself, hothers⟩ := claimStatement_attempts h.keyed hclaim
      by_cases hid : jobId = row.id
      · subst hid
        exact (Nat.le_succ _).trans (hnext.ge.trans hself.ge)
      · exact (hothers jobId hid).ge
    · have hcalm := step_calm (fun now options locked heq =>
        hclaim ⟨now, options, locked, heq⟩) hstep
      exact (hcalm.attempts jobId).ge
  claims := by
    rintro now options locked rfl
    obtain ⟨⟨t, row⟩, hclaim, rfl⟩ := Option.map_eq_some_iff.mp hstep
    obtain ⟨hnext, hself, _⟩ := claimStatement_attempts h.keyed hclaim
    exact ⟨execute row, rfl, hnext, hself⟩
  writes := by
    rintro i operation e rfl he jobId hchanged
    obtain ⟨e', store, phase, he', hoperate, rfl⟩ := step_operate hstep
    obtain rfl := Option.some.inj (he.symm.trans he')
    exact (operate_fenced hoperate).findJob_eq jobId hchanged

/-- An execution that fell behind its row stays behind it. -/
theorem exec_behind {sys later : System} {actions : List Action} {i : ℕ} {e : Execution}
    (h : Fencing sys) (he : sys.executions[i]? = some e)
    (hbehind : e.attempt < sys.store.attemptsOf e.jobId)
    (hrun : machine.exec sys actions = some later) :
    Fencing later ∧ ∃ e', later.executions[i]? = some e' ∧
      e'.attempt < later.store.attemptsOf e'.jobId := by
  refine machine.exec_invariant
    (I := fun s => Fencing s ∧ ∃ e', s.executions[i]? = some e' ∧
      e'.attempt < s.store.attemptsOf e'.jobId)
    (G := fun _ _ => True) ?_ ⟨h, e, he, hbehind⟩ (machine.meets_true sys actions) hrun
  rintro s action t ⟨hs, d, hd, hlt⟩ _ hstep
  obtain ⟨d', hd', hsame, _, _⟩ := executions_step hstep hd
  obtain ⟨hjob, hattempt⟩ := Prod.mk.inj hsame
  refine ⟨step_fencing hs hstep, d', hd', ?_⟩
  have hmonotone := (step_fenced hs hstep).monotone d'.jobId
  rw [hjob] at hmonotone
  rw [hjob, hattempt]
  omega

/-- **Attempts fence executions.** In every reachable state: every step counts attempts
and changes rows as `StepFenced` says; an execution whose job was claimed again changes
nothing in any later state; no two claims are the same; and no claim is settled twice. -/
theorem attempts_fence_executions {sys : System} (hs : machine.Reachable sys) :
    (∀ action next, step sys action = some next → StepFenced sys next action) ∧
    (∀ i e, sys.executions[i]? = some e → e.attempt < sys.store.attemptsOf e.jobId →
      ∀ actions later, machine.exec sys actions = some later →
        ∀ operation next, step later (.operate i operation) = some next →
          next.store = later.store) ∧
    (sys.executions.map Execution.claim).Nodup ∧ sys.settlements.Nodup := by
  have h : Fencing sys :=
    hs.invariant (fun _ => fencing_of_init) fun _ _ _ h hstep => step_fencing h hstep
  refine ⟨fun action next hstep => step_fenced h hstep, ?_, h.claims, h.settlements⟩
  intro i e he hbehind actions later hrun operation next hstep
  obtain ⟨hlater, e', he', hlt⟩ := exec_behind h he hbehind hrun
  obtain ⟨d, store, phase, hd, hoperate, rfl⟩ := step_operate hstep
  obtain rfl := Option.some.inj (he'.symm.trans hd)
  exact (operate_fenced hoperate).eq_of_stale hlater.keyed hlt.ne

/-- One project, no job and no worker. -/
def idle : System :=
  { store :=
      { jobs := [], nextSequence := 1, projects := [⟨"project", false⟩], deployments := [],
        runtimeInstances := [] }
    executions := [], sweeps := [], settlements := [] }

/-- A job is claimed, recovered as stale and claimed again. -/
def reclaim : List Action :=
  [.outside (.enqueueJob "project" .deleteProject (.obj []) "job" 0),
   .claim 0 ⟨none, none⟩ [],
   .selectStale 300000 300000 25,
   .requeueStale 0 300000,
   .claim 300000 ⟨none, none⟩ []]

/-- The first execution of `reclaim` wakes up and finishes its work. -/
def wake : List Action :=
  [.operate 0 (.dispatchEnds true), .operate 0 (.clearCredential 300001 false)]

/-- The first execution of `reclaim` wakes up and completes its job, to no effect. -/
theorem attempts_fence_executions_reclaim :
    ∃ sys later next, machine.exec idle reclaim = some sys ∧
      machine.exec sys wake = some later ∧
      step later (.operate 0 (.complete 300002 false)) = some next ∧
      next.store = later.store := by
  have hidle : machine.init idle := ⟨List.nodup_nil, rfl, rfl, rfl⟩
  have hreached := (Machine.Reachable.of_init hidle).of_exec
    (show machine.exec idle reclaim = some _ from rfl)
  refine ⟨_, _, _, rfl, rfl, rfl, ?_⟩
  exact (attempts_fence_executions hreached).2.1 0 _ rfl (by decide) wake _ rfl
    (.complete 300002 false) _ rfl

end Eveland.JobExecutions
