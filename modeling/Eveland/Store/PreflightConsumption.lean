/-
# What becomes of a source preflight

Any number of calls turn preflights into projects, each in a transaction that locks its
preflight first, while workers claim preflights and settle their attempts and sweeps put stale
preflights back into the queue or delete expired ones. Every statement runs under READ
COMMITTED: a sweep takes its candidates from a snapshot, locks them one after the other, waiting
for a row that is locked, and does to each whatever its statement says, in the version it then
finds. What a transaction or a statement has written is seen when it commits; the rows it has
written are locked until then.
-/

import Eveland.Foundations.Machine
import Eveland.Foundations.RowLocks
import Eveland.Store.SourcePreflights

namespace Eveland.SourcePreflights

/-! ## Sessions -/

/-- How a call of `createProjectFromSourcePreflight` ends; `failed` is one that throws. -/
inductive CreateOutcome where
  | notFound
  | consumed
  | notReady
  | failed
  | created (preflight : SourcePreflight) (project : ProjectRow) (job : ImportJob)

/-- How far a call of `createProjectFromSourcePreflight` is. -/
inductive CreatePhase where
  | called
  /-- The preflight is locked and ready. -/
  | selected (preflight : SourcePreflight)
  | projectInserted (preflight : SourcePreflight) (project : ProjectRow)
  /-- The secrets and the job are inserted. -/
  | jobInserted (preflight : SourcePreflight) (project : ProjectRow) (job : ImportJob)
  /-- The preflight is marked consumed. -/
  | marked (preflight : SourcePreflight) (project : ProjectRow) (job : ImportJob) (now : ℤ)
  | ended (outcome : CreateOutcome)

structure CreateCall where
  input : ProjectInput
  now : ℤ
  phase : CreatePhase

/-- The preflight that the call has locked. -/
def CreatePhase.preflight? : CreatePhase → Option SourcePreflight
  | .called => none
  | .selected preflight => some preflight
  | .projectInserted preflight _ => some preflight
  | .jobInserted preflight _ _ => some preflight
  | .marked preflight _ _ _ => some preflight
  | .ended _ => none

/-- The project that the call has inserted and not committed. -/
def CreatePhase.project? : CreatePhase → Option ProjectRow
  | .projectInserted _ project => some project
  | .jobInserted _ project _ => some project
  | .marked _ project _ _ => some project
  | _ => none

inductive SweepKind where
  | recover
  | expire
  deriving DecidableEq

/-- A statement over several preflights: the candidates of its snapshot that are left, the rows
it has locked, and once it has ended the rows it has deleted. -/
structure Sweep where
  kind : SweepKind
  now : ℤ
  candidates : List String
  held : List String
  deleted : Option (List SourcePreflight)

inductive Session where
  | create (call : CreateCall)
  | sweep (statement : Sweep)

/-- The session has the row locked. -/
def Session.holds (session : Session) (id : String) : Bool :=
  match session with
  | .create call => call.phase.preflight?.any fun preflight => preflight.id = id
  | .sweep statement => statement.deleted.isNone && statement.held.contains id

/-- The session has inserted a project under the slug and not committed it. -/
def Session.claimsSlug (session : Session) (slug : String) : Bool :=
  match session with
  | .create call => call.phase.project?.any fun project => project.slug = slug
  | .sweep _ => false

structure System where
  preflights : List SourcePreflight
  /-- The ids that `createId` has drawn for preflights. -/
  issued : List String
  projects : List ProjectRow
  secrets : List SecretRow
  jobs : List ImportJob
  sessions : List Session
  /-- The preflights that workers have claimed, with the attempt each claim returned. -/
  claims : List (String × ℕ)

def System.locked (s : System) (id : String) : Bool :=
  s.sessions.any fun session => session.holds id

def System.setCall (s : System) (i : ℕ) (call : CreateCall) (phase : CreatePhase) : System :=
  { s with sessions := s.sessions.set i (.create { call with phase }) }

def System.setSweep (s : System) (i : ℕ) (sweep : Sweep) : System :=
  { s with sessions := s.sessions.set i (.sweep sweep) }

inductive Action where
  /-- `createSourcePreflight`. -/
  | submit (input : PreflightInput) (id : String) (now : ℤ)
  /-- `claimNextSourcePreflight` takes the row. -/
  | claim (id : String) (now : ℤ)
  /-- The worker of the `n`-th claim renews, completes or fails it. -/
  | attempt (n : ℕ) (call : AttemptCall) (now : ℤ)
  /-- `createProjectFromSourcePreflight` is called. -/
  | call (input : ProjectInput) (now : ℤ)
  /-- It selects the preflight for update. -/
  | select (i : ℕ)
  | insertProject (i : ℕ) (id : String)
  /-- It inserts the secrets and the job. -/
  | insertJob (i : ℕ) (id : String)
  | mark (i : ℕ) (now : ℤ)
  | commit (i : ℕ)
  /-- It throws, and the transaction is rolled back. -/
  | rollback (i : ℕ)
  /-- `recoverStaleSourcePreflights` takes its snapshot. -/
  | recover (now staleAfter : ℤ) (limit : ℕ)
  /-- `expireSourcePreflights` takes its snapshot. -/
  | expire (now : ℤ) (limit : ℕ)
  /-- A sweep locks the next of its candidates. -/
  | lockNext (i : ℕ)
  /-- A sweep commits. -/
  | finish (i : ℕ)
  | cancel (i : ℕ)

/-! ## Steps -/

variable (s : System) (i : ℕ)

/-- The claim takes a row of its choice that no session has locked: rows that are locked are
skipped, and a row that has changed since the snapshot is looked at again. -/
def claim (id : String) (now : ℤ) : Option System :=
  (s.preflights.find? fun row => row.id = id).bind fun row =>
    if claimable now row && !s.locked id then
      some { s with
        preflights := Table.updateWhere (fun row => row.id = id) (SourcePreflight.claimed now)
          s.preflights
        claims := s.claims ++ [(id, row.attempts + 1)] }
    else none

/-- A worker's statement waits while the row it finds is locked. -/
def attempt (call : AttemptCall) (id : String) (attempts : ℕ) (now : ℤ) : Option System :=
  let (preflights, changed) := attemptSourcePreflight call id attempts now s.preflights
  if changed && s.locked id then none else some { s with preflights }

/-- The first statement of the transaction, and what the call returns where it goes no
further. -/
def select (call : CreateCall) : Option System :=
  match s.preflights.find? fun row =>
    row.id = call.input.preflightId && row.userId = call.input.userId with
  | none => some (s.setCall i call (.ended .notFound))
  | some preflight =>
      if s.locked preflight.id then none
      else if preflight.status = .consumed then some (s.setCall i call (.ended .consumed))
      else if ready call.now preflight then some (s.setCall i call (.selected preflight))
      else some (s.setCall i call (.ended .notReady))

/-- The project is inserted under the slug of its name. The statement waits while another
session has inserted that slug, and throws where it is taken. -/
def insertProject (fold : List Char → List Char) (call : CreateCall) (preflight : SourcePreflight)
    (id : String) : Option System :=
  match slugifyProjectName fold call.input.name with
  | .error _ => some (s.setCall i call (.ended .failed))
  | .ok slug =>
      if s.projects.any fun row => row.slug = slug.value || row.id = id then
        some (s.setCall i call (.ended .failed))
      else if s.sessions.any fun session => session.claimsSlug slug.value then none
      else some (s.setCall i call (.projectInserted preflight (newProject preflight id slug.value)))

/-- The transaction commits: all that it has written is seen at once. -/
def commit (call : CreateCall) (preflight : SourcePreflight) (project : ProjectRow)
    (job : ImportJob) (now : ℤ) : System :=
  { s.setCall i call (.ended (.created preflight project job)) with
    preflights := Table.updateWhere (fun row => row.id = preflight.id)
      (SourcePreflight.consume now) s.preflights
    projects := s.projects ++ [project]
    secrets := s.secrets ++ newSecrets call.input project.id
    jobs := s.jobs ++ [job] }

/-- A sweep comes to its next candidate. It waits while the row is locked, and passes over a row
that is deleted; a row that has changed since the snapshot is locked all the same, since the
condition on the rows stands in the subselect alone. -/
def lockNext (sweep : Sweep) : Option System :=
  match sweep.candidates with
  | [] => none
  | id :: rest =>
      if s.locked id then none
      else if s.preflights.any fun row => row.id = id then
        some (s.setSweep i { sweep with candidates := rest, held := sweep.held ++ [id] })
      else some (s.setSweep i { sweep with candidates := rest })

/-- A sweep commits. -/
def finish (sweep : Sweep) : System :=
  let swept (row : SourcePreflight) : Bool := sweep.held.contains row.id
  match sweep.kind with
  | .recover =>
      { s.setSweep i { sweep with deleted := some [] } with
        preflights := Table.updateWhere swept (SourcePreflight.requeued sweep.now) s.preflights }
  | .expire =>
      { s.setSweep i { sweep with deleted := some (s.preflights.filter swept) } with
        preflights := s.preflights.filter fun row => !swept row }

def System.call? : Option CreateCall :=
  match s.sessions[i]? with
  | some (.create call) => some call
  | _ => none

/-- The `i`-th session, a sweep that has not ended. -/
def System.sweep? : Option Sweep :=
  match s.sessions[i]? with
  | some (.sweep sweep) => if sweep.deleted.isNone then some sweep else none
  | _ => none

def step (fold : List Char → List Char) (s : System) : Action → Option System
  | .submit input id now =>
      if s.issued.contains id then none
      else some { s with
        preflights := s.preflights ++ [createSourcePreflight input id now]
        issued := s.issued ++ [id] }
  | .claim id now => claim s id now
  | .attempt n call now => s.claims[n]?.bind fun claimed =>
      attempt s call claimed.1 claimed.2 now
  | .call input now => some { s with sessions := s.sessions ++ [.create ⟨input, now, .called⟩] }
  | .select i => (s.call? i).bind fun call =>
      match call.phase with
      | .called => select s i call
      | _ => none
  | .insertProject i id => (s.call? i).bind fun call =>
      match call.phase with
      | .selected preflight => insertProject s i fold call preflight id
      | _ => none
  | .insertJob i id => (s.call? i).bind fun call =>
      match call.phase with
      | .projectInserted preflight project =>
          some (s.setCall i call
            (.jobInserted preflight project (newJob preflight call.input project.id id)))
      | _ => none
  | .mark i now => (s.call? i).bind fun call =>
      match call.phase with
      | .jobInserted preflight project job =>
          some (s.setCall i call (.marked preflight project job now))
      | _ => none
  | .commit i => (s.call? i).bind fun call =>
      match call.phase with
      | .marked preflight project job now => some (commit s i call preflight project job now)
      | _ => none
  | .rollback i => (s.call? i).bind fun call =>
      match call.phase with
      | .ended _ => none
      | _ => some (s.setCall i call (.ended .failed))
  | .recover now staleAfter limit =>
      some { s with sessions := s.sessions ++ [.sweep
        ⟨.recover, now, stalePreflights (now - staleAfter) limit s.preflights, [], none⟩] }
  | .expire now limit =>
      some { s with sessions := s.sessions ++ [.sweep
        ⟨.expire, now, expiredPreflights now limit s.preflights, [], none⟩] }
  | .lockNext i => (s.sweep? i).bind fun sweep => lockNext s i sweep
  | .finish i => (s.sweep? i).bind fun sweep =>
      if sweep.candidates = [] then some (finish s i sweep) else none
  | .cancel i => (s.sweep? i).map fun sweep => s.setSweep i { sweep with deleted := some [] }

/-- Calls, workers and sweeps, from any projects and jobs on. -/
def machine (fold : List Char → List Char) : Machine System Action where
  init s := s.preflights = [] ∧ s.issued = [] ∧ s.sessions = [] ∧ s.claims = []
  step := step fold

/-- The `i`-th session has created a project and a job from the preflight. -/
def Created (i : ℕ) (preflightId : String) (preflight : SourcePreflight) (project : ProjectRow)
    (job : ImportJob) : Prop :=
  ∃ call : CreateCall, s.sessions[i]? = some (.create call) ∧
    call.input.preflightId = preflightId ∧
    call.phase = .ended (.created preflight project job)

/-- The step lets a recovery statement take a preflight that was consumed after the statement
had found it stale. -/
def requeuesConsumed (s : System) : Action → Bool
  | .lockNext i => (s.sweep? i).any fun sweep => sweep.kind = .recover &&
      sweep.candidates.head?.any fun id =>
        s.preflights.any fun row => row.id = id && row.status = .consumed
  | _ => false

end Eveland.SourcePreflights
