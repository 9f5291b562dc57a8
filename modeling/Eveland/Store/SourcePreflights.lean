/-
# Source preflights and the projects they become

A preflight checks a source before a project is created from it. Workers claim queued
preflights, renew their claim, and complete or fail them; an API call turns a completed
preflight into a project with an import job and marks the preflight consumed; and sweeps put
stale preflights back into the queue and delete expired ones. The module has the rows and what
each statement does to them.
-/

import Eveland.Core.Ids
import Eveland.Core.Json
import Eveland.Foundations.KeysetPages
import Eveland.Foundations.Table

namespace Eveland.SourcePreflights

inductive ImportKind where
  | git
  | zip
  deriving DecidableEq

inductive PreflightStatus where
  | queued
  | running
  | completed
  | failed
  | consumed
  deriving DecidableEq

/-- A row of `source_preflights`. -/
structure SourcePreflight where
  id : String
  userId : String
  kind : ImportKind
  gitUrl : Option String
  sourcePath : Option String
  commitSha : Option String
  status : PreflightStatus
  summary : Option Json
  error : Option String
  attempts : ℕ
  lockedAt : Option ℤ
  credentialHost : Option String
  encryptedToken : Option String
  persistCredential : Bool
  expiresAt : ℤ
  createdAt : ℤ
  updatedAt : ℤ

/-- A credential that a preflight carries until it is consumed or has failed. -/
structure GitCredentialInput where
  host : String
  encryptedToken : String
  persistAfterImport : Bool

/-- The arguments of `createSourcePreflight`. -/
structure PreflightInput where
  userId : String
  kind : ImportKind
  gitUrl : Option String
  sourcePath : Option String
  gitCredential : Option GitCredentialInput
  expiresAt : ℤ

/-- The row that `createSourcePreflight` inserts. -/
def createSourcePreflight (input : PreflightInput) (id : String) (now : ℤ) :
    SourcePreflight where
  id := id
  userId := input.userId
  kind := input.kind
  gitUrl := input.gitUrl
  sourcePath := input.sourcePath
  commitSha := none
  status := .queued
  summary := none
  error := none
  attempts := 0
  lockedAt := none
  credentialHost := input.gitCredential.map GitCredentialInput.host
  encryptedToken := input.gitCredential.map GitCredentialInput.encryptedToken
  persistCredential := (input.gitCredential.map GitCredentialInput.persistAfterImport).getD false
  expiresAt := input.expiresAt
  createdAt := now
  updatedAt := now

/-! ## The attempts of workers -/

/-- The rows that `claimNextSourcePreflight` chooses from. -/
def claimable (now : ℤ) (row : SourcePreflight) : Bool :=
  row.status = .queued && now < row.expiresAt

/-- What a claim makes of its row. -/
def SourcePreflight.claimed (now : ℤ) (row : SourcePreflight) : SourcePreflight :=
  { row with
    status := .running, attempts := row.attempts + 1, lockedAt := some now, updatedAt := now }

/-- The condition under which a worker's calls find its preflight. -/
def currentAttempt (preflightId : String) (attempt : ℕ) (row : SourcePreflight) : Bool :=
  row.id = preflightId && row.status = .running && row.attempts = attempt

/-- What `completeSourcePreflight` is given. -/
structure PreflightResult where
  sourcePath : String
  commitSha : Option String
  summary : Json

/-- What a worker does with the preflight that it has claimed. -/
inductive AttemptCall where
  | heartbeat
  | complete (result : PreflightResult)
  | fail (error : String)

/-- What a worker's call makes of its row. -/
def SourcePreflight.attempted (call : AttemptCall) (now : ℤ) (row : SourcePreflight) :
    SourcePreflight :=
  match call with
  | .heartbeat => { row with lockedAt := some now, updatedAt := now }
  | .complete result =>
      { row with
        status := .completed, sourcePath := some result.sourcePath, commitSha := result.commitSha
        summary := some result.summary, error := none, lockedAt := none, updatedAt := now }
  | .fail error =>
      { row with
        status := .failed, error := some error, lockedAt := none, credentialHost := none
        encryptedToken := none, persistCredential := false, updatedAt := now }

/-- `heartbeatSourcePreflight`, `completeSourcePreflight` and `failSourcePreflight`, with what
they return. -/
def attemptSourcePreflight (call : AttemptCall) (preflightId : String) (attempt : ℕ) (now : ℤ)
    (rows : List SourcePreflight) : List SourcePreflight × Bool :=
  (Table.updateWhere (currentAttempt preflightId attempt) (SourcePreflight.attempted call now) rows,
    rows.any (currentAttempt preflightId attempt))

/-! ## Sweeps -/

/-- The rows that the subselect of `recoverStaleSourcePreflights` finds. -/
def stalePreflights (cutoff : ℤ) (limit : ℕ) (rows : List SourcePreflight) : List String :=
  let stale := rows.filter fun row =>
    row.status = .running && row.lockedAt.any fun lockedAt => lockedAt ≤ cutoff
  ((Keyset.orderBy (fun row => row.lockedAt.getD 0) stale).take limit).map SourcePreflight.id

/-- What `recoverStaleSourcePreflights` makes of a row it found. -/
def SourcePreflight.requeued (now : ℤ) (row : SourcePreflight) : SourcePreflight :=
  { row with status := .queued, lockedAt := none, updatedAt := now }

/-- The rows that the subselect of `expireSourcePreflights` finds. -/
def expiredPreflights (now : ℤ) (limit : ℕ) (rows : List SourcePreflight) : List String :=
  let expired := rows.filter fun row => row.status ≠ .running && row.expiresAt ≤ now
  ((Keyset.orderBy SourcePreflight.expiresAt expired).take limit).map SourcePreflight.id

/-- The paths that `expireSourcePreflights` returns for removal. -/
def removedPaths (deleted : List SourcePreflight) : List String :=
  (deleted.flatMap fun row =>
    if row.status ≠ .consumed then row.sourcePath.toList else []).eraseDups

/-! ## The project of a preflight -/

structure SecretInput where
  key : String
  kind : Option String
  encryptedValue : String
  deriving DecidableEq

/-- The arguments of `createProjectFromSourcePreflight`. -/
structure ProjectInput where
  preflightId : String
  userId : String
  name : String
  deployAfterImport : Bool
  promoteAfterDeploy : Bool
  secrets : List SecretInput
  uploadOrigin : Option String
  baseCommitSha : Option String
  dirty : Option Bool
  deriving DecidableEq

/-- A row of `projects`, as it is created. -/
structure ProjectRow where
  id : String
  slug : String
  importKind : ImportKind
  gitUrl : Option String
  deriving DecidableEq

/-- A row of `secrets`. -/
structure SecretRow where
  projectId : String
  key : String
  kind : String
  encryptedValue : String
  deriving DecidableEq

structure GitCredential where
  userId : String
  host : String
  encryptedToken : String
  persistAfterImport : Bool
  deriving DecidableEq

/-- The payload of an `import_source` job. -/
structure ImportPayload where
  importKind : ImportKind
  gitUrl : Option String
  sourcePath : Option String
  deployAfterImport : Bool
  promoteAfterDeploy : Bool
  gitCredential : Option GitCredential
  origin : Option String
  uploadedBy : Option String
  baseCommitSha : Option String
  dirty : Option Bool
  deriving DecidableEq

/-- A queued `import_source` job. -/
structure ImportJob where
  id : String
  projectId : String
  payload : ImportPayload
  deriving DecidableEq

/-- `sourceProvenanceFor`: the origin and the uploader. -/
def sourceProvenanceFor (kind : ImportKind) (uploadOrigin uploadedBy : Option String) :
    Option String × Option String :=
  match kind with
  | .git => (some "git-sync", none)
  | .zip => (uploadOrigin, uploadedBy)

/-- A preflight that a project may be created from. -/
def ready (now : ℤ) (preflight : SourcePreflight) : Bool :=
  preflight.status = .completed && preflight.sourcePath.any (· ≠ "") && now < preflight.expiresAt

def newProject (preflight : SourcePreflight) (id slug : String) : ProjectRow where
  id := id
  slug := slug
  importKind := preflight.kind
  gitUrl := preflight.gitUrl

def newSecrets (input : ProjectInput) (projectId : String) : List SecretRow :=
  input.secrets.map fun secret =>
    { projectId, key := secret.key, kind := secret.kind.getD "secret"
      encryptedValue := secret.encryptedValue }

def newCredential (preflight : SourcePreflight) : Option GitCredential :=
  match preflight.credentialHost, preflight.encryptedToken with
  | some host, some encryptedToken =>
      if host ≠ "" ∧ encryptedToken ≠ "" then
        some { userId := preflight.userId, host, encryptedToken
               persistAfterImport := preflight.persistCredential }
      else none
  | _, _ => none

def newJob (preflight : SourcePreflight) (input : ProjectInput) (projectId id : String) :
    ImportJob where
  id := id
  projectId := projectId
  payload :=
    let provenance := sourceProvenanceFor preflight.kind input.uploadOrigin (some input.userId)
    let based := preflight.kind = .zip && input.baseCommitSha.any (· ≠ "")
    { importKind := preflight.kind
      gitUrl := preflight.gitUrl
      sourcePath := preflight.sourcePath
      deployAfterImport := input.deployAfterImport
      promoteAfterDeploy := input.promoteAfterDeploy
      gitCredential := newCredential preflight
      origin := provenance.1
      uploadedBy := provenance.2
      baseCommitSha := if based then input.baseCommitSha else none
      dirty := if based then input.dirty else none }

/-- What the transaction makes of its preflight. -/
def SourcePreflight.consume (now : ℤ) (row : SourcePreflight) : SourcePreflight :=
  { row with
    status := .consumed, credentialHost := none, encryptedToken := none, persistCredential := false
    updatedAt := now }

end Eveland.SourcePreflights
