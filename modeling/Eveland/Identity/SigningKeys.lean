/-
# Identity signing keys and the tokens they sign

Any number of requests issue identity tokens. Each computes when its token expires, looks for the
active signing key, creates one in a transaction where none is valid, and signs. The transaction
retires the active key first; a partial unique index allows one active key. `getJwks` publishes
the keys that have not been retired for good and have not expired.

Times are milliseconds, and the clock never runs back.
-/

import Mathlib.Data.Int.Notation
import Mathlib.Logic.Function.Basic
import Eveland.Foundations.Machine
import Eveland.Foundations.Table

namespace Eveland.SigningKeys

open Table

/-! ## Keys -/

/-- `IdentitySigningKeyStatus`. -/
inductive KeyStatus
  | active
  | retiring
  | retired
  deriving DecidableEq, Repr

/-- `identitySigningKeys`, as far as signing and publication go by it. -/
structure SigningKey where
  id : String
  status : KeyStatus
  notBefore : ℤ
  expiresAt : ℤ
  deriving DecidableEq, Repr

/-- The key is active. -/
def SigningKey.isActive (key : SigningKey) : Bool := key.status = .active

/-- The key is among those that `getJwks` returns at a time. -/
def SigningKey.isPublished (current : ℤ) (key : SigningKey) : Bool :=
  (key.status = .active || key.status = .retiring) && current < key.expiresAt

/-- `getJwks`, of whose answer this is the `kid` of each key. -/
def getJwks (keys : List SigningKey) (current : ℤ) : List String :=
  (keys.filter (SigningKey.isPublished current)).map SigningKey.id

/-- `getActiveIdentitySigningKey`. -/
def getActiveIdentitySigningKey (keys : List SigningKey) (now : ℤ) : Option SigningKey :=
  keys.find? fun key => key.isActive && key.notBefore < now && now < key.expiresAt

/-- Two rows that the partial unique index does not allow together. -/
def bothActive (key other : SigningKey) : Bool := key.isActive && other.isActive

/-- Ninety days. -/
def signingKeyLifetime : ℤ := 90 * 24 * 60 * 60 * 1000

/-- The key that `ensureActiveSigningKey` creates. -/
def newSigningKey (id : String) (current : ℤ) : SigningKey :=
  { id, status := .active, notBefore := current - 1000, expiresAt := current + signingKeyLifetime }

/-! ## Requests -/

/-- The token lifetimes of a broker, in milliseconds. -/
structure BrokerOptions where
  callerTokenTtl : ℕ
  openCallerTokenTtl : ℕ
  appTokenTtl : ℕ
  deriving DecidableEq, Repr

/-- What a request issues. A platform token is one of open access, or of an internal provider. -/
inductive TokenKind
  | issueCallerToken
  | mintPlatformCallerToken (openAccess : Bool)
  | issueAppToken
  deriving DecidableEq, Repr

/-- A request, at the broker that serves it. -/
structure TokenRequest where
  options : BrokerOptions
  kind : TokenKind
  deriving DecidableEq, Repr

/-- The lifetime of the token. -/
def TokenRequest.ttl (request : TokenRequest) : ℕ :=
  match request.kind with
  | .issueCallerToken | .mintPlatformCallerToken false => request.options.callerTokenTtl
  | .mintPlatformCallerToken true => request.options.openCallerTokenTtl
  | .issueAppToken => request.options.appTokenTtl

/-- `exp`, which is in whole seconds, as a time. -/
def expiry (current : ℤ) (ttl : ℕ) : ℤ := (current + ttl) / 1000 * 1000

/-- An issued token. -/
structure Token where
  kid : String
  issuedAt : ℤ
  exp : ℤ
  deriving DecidableEq, Repr

/-- The step a request is at. A transaction updates the active key that its statement has found
in the table, and inserts a key once that row is locked. -/
inductive Phase
  | waiting
  | selecting (exp : ℤ)
  | creating (exp current : ℤ)
  | updating (exp current : ℤ) (found : Option String)
  | inserting (exp current : ℤ) (retired : Option String)
  | signing (exp : ℤ) (key : SigningKey)
  | issued
  | failed
  deriving DecidableEq, Repr

/-- The table, the row locks of open transactions, the requests, and the tokens that were
issued. -/
structure State (ι : Type*) where
  clock : ℤ
  keys : List SigningKey
  locks : List (ι × String)
  phase : ι → Phase
  tokens : List Token

/-- A request makes its next step, with the key id it would draw; or fails, with what its
transaction has done undone; or time passes. -/
inductive Action (ι : Type*)
  | next (i : ι) (id : String)
  | fail (i : ι)
  | pass (ms : ℕ)

section Steps

variable {ι : Type*} [DecidableEq ι] (request : ι → TokenRequest)

namespace State

variable (s : State ι)

def move (i : ι) (phase : Phase) : State ι :=
  { s with phase := Function.update s.phase i phase }

/-- The transaction of a request ends. -/
def unlock (i : ι) : State ι := { s with locks := s.locks.filter fun lock => lock.1 ≠ i }

/-- Another transaction has locked the row. -/
def isLocked (i : ι) (id : String) : Bool := s.locks.any fun lock => lock.2 = id && lock.1 ≠ i

/-- The committed row is active. -/
def isActiveKey (id : String) : Bool := s.keys.any fun key => key.id = id && key.isActive

/-- `createIdentitySigningKey` commits: the locked row is retiring, and the new one is there. -/
def commitKey (retired : Option String) (key : SigningKey) : State ι :=
  { s with
    keys := updateWhere (fun row => some row.id = retired) (fun row => { row with status := .retiring })
      s.keys ++ [key] }

def issue (exp : ℤ) (key : SigningKey) : State ι :=
  { s with tokens := { kid := key.id, issuedAt := s.clock, exp } :: s.tokens }

end State

/-- The next step of a request. -/
def next (s : State ι) (i : ι) (id : String) : Option (State ι) :=
  match s.phase i with
  | .waiting => some (s.move i (.selecting (expiry s.clock (request i).ttl)))
  | .selecting exp =>
      match getActiveIdentitySigningKey s.keys s.clock with
      | some key => some (s.move i (.signing exp key))
      | none => some (s.move i (.creating exp s.clock))
  | .creating exp current =>
      some (s.move i
        (.updating exp current ((s.keys.find? SigningKey.isActive).map SigningKey.id)))
  | .updating exp current none => some (s.move i (.inserting exp current none))
  | .updating exp current (some found) =>
      if s.isLocked i found then none
      else if s.isActiveKey found then
        some { s.move i (.inserting exp current (some found)) with
          locks := (i, found) :: s.locks }
      else some (s.move i (.inserting exp current none))
  | .inserting exp current retired =>
      -- The primary key and the partial unique index: the row that the transaction retires
      -- itself is no conflict.
      if s.keys.any fun key => key.id = id || (key.isActive && some key.id ≠ retired) then
        some ((s.move i .failed).unlock i)
      else some (((s.commitKey retired (newSigningKey id current)).move i
        (.signing exp (newSigningKey id current))).unlock i)
  | .signing exp key => some ((s.issue exp key).move i .issued)
  | .issued | .failed => none

def step (s : State ι) : Action ι → Option (State ι)
  | .next i id => next request s i id
  | .fail i =>
      match s.phase i with
      | .issued => none
      | _ => some ((s.move i .failed).unlock i)
  | .pass ms => some { s with clock := s.clock + ms }

/-- The table under its constraints. -/
structure WellKeyed (keys : List SigningKey) : Prop where
  ids : UniqueOn SigningKey.id keys
  oneActive : Separated bothActive SigningKey.id keys

/-- The requests, from any stored keys. -/
def machine : Machine (State ι) (Action ι) where
  init s := WellKeyed s.keys ∧ s.locks = [] ∧ (∀ i, s.phase i = .waiting) ∧ s.tokens = []
  step := step request

/-- From when a token was issued until it expires its key is published; and one key is active
at most. -/
structure Verifies (s : State ι) : Prop where
  published : ∀ token ∈ s.tokens, ∀ time, token.issuedAt ≤ time → time < token.exp →
    token.kid ∈ getJwks s.keys time
  oneActive : s.keys.countP SigningKey.isActive ≤ 1

end Steps

end Eveland.SigningKeys
