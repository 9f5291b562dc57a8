/-
# Logins through a provider connection, and its security changes

The calls on one identity provider connection, statement by statement: logins that write a
principal, a session and, through OIDC, a credential; updates of the connection, whose transaction
revokes sessions and deletes credentials where the security changes; and resolutions of sessions.
What a transaction writes is seen when it commits. It holds the row of the connection from its
update on, so one is open at a time, and it holds the rows it has revoked or deleted.

A session and a credential carry the security revision that their login was checked against,
which no column of theirs does.
-/

import Mathlib.Data.Int.Notation
import Mathlib.Logic.Function.Basic
import Eveland.Foundations.Machine
import Eveland.Foundations.Table

namespace Eveland.ProviderLogins

open Table

/-! ## Rows -/

/-- The connection, as far as logins go by it. -/
structure Connection where
  enabled : Bool
  securityRevision : ℕ
  deriving DecidableEq, Repr

/-- A realm of the connection. -/
structure Realm where
  id : String
  externalRealmId : String
  externalRealmKind : String
  enabled : Bool
  deriving DecidableEq, Repr

structure Principal where
  id : String
  identityRealmId : String
  externalSubject : String
  deriving DecidableEq, Repr

structure Session where
  tokenHash : String
  identityPrincipalId : String
  activeIdentityRealmId : String
  expiresAt : ℤ
  revoked : Bool
  /-- What the login was checked against. -/
  revision : ℕ
  deriving DecidableEq, Repr

structure OidcCredential where
  identityPrincipalId : String
  /-- What the login was checked against. -/
  revision : ℕ
  deriving DecidableEq, Repr

/-- The session can be looked up at a time. -/
def Session.isActive (now : ℤ) (session : Session) : Bool :=
  !session.revoked && now < session.expiresAt

/-- A session that `resolveSession` has accepted, with the security revisions of the connection
when it was looked up and when the call returned. -/
structure Acceptance where
  revision : ℕ
  atLookup : ℕ
  atReturn : ℕ
  deriving DecidableEq, Repr

/-! ## Calls -/

/-- `ResolvedExternalIdentity`. -/
structure ExternalIdentity where
  externalRealmId : String
  externalRealmKind : String
  externalSubject : String
  deriving DecidableEq, Repr

/-- What is called on the connection. -/
inductive Call
  | finalizeIdentity (providerSecurityRevision : ℕ) (identity : ExternalIdentity)
  | completeOidcLogin (providerSecurityRevision : ℕ)
  | updateIdentityProviderConnection (expectedSecurityRevision : ℕ) (enabled securityChanged : Bool)
  | resolveSession (tokenHash : String)
  deriving DecidableEq, Repr

/-- The step a call is at; `oidc` tells a login that stores a credential in the end. -/
inductive Phase
  | waiting
  | exchanging (revision : ℕ)
  | checking (revision : ℕ) (oidc : Bool) (identity : ExternalIdentity)
  | locating (revision : ℕ) (oidc : Bool) (identity : ExternalIdentity)
  | upserting (revision : ℕ) (oidc : Bool) (realmId externalSubject : String)
  | inserting (revision : ℕ) (oidc : Bool) (realmId principalId : String)
  | putting (revision : ℕ) (principalId : String)
  | updating
  | listing
  | revoking (principalIds : List String)
  | deleting
  | committing
  | resolving (session : Session) (atLookup : ℕ)
  | rejecting (tokenHash : String)
  | ended
  deriving DecidableEq, Repr

/-- The open transaction of an update: the connection as it will be, and the sessions and
credentials that its statements have found. -/
structure Transaction where
  connection : Connection
  revoked : List String
  deleted : List String
  deriving DecidableEq, Repr

/-- The committed rows, the open transaction with the call it belongs to, the calls, and the
sessions that were accepted. -/
structure State (ι : Type*) where
  clock : ℤ
  connection : Connection
  principals : List Principal
  sessions : List Session
  credentials : List OidcCredential
  transaction : Option (ι × Transaction)
  phase : ι → Phase
  accepted : List Acceptance

/-- What a call draws and is answered: the id of a principal or the token of a session, and the
realm and subject that the provider's tokens name, where the exchange succeeds. -/
structure Choice where
  id : String
  exchanged : Option (String × String)

/-- A call makes its next statement, or fails, with its transaction undone; or time passes. -/
inductive Action (ι : Type*)
  | next (i : ι) (choice : Choice)
  | fail (i : ι)
  | pass (ms : ℕ)

/-- The constants of a run: the realms of the connection, the lifetime of a session, and what is
called. -/
structure Setting (ι : Type*) where
  realms : List Realm
  sessionTtl : ℕ
  call : ι → Call

section Steps

variable {ι : Type*} [DecidableEq ι] (setting : Setting ι)

namespace State

variable (s : State ι)

def move (i : ι) (phase : Phase) : State ι :=
  { s with phase := Function.update s.phase i phase }

/-- The open transaction holds the row of the session. -/
def isSessionLocked (tokenHash : String) : Bool :=
  s.transaction.any fun transaction => transaction.2.revoked.contains tokenHash

/-- The open transaction holds the row of the principal's credential. -/
def isCredentialLocked (principalId : String) : Bool :=
  s.transaction.any fun transaction => transaction.2.deleted.contains principalId

/-- `createIdentitySession`. -/
def insertSession (session : Session) : State ι := { s with sessions := s.sessions ++ [session] }

/-- `putIdentityOidcCredential`. -/
def putCredential (credential : OidcCredential) : State ι :=
  { s with
    credentials := upsertWhere
      (fun row => row.identityPrincipalId = credential.identityPrincipalId) (fun _ => credential)
      credential s.credentials }

/-- `revokeIdentitySession`. -/
def revokeSession (tokenHash : String) : State ι :=
  { s with
    sessions := updateWhere (fun row => row.tokenHash = tokenHash)
      (fun row => { row with revoked := true }) s.sessions }

/-- The transaction of an update commits. -/
def commit (transaction : Transaction) : State ι :=
  { s with
    connection := transaction.connection
    sessions := updateWhere (fun row => transaction.revoked.contains row.tokenHash)
      (fun row => { row with revoked := true }) s.sessions
    credentials := s.credentials.filter fun row =>
      !transaction.deleted.contains row.identityPrincipalId
    transaction := none }

/-- The connection as an update leaves it. -/
def updatedConnection (enabled securityChanged : Bool) : Connection :=
  { enabled
    securityRevision :=
      if securityChanged then s.connection.securityRevision + 1
      else s.connection.securityRevision }

end State

/-- The first statement of a call. -/
def begin (s : State ι) (i : ι) : Call → Option (State ι)
  | .finalizeIdentity revision identity => some (s.move i (.checking revision false identity))
  | .completeOidcLogin revision =>
      if s.connection.enabled && s.connection.securityRevision = revision then
        some (s.move i (.exchanging revision))
      else some (s.move i .ended)
  | .updateIdentityProviderConnection expected _ _ =>
      if s.connection.securityRevision = expected then some (s.move i .updating)
      else some (s.move i .ended)
  | .resolveSession tokenHash =>
      if s.isSessionLocked tokenHash then none
      else
        match s.sessions.find? fun row => row.tokenHash = tokenHash && row.isActive s.clock with
        | none => some (s.move i .ended)
        | some session => some (s.move i (.resolving session s.connection.securityRevision))

/-- `updateIdentityProviderConnection` at the update of its row, which waits for another open
transaction and goes by the revision again. -/
def beginUpdate (s : State ι) (i : ι) : Call → Option (State ι)
  | .updateIdentityProviderConnection expected enabled securityChanged =>
      if s.transaction.isSome then none
      else if s.connection.securityRevision = expected then
        some { s.move i (if securityChanged then .listing else .committing) with
          transaction := some (i,
            { connection := s.updatedConnection enabled securityChanged
              revoked := []
              deleted := [] }) }
      else some (s.move i .ended)
  | _ => none

/-- `resolveSession` accepts the session that it has looked up. -/
def accepts (s : State ι) (session : Session) : Bool :=
  (s.principals.any fun principal => principal.id = session.identityPrincipalId &&
    principal.identityRealmId = session.activeIdentityRealmId) &&
  (setting.realms.any fun realm => realm.id = session.activeIdentityRealmId && realm.enabled) &&
  s.connection.enabled

/-- The next statement of a call. -/
def next (s : State ι) (i : ι) (choice : Choice) : Option (State ι) :=
  match s.phase i with
  | .waiting => begin s i (setting.call i)
  | .exchanging revision =>
      match choice.exchanged with
      | none => some (s.move i .ended)
      | some (externalRealmId, externalSubject) =>
          match setting.realms.find? fun realm => realm.externalRealmId = externalRealmId with
          | none => some (s.move i .ended)
          | some realm =>
              if realm.enabled then
                some (s.move i (.checking revision true
                  { externalRealmId, externalRealmKind := realm.externalRealmKind
                    externalSubject }))
              else some (s.move i .ended)
  | .checking revision oidc identity =>
      if s.connection.enabled && s.connection.securityRevision = revision then
        some (s.move i (.locating revision oidc identity))
      else some (s.move i .ended)
  | .locating revision oidc identity =>
      match setting.realms.find? fun realm =>
          realm.externalRealmId = identity.externalRealmId with
      | none => some (s.move i .ended)
      | some realm =>
          if realm.enabled && realm.externalRealmKind = identity.externalRealmKind then
            some (s.move i (.upserting revision oidc realm.id identity.externalSubject))
          else some (s.move i .ended)
  | .upserting revision oidc realmId externalSubject =>
      match s.principals.find? fun row =>
          row.identityRealmId = realmId && row.externalSubject = externalSubject with
      | some row => some (s.move i (.inserting revision oidc realmId row.id))
      | none =>
          if s.principals.any fun row => row.id = choice.id then some (s.move i .ended)
          else some { s.move i (.inserting revision oidc realmId choice.id) with
            principals := s.principals ++
              [{ id := choice.id, identityRealmId := realmId, externalSubject }] }
  | .inserting revision oidc realmId principalId =>
      if s.sessions.any fun row => row.tokenHash = choice.id then some (s.move i .ended)
      else some ((s.insertSession
        { tokenHash := choice.id, identityPrincipalId := principalId
          activeIdentityRealmId := realmId, expiresAt := s.clock + setting.sessionTtl
          revoked := false, revision }).move i
        (if oidc then .putting revision principalId else .ended))
  | .putting revision principalId =>
      if s.isCredentialLocked principalId then none
      else some ((s.putCredential { identityPrincipalId := principalId, revision }).move i .ended)
  | .updating => beginUpdate s i (setting.call i)
  | .listing => some (s.move i (.revoking (s.principals.map Principal.id)))
  | .revoking principalIds =>
      some { s.move i .deleting with
        transaction := s.transaction.map fun transaction =>
          (transaction.1, { transaction.2 with
            revoked := (s.sessions.filter fun row =>
              principalIds.contains row.identityPrincipalId && !row.revoked).map
                Session.tokenHash }) }
  | .deleting =>
      some { s.move i .committing with
        transaction := s.transaction.map fun transaction =>
          (transaction.1, { transaction.2 with
            deleted := s.credentials.map OidcCredential.identityPrincipalId }) }
  | .committing =>
      s.transaction.map fun transaction => (s.commit transaction.2).move i .ended
  | .resolving session atLookup =>
      if accepts setting s session then
        some { s.move i .ended with
          accepted :=
            { revision := session.revision, atLookup
              atReturn := s.connection.securityRevision } :: s.accepted }
      else some (s.move i (.rejecting session.tokenHash))
  | .rejecting tokenHash =>
      if s.isSessionLocked tokenHash then none
      else some ((s.revokeSession tokenHash).move i .ended)
  | .ended => none

def step (s : State ι) : Action ι → Option (State ι)
  | .next i choice => next setting s i choice
  | .fail i =>
      some { s.move i .ended with
        transaction := s.transaction.filter fun transaction => transaction.1 ≠ i }
  | .pass ms => some { s with clock := s.clock + ms }

/-- The calls, from any sessions and credentials of logins that were checked against the
connection as it is. -/
structure Initial (s : State ι) : Prop where
  phase : ∀ i, s.phase i = .waiting
  transaction : s.transaction = none
  sessions : ∀ session ∈ s.sessions, session.isActive s.clock = true →
    session.revision = s.connection.securityRevision
  credentials : ∀ credential ∈ s.credentials,
    credential.revision = s.connection.securityRevision
  accepted : s.accepted = []

def machine : Machine (State ι) (Action ι) where
  init := Initial
  step := step setting

/-- Every login that was checked against an older security revision is over: its session cannot
be looked up, none was accepted that was looked up since, and no credential of one remains when
no call is under way. -/
structure OlderLoginsEnded (s : State ι) : Prop where
  sessions : ∀ session ∈ s.sessions, session.revision < s.connection.securityRevision →
    session.isActive s.clock = false
  accepted : ∀ acceptance ∈ s.accepted, acceptance.atLookup ≤ acceptance.revision
  credentials : (∀ i, s.phase i = .waiting ∨ s.phase i = .ended) →
    ∀ credential ∈ s.credentials, s.connection.securityRevision ≤ credential.revision

/-- No session of an older login was accepted by a call that returned since the change. -/
def AcceptedAtReturn (s : State ι) : Prop :=
  ∀ acceptance ∈ s.accepted, acceptance.atReturn ≤ acceptance.revision

end Steps

end Eveland.ProviderLogins
