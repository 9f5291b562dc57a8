/-
# The provider of OIDC credentials

Any number of provider instances resolve and recover the credential of one slot, and callbacks
put new credentials there. Each is a program over the store: it reads the credential, claims its
refresh, calls the identity provider, and completes the refresh or gives it up. The calls of one
instance share a refresh that is under way. The state carries the history of the slot, the leases
that were granted and the credentials that were handed out.
-/

import Mathlib.Logic.Function.Basic
import Eveland.AgentAuth.Credentials
import Eveland.Foundations.Programs
import Eveland.Foundations.Slots

namespace Eveland.AgentAuth

open Slots

/-! ## What others answer -/

/-- `OidcTokenSet`, of which a refresh reads these. -/
structure OidcTokenSet where
  accessToken : String
  refreshToken : Option String
  expiresAt : ℤ
  issuer : String
  subject : String

/-- What `verifyAccessToken` comes to. -/
inductive Verification
  | verified (issuer subject : String)
  | rejected
  | failed

/-- What the identity provider answers to a refresh token. -/
inductive RefreshAnswer
  | tokens (token : OidcTokenSet)
  | invalidGrant
  | failed

/-- How a refresh ends: it returns, or throws one of the errors that its callers tell apart. -/
inductive RefreshOutcome
  | done
  | reauthorizationRequired
  | accessTokenRejected
  | failed

/-- What a call to complete a refresh comes to. -/
inductive Completion
  | returned (completed : Bool)
  | threw

/-- A refresh that is under way in the instance is joined, or a new one is started. -/
inductive Flight
  | joined (flight : ℕ)
  | started (flight : ℕ)

/-! ## The state -/

/-- The slot, with what was granted and handed out of it, and the refreshes under way. -/
structure State where
  row : Option AgentAuthCredential
  /-- Which credentials the slot has held. -/
  history : Slot
  /-- The leases that were granted and not ended, with their expiry. -/
  leases : List (String × ℤ)
  /-- The lease ids that were drawn. -/
  leaseIds : List String
  /-- The credentials that were handed out with a request. -/
  handed : List Version
  clock : ℤ
  /-- `refreshFlights`, of each instance. -/
  running : String → Option ℕ
  /-- How the refreshes ended. -/
  settled : ℕ → Option RefreshOutcome
  nextFlight : ℕ

/-- A call of a program. The versions are those of the credentials the program has read: `get`
and `replace` answer them, and no statement sends them. -/
inductive Op
  | now
  | get
  | put (payload : CredentialPayload) (expiresAt : Option ℤ)
  | delete (expectedRotationSeq : ℕ) (rejected : Version)
  | replace (expectedRotationSeq : ℕ) (payload : CredentialPayload) (expiresAt : Option ℤ)
  | claim (expectedRotationSeq : ℕ) (owner : String) (read : Version)
  | complete (expectedRotationSeq : ℕ) (owner leaseId : String) (payload : CredentialPayload)
      (expiresAt : Option ℤ) (sent : Version)
  | release (expectedRotationSeq : ℕ) (owner leaseId : String)
  | resolveClientSecret
  | verifyAccessToken (accessToken issuer subject : String)
  | refresh (refreshToken subject : String)
  | enter (owner : String)
  | settle (owner : String) (flight : ℕ) (outcome : RefreshOutcome)
  | await (flight : ℕ)
  | hand (version : Version)

/-- What a call answers. -/
abbrev Ans : Op → Type
  | .now => ℤ
  | .get => Option (AgentAuthCredential × Version)
  | .put .. => Unit
  | .delete .. => Bool
  | .replace .. => Option (AgentAuthCredential × Version)
  | .claim .. => Option String
  | .complete .. => Completion
  | .release .. => Bool
  | .resolveClientSecret => Bool
  | .verifyAccessToken .. => Verification
  | .refresh .. => RefreshAnswer
  | .enter _ => Flight
  | .settle .. => Unit
  | .await _ => RefreshOutcome
  | .hand _ => Unit

/-- What the environment decides of a call: the reading of the clock it is made with, the lease
it draws, what others answer, and whether a statement throws, before or after it takes place. -/
structure Choice where
  now : ℤ
  leaseId : String
  leaseUntil : ℤ
  secret : Bool
  verification : Verification
  refreshed : RefreshAnswer
  throws : Option Bool

namespace State

variable (s : State)

/-- The credential, with the version the slot holds. -/
def read : Option (AgentAuthCredential × Version) :=
  s.row.bind fun row => s.history.current.map fun version => (row, version)

/-- The credential is written: the slot holds a new version, and leases on the old one end. -/
def written (row : Option AgentAuthCredential) : State :=
  { s with row, history := s.history.raise, leases := [] }

def put (payload : CredentialPayload) (expiresAt : Option ℤ) : State :=
  { s with
    row := some (putAgentAuthCredential s.row payload expiresAt)
    history := if s.row.isSome then s.history.raise else s.history.restart
    leases := [] }

def delete (expectedRotationSeq : ℕ) : State × Bool :=
  match deleteAgentAuthCredential s.row expectedRotationSeq with
  | (row, true) => ({ s with row, history := s.history.clear, leases := [] }, true)
  | (_, false) => (s, false)

def replace (expectedRotationSeq : ℕ) (payload : CredentialPayload) (expiresAt : Option ℤ) :
    State × Option (AgentAuthCredential × Version) :=
  match replaceAgentAuthCredential s.row expectedRotationSeq payload expiresAt with
  | (row, some _) => (s.written row, (s.written row).read)
  | (_, none) => (s, none)

def claim (expectedRotationSeq : ℕ) (owner leaseId : String) (now leaseUntil : ℤ) :
    State × Option String :=
  match claimAgentAuthCredentialRefresh s.row expectedRotationSeq owner leaseId now leaseUntil with
  | (row, some _) =>
      ({ s with
          row
          leases := s.leases ++ [(leaseId, leaseUntil)]
          leaseIds := s.leaseIds ++ [leaseId] }, some leaseId)
  | (_, none) => ({ s with leaseIds := s.leaseIds ++ [leaseId] }, none)

def complete (expectedRotationSeq : ℕ) (owner leaseId : String) (now : ℤ)
    (payload : CredentialPayload) (expiresAt : Option ℤ) : State × Bool :=
  match completeAgentAuthCredentialRefresh s.row expectedRotationSeq owner leaseId now payload
      expiresAt with
  | (row, some _) => (s.written row, true)
  | (_, none) => (s, false)

def release (expectedRotationSeq : ℕ) (owner leaseId : String) (now : ℤ) : State × Bool :=
  match releaseAgentAuthCredentialRefresh s.row expectedRotationSeq owner leaseId now with
  | (row, some _) =>
      ({ s with row, leases := s.leases.filter fun lease => lease.1 ≠ leaseId }, true)
  | (_, none) => (s, false)

end State

/-- What a call does and answers. Times are readings of one clock, taken when the call is made or
before; lease ids are drawn once. -/
def perform (s : State) (op : Op) (choice : Choice) : Option (State × Ans op) :=
  match op with
  | .now => if choice.now ≤ s.clock then some (s, choice.now) else none
  | .get => some (s, s.read)
  | .put payload expiresAt => some (s.put payload expiresAt, ())
  | .delete expectedRotationSeq _ => some (s.delete expectedRotationSeq)
  | .replace expectedRotationSeq payload expiresAt =>
      some (s.replace expectedRotationSeq payload expiresAt)
  | .claim expectedRotationSeq owner _ =>
      if choice.now ≤ s.clock ∧ choice.leaseId ∉ s.leaseIds then
        some (s.claim expectedRotationSeq owner choice.leaseId choice.now choice.leaseUntil)
      else none
  | .complete expectedRotationSeq owner leaseId payload expiresAt _ =>
      if choice.now ≤ s.clock then
        let result := s.complete expectedRotationSeq owner leaseId choice.now payload expiresAt
        match choice.throws with
        | none => some (result.1, .returned result.2)
        | some true => some (result.1, .threw)
        | some false => some (s, .threw)
      else none
  | .release expectedRotationSeq owner leaseId =>
      if choice.now ≤ s.clock then
        some (s.release expectedRotationSeq owner leaseId choice.now)
      else none
  | .resolveClientSecret => some (s, choice.secret)
  | .verifyAccessToken .. => some (s, choice.verification)
  | .refresh .. => some (s, choice.refreshed)
  | .enter owner =>
      match s.running owner with
      | some flight => some (s, .joined flight)
      | none =>
          some ({ s with
            running := Function.update s.running owner (some s.nextFlight)
            nextFlight := s.nextFlight + 1 }, .started s.nextFlight)
  | .settle owner flight outcome =>
      some ({ s with
        running := if s.running owner = some flight then Function.update s.running owner none
          else s.running
        settled := Function.update s.settled flight (some outcome) }, ())
  | .await flight => (s.settled flight).map fun outcome => (s, outcome)
  | .hand version => some ({ s with handed := s.handed ++ [version] }, ())

/-! ## The programs -/

abbrev Run : Type := Program Op Ans

/-- `waitForRefreshWinner`, with the number of rounds that come before its deadline. -/
def waitForRefreshWinner (rejectedRotationSeq : ℕ) (next : RefreshOutcome → Run) : ℕ → Run
  | 0 => next .failed
  | rounds + 1 =>
      .call .get fun (current : Option (AgentAuthCredential × Version)) =>
        match current with
        | none => next .reauthorizationRequired
        | some (row, _) =>
            if rejectedRotationSeq < row.rotationSeq then next .done
            else
              .call .now fun (now : ℤ) =>
                if row.isFree now then next .done
                else waitForRefreshWinner rejectedRotationSeq next rounds

/-- `verifyCandidate`. -/
def verifyCandidate (token : OidcTokenSet) (rejected : Run) (next : CredentialPayload → Run) : Run :=
  .call (.verifyAccessToken token.accessToken token.issuer token.subject)
    fun (verification : Verification) =>
      match verification with
      | .rejected => rejected
      | .verified issuer subject =>
          .call .now fun (now : ℤ) =>
            next (.active
              { accessToken := token.accessToken
                refreshToken := token.refreshToken
                agentIssuer := issuer
                agentSubject := subject
                idTokenIssuer := token.issuer
                idTokenSubject := token.subject
                obtainedAt := now })
      | .failed =>
          .call .now fun (now : ℤ) =>
            next (.pendingVerification
              { candidateAccessToken := token.accessToken
                refreshToken := token.refreshToken
                idTokenIssuer := token.issuer
                idTokenSubject := token.subject
                obtainedAt := now })

/-- The `catch` of `refreshCredential`: the lease is released, and a credential whose refresh
token was refused is deleted. -/
def giveUpRefresh (owner leaseId : String) (rotationSeq : ℕ) (version : Version)
    (outcome : RefreshOutcome) (invalidGrant : Bool) (next : RefreshOutcome → Run) : Run :=
  .call (.release rotationSeq owner leaseId) fun (released : Bool) =>
    if invalidGrant && released then
      .call (.delete rotationSeq version) fun (_ : Bool) => next .reauthorizationRequired
    else next outcome

/-- `refreshCredential`. -/
def refreshCredential (owner : String) (rounds : ℕ) (credential : AgentAuthCredential)
    (version : Version) (payload : CredentialPayload) (next : RefreshOutcome → Run) : Run :=
  .call (.claim credential.rotationSeq owner version) fun (claimed : Option String) =>
    match claimed with
    | none => waitForRefreshWinner credential.rotationSeq next rounds
    | some leaseId =>
        let giveUp (outcome : RefreshOutcome) (invalidGrant : Bool) : Run :=
          giveUpRefresh owner leaseId credential.rotationSeq version outcome invalidGrant next
        match payload.refreshToken with
        | none => giveUp .reauthorizationRequired false
        | some refreshToken =>
            .call .resolveClientSecret fun (resolved : Bool) =>
              if resolved then
                .call (.refresh refreshToken payload.idTokenSubject) fun (answer : RefreshAnswer) =>
                  match answer with
                  | .invalidGrant => giveUp .failed true
                  | .failed => giveUp .failed false
                  | .tokens token =>
                      verifyCandidate token (giveUp .accessTokenRejected false) fun nextPayload =>
                        .call (.complete credential.rotationSeq owner leaseId nextPayload
                          (some token.expiresAt) version) fun (completion : Completion) =>
                            match completion with
                            | .returned true => next .done
                            | .returned false =>
                                waitForRefreshWinner credential.rotationSeq (fun outcome =>
                                  match outcome with
                                  | .done => next .done
                                  | thrown => giveUp thrown false) rounds
                            | .threw => giveUp .failed false
              else giveUp .failed false

/-- `getOrStartRefresh`. -/
def getOrStartRefresh (owner : String) (rounds : ℕ) (credential : AgentAuthCredential)
    (version : Version) (payload : CredentialPayload) (next : RefreshOutcome → Run) : Run :=
  .call (.enter owner) fun (flight : Flight) =>
    match flight with
    | .joined flight => .call (.await flight) next
    | .started flight =>
        refreshCredential owner rounds credential version payload fun outcome =>
          .call (.settle owner flight outcome) fun (_ : Unit) => next outcome

/-- The end of `resolveCredential`: an active credential that expires soon is refreshed, and then
resolved again unless this was the last pass; any other is handed out. -/
def handCredential (owner : String) (rounds : ℕ) (credential : AgentAuthCredential)
    (version : Version) (payload : CredentialPayload) (lastPass : Bool) (again : Run) : Run :=
  .call .now fun (now : ℤ) =>
    if isExpiringSoon credential now then
      match payload.refreshToken with
      | none => .done
      | some _ =>
          if lastPass then .done
          else
            getOrStartRefresh owner rounds credential version payload fun outcome =>
              match outcome with
              | .done => again
              | _ => .done
    else .call (.hand version) fun (_ : Unit) => .done

/-- `resolveCredential`, with the number of passes that are left. -/
def resolveCredential (owner : String) (rounds : ℕ) : ℕ → Run
  | 0 => .done
  | passes + 1 =>
      .call .get fun (stored : Option (AgentAuthCredential × Version)) =>
        match stored with
        | none => .done
        | some (credential, version) =>
            match credential.payload with
            | none => .done
            | some (.active payload) =>
                handCredential owner rounds credential version (.active payload) (passes = 0)
                  (resolveCredential owner rounds passes)
            | some (.pendingVerification payload) =>
                .call .resolveClientSecret fun (resolved : Bool) =>
                  if resolved then
                    .call (.verifyAccessToken payload.candidateAccessToken payload.idTokenIssuer
                      payload.idTokenSubject) fun (verification : Verification) =>
                        match verification with
                        | .verified issuer subject =>
                            let active : CredentialPayload := .active
                              { accessToken := payload.candidateAccessToken
                                refreshToken := payload.refreshToken
                                agentIssuer := issuer
                                agentSubject := subject
                                idTokenIssuer := payload.idTokenIssuer
                                idTokenSubject := payload.idTokenSubject
                                obtainedAt := payload.obtainedAt }
                            .call (.replace credential.rotationSeq active credential.expiresAt)
                              fun (replaced : Option (AgentAuthCredential × Version)) =>
                                match replaced with
                                | none =>
                                    if passes = 0 then .done
                                    else resolveCredential owner rounds passes
                                | some (credential, version) =>
                                    handCredential owner rounds credential version active
                                      (passes = 0) (resolveCredential owner rounds passes)
                        | _ => .done
                  else .done

/-- `MAX_CREDENTIAL_RESOLUTION_ATTEMPTS`. -/
def maxCredentialResolutionAttempts : ℕ := 3

/-- `getCredential`. -/
def getCredential (owner : String) (rounds : ℕ) : Run :=
  resolveCredential owner rounds maxCredentialResolutionAttempts

/-- `recoverUnauthorized`, of a request that was rejected with this version of the credential, for
the first or for the second time. -/
def recoverUnauthorized (owner : String) (rounds : ℕ) (sameRevision : Bool) (rejected : Version)
    (second : Bool) : Run :=
  if !sameRevision then .done
  else
    .call .get fun (stored : Option (AgentAuthCredential × Version)) =>
      match stored with
      | none => .done
      | some (credential, version) =>
          if credential.rotationSeq ≠ rejected.counter then .done
          else if second then
            .call (.delete credential.rotationSeq rejected) fun (_ : Bool) => .done
          else
            match credential.payload with
            | none => .done
            | some payload =>
                match payload.refreshToken with
                | none => .done
                | some _ =>
                    getOrStartRefresh owner rounds credential version payload fun _ => .done

/-- `callback`, once the provider has answered the authorization code. -/
def callback (payload : CredentialPayload) (expiresAt : ℤ) : Run :=
  .call (.put payload (some expiresAt)) fun (_ : Unit) => .done

/-! ## The parties -/

/-- What can be launched. -/
inductive Label
  | resolve (owner : String) (rounds : ℕ)
  | recover (owner : String) (rounds : ℕ) (sameRevision : Bool) (rejected : Version) (second : Bool)
  | callback (payload : CredentialPayload) (expiresAt : ℤ)

/-- What happens to the slot beside the programs: time passes, and the connection is deleted with
its credentials. -/
inductive Event
  | tick (clock : ℤ)
  | remove

/-- The provider instances and the callbacks of one slot. A request is rejected with a credential
that was handed out. -/
def actors : Actors State Label Op Ans Choice Event where
  perform := perform
  program
    | .resolve owner rounds => getCredential owner rounds
    | .recover owner rounds sameRevision rejected second =>
        recoverUnauthorized owner rounds sameRevision rejected second
    | .callback payload expiresAt => callback payload expiresAt
  admits pool
    | .recover _ _ _ rejected _ => pool.state.handed.contains rejected
    | _ => true
  outside s
    | .tick clock => if s.clock ≤ clock then some { s with clock } else none
    | .remove => some { s with row := none, history := s.history.clear, leases := [] }

/-- The slot is empty and nothing was granted or handed out yet. -/
structure State.Initial (s : State) : Prop where
  row : s.row = none
  history : s.history = Slot.empty
  leases : s.leases = []
  leaseIds : s.leaseIds = []
  handed : s.handed = []

def machine : Machine (Pool State Label Op Ans) (PoolAction Label Choice Event) :=
  actors.machine State.Initial

end Eveland.AgentAuth
