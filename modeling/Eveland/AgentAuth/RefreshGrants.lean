/-
# The refresh token of a credential

The calls of one caller, one after the other: a credential is resolved, or a request that was
rejected is recovered. What the clock, the identity provider and the verification of a token answer
is an oracle's, one answer for each question. The store answers every statement.

Beside the stored credential the world carries the refresh token that the provider has issued last,
whether it has refused one in the present call, and the refreshes that were stored.
-/

import Eveland.AgentAuth.OidcProvider

namespace Eveland.RefreshGrants

open AgentAuth

/-! ## What others answer -/

/-- What `refreshTokenGrant` gives. The claims are the issuer and the subject of an ID token. -/
structure TokenResponse where
  accessToken : String
  refreshToken : Option String
  expiresIn : Option ℤ
  claims : Option (String × String)
  deriving DecidableEq

/-- What the identity provider answers to a refresh token. -/
inductive GrantAnswer
  | tokens (response : TokenResponse)
  | invalidGrant
  | failed
  deriving DecidableEq

/-- What `verifyAccessToken` comes to. -/
inductive Verdict
  | verified (issuer subject : String)
  | rejected (message : String)
  | failed
  deriving DecidableEq

/-- An answer of the oracle, of which each question reads its own part. -/
structure Choice where
  now : ℤ
  leaseId : String
  leaseUntil : ℤ
  /-- The rounds that `waitForRefreshWinner` gets to before its deadline. -/
  rounds : ℕ
  /-- Whether the client secret is resolved. -/
  secret : Bool
  verdict : Verdict
  answer : GrantAnswer

abbrev Oracle : Type := ℕ → Choice

/-! ## The world -/

/-- A refresh that was stored: the payload it replaced, the tokens, the payload it stored, and the
refresh token that the provider had issued last. -/
structure Refresh where
  replaced : Option CredentialPayload
  token : OidcTokenSet
  stored : CredentialPayload
  issued : Option String

structure World where
  row : Option AgentAuthCredential
  /-- How many questions have been asked. -/
  asked : ℕ
  issued : Option String
  refused : Bool
  refreshes : List Refresh

/-- The refresh token of a response, where it has one that is not empty. -/
def TokenResponse.newRefreshToken (response : TokenResponse) : Option String :=
  response.refreshToken.filter fun token => token ≠ ""

namespace World

variable (w : World)

/-- A question has been asked. -/
def tick : World := { w with asked := w.asked + 1 }

/-- The provider has answered. -/
def answered : GrantAnswer → World
  | .tokens response => { w with issued := response.newRefreshToken.or w.issued }
  | .invalidGrant => { w with refused := true }
  | .failed => w

def claim (expectedRotationSeq : ℕ) (owner : String) (choice : Choice) : World × Bool :=
  let (row, claimed) := claimAgentAuthCredentialRefresh w.row expectedRotationSeq owner
    choice.leaseId choice.now choice.leaseUntil
  ({ w with row }, claimed.isSome)

def complete (expectedRotationSeq : ℕ) (owner leaseId : String) (now : ℤ) (token : OidcTokenSet)
    (payload : CredentialPayload) : World × Bool :=
  match completeAgentAuthCredentialRefresh w.row expectedRotationSeq owner leaseId now payload
      (some token.expiresAt) with
  | (row, some _) =>
      ({ w with
        row
        refreshes := w.refreshes ++
          [⟨w.row.bind AgentAuthCredential.payload, token, payload, w.issued⟩] }, true)
  | (_, none) => (w, false)

def release (expectedRotationSeq : ℕ) (owner leaseId : String) (now : ℤ) : World × Bool :=
  let (row, released) := releaseAgentAuthCredentialRefresh w.row expectedRotationSeq owner
    leaseId now
  ({ w with row }, released.isSome)

def delete (expectedRotationSeq : ℕ) : World :=
  { w with row := (deleteAgentAuthCredential w.row expectedRotationSeq).1 }

def replace (expectedRotationSeq : ℕ) (payload : CredentialPayload) (expiresAt : Option ℤ) :
    World × Option AgentAuthCredential :=
  let (row, replaced) := replaceAgentAuthCredential w.row expectedRotationSeq payload expiresAt
  ({ w with row }, replaced)

end World

/-! ## The refresh -/

/-- What `refreshCredential` throws, or the function it calls. -/
inductive Thrown
  | reauthorizationRequired
  | accessTokenRejected (message : String)
  | invalidGrant
  | failed
  deriving DecidableEq

/-- The settings of the connection that a refresh reads. -/
structure Config where
  issuer : String
  securityRevision : ℕ

/-- `refresh` of `createOpenIdClientProtocol`, with the provider's answer. -/
def refresh (config : Config) (answer : GrantAnswer) (subject : String) (now : ℤ) :
    Except Thrown OidcTokenSet :=
  match answer with
  | .invalidGrant => .error .invalidGrant
  | .failed => .error .failed
  | .tokens response =>
      if response.accessToken = "" then .error .failed
      else if response.claims.any fun claims => claims.2 ≠ "" && claims.2 ≠ subject then
        .error (.accessTokenRejected "OIDC refresh changed the authorized subject.")
      else .ok
        { accessToken := response.accessToken
          refreshToken := response.newRefreshToken
          expiresAt := now + response.expiresIn.getD 300 * 1000
          issuer := (response.claims.map Prod.fst).getD config.issuer
          subject }

/-- `verifyCandidate`. -/
def verifyCandidate (token : OidcTokenSet) (choice : Choice) : Except Thrown CredentialPayload :=
  match choice.verdict with
  | .rejected message => .error (.accessTokenRejected message)
  | .verified issuer subject => .ok <| .active
      { accessToken := token.accessToken
        refreshToken := token.refreshToken
        agentIssuer := issuer
        agentSubject := subject
        idTokenIssuer := token.issuer
        idTokenSubject := token.subject
        obtainedAt := choice.now }
  | .failed => .ok <| .pendingVerification
      { candidateAccessToken := token.accessToken
        refreshToken := token.refreshToken
        idTokenIssuer := token.issuer
        idTokenSubject := token.subject
        obtainedAt := choice.now }

/-- `waitForRefreshWinner`. -/
def waitForRefreshWinner (oracle : Oracle) (rejectedRotationSeq : ℕ) :
    ℕ → World → Except Thrown Unit × World
  | 0, w => (.error .failed, w)
  | rounds + 1, w =>
      match w.row with
      | none => (.error .reauthorizationRequired, w)
      | some current =>
          if rejectedRotationSeq < current.rotationSeq then (.ok (), w)
          else if current.isFree (oracle w.asked).now then (.ok (), w.tick)
          else waitForRefreshWinner oracle rejectedRotationSeq rounds w.tick

/-- The start of the `try` of `refreshCredential`: the tokens, and the payload they make. -/
def obtainTokens (oracle : Oracle) (config : Config) (payload : CredentialPayload) (w : World) :
    Except Thrown (OidcTokenSet × CredentialPayload) × World :=
  match payload.refreshToken with
  | none => (.error .reauthorizationRequired, w)
  | some _ =>
      if !(oracle w.asked).secret then (.error .failed, w.tick)
      else
        let choice := oracle (w.asked + 1)
        let asked := w.tick.tick.answered choice.answer
        match refresh config choice.answer payload.idTokenSubject choice.now with
        | .error thrown => (.error thrown, asked)
        | .ok token =>
            ((verifyCandidate token (oracle asked.asked)).map fun next => (token, next), asked.tick)

/-- The `catch` of `refreshCredential`: the lease is released, and a credential whose refresh
token was refused is deleted. -/
def giveUpRefresh (oracle : Oracle) (owner leaseId : String) (rotationSeq : ℕ) (thrown : Thrown)
    (w : World) : Except Thrown Unit × World :=
  match w.tick.release rotationSeq owner leaseId (oracle w.asked).now with
  | (released, true) =>
      if thrown = .invalidGrant then (.error .reauthorizationRequired, released.delete rotationSeq)
      else (.error thrown, released)
  | (unreleased, false) => (.error thrown, unreleased)

/-- `refreshCredential`, once the refresh is claimed. -/
def refreshClaimed (oracle : Oracle) (config : Config) (owner leaseId : String)
    (rotationSeq rounds : ℕ) (payload : CredentialPayload) (w : World) :
    Except Thrown Unit × World :=
  match obtainTokens oracle config payload w with
  | (.error thrown, w) => giveUpRefresh oracle owner leaseId rotationSeq thrown w
  | (.ok (token, next), w) =>
      match w.tick.complete rotationSeq owner leaseId (oracle w.asked).now token next with
      | (w, true) => (.ok (), w)
      | (w, false) =>
          match waitForRefreshWinner oracle rotationSeq rounds w with
          | (.ok (), w) => (.ok (), w)
          | (.error thrown, w) => giveUpRefresh oracle owner leaseId rotationSeq thrown w

/-- The owner of the leases of this instance. -/
def owner : String := "oidc"

/-- `refreshCredential`. -/
def refreshCredential (oracle : Oracle) (config : Config) (credential : AgentAuthCredential)
    (payload : CredentialPayload) (w : World) : Except Thrown Unit × World :=
  let choice := oracle w.asked
  match w.tick.claim credential.rotationSeq owner choice with
  | (w, false) => waitForRefreshWinner oracle credential.rotationSeq choice.rounds w
  | (w, true) =>
      refreshClaimed oracle config owner choice.leaseId credential.rotationSeq choice.rounds payload
        w

/-! ## The calls -/

inductive FailureCode
  | interactionRequired
  | configurationInvalid
  | retryRequired
  | providerUnavailable
  deriving DecidableEq

/-- `AgentAuthFailure`. -/
structure AgentAuthFailure where
  code : FailureCode
  message : String
  deriving DecidableEq

def interactionRequired : AgentAuthFailure :=
  ⟨.interactionRequired, "Complete Playground authentication before sending a message."⟩

def undecryptable : AgentAuthFailure :=
  ⟨.configurationInvalid, "The stored Agent credential could not be decrypted."⟩

def credentialChanged : AgentAuthFailure :=
  ⟨.retryRequired, "The Agent credential changed; retry the request."⟩

/-- The failure for what a refresh has thrown. -/
def Thrown.failure (unavailable : String) : Thrown → AgentAuthFailure
  | .reauthorizationRequired => interactionRequired
  | .accessTokenRejected message => ⟨.configurationInvalid, message⟩
  | .invalidGrant | .failed => ⟨.providerUnavailable, unavailable⟩

/-- What a call comes to: a credential with its version, leave to try the request again, a failure,
or an error that is not caught. -/
inductive Answer
  | envelope (accessToken : String) (securityRevision rotationSeq : ℕ)
  | retry
  | failure (failure : AgentAuthFailure)
  | threw

/-- The access token of a payload that is handed out. -/
def accessTokenOf : CredentialPayload → String
  | .active credential => credential.accessToken
  | .pendingVerification credential => credential.candidateAccessToken

/-- The end of `resolveCredential`: a credential that expires soon is refreshed, and resolved again
unless this was the last pass; any other is handed out. -/
def handCredential (oracle : Oracle) (config : Config) (credential : AgentAuthCredential)
    (payload : CredentialPayload) (lastPass : Bool) (again : World → Answer × World) (w : World) :
    Answer × World :=
  if isExpiringSoon credential (oracle w.asked).now then
    if payload.refreshToken.isNone then (.failure interactionRequired, w.tick)
    else if lastPass then
      (.failure ⟨.providerUnavailable, "The identity provider keeps returning Agent credentials " ++
        "that are already about to expire."⟩, w.tick)
    else
      match refreshCredential oracle config credential payload w.tick with
      | (.ok (), w) => again w
      | (.error thrown, w) => (.failure (thrown.failure
          "The identity provider could not refresh the Agent credential."), w)
  else (.envelope (accessTokenOf payload) config.securityRevision credential.rotationSeq, w.tick)

/-- The active credential of a pending one that was verified. -/
def activate (pending : PendingCredential) (issuer subject : String) : CredentialPayload :=
  .active
    { accessToken := pending.candidateAccessToken
      refreshToken := pending.refreshToken
      agentIssuer := issuer
      agentSubject := subject
      idTokenIssuer := pending.idTokenIssuer
      idTokenSubject := pending.idTokenSubject
      obtainedAt := pending.obtainedAt }

/-- `resolveCredential`, with the number of passes that are left. -/
def resolveCredential (oracle : Oracle) (config : Config) : ℕ → World → Answer × World
  | 0, w => (.failure credentialChanged, w)
  | passes + 1, w =>
      match w.row with
      | none => (.failure interactionRequired, w)
      | some credential =>
          match credential.payload with
          | none => (.failure undecryptable, w)
          | some (.active payload) =>
              handCredential oracle config credential (.active payload) (passes = 0)
                (resolveCredential oracle config passes) w
          | some (.pendingVerification payload) =>
              if !(oracle w.asked).secret then (.threw, w.tick)
              else
                match (oracle (w.asked + 1)).verdict with
                | .rejected message => (.failure ⟨.configurationInvalid, message⟩, w.tick.tick)
                | .failed => (.failure ⟨.providerUnavailable,
                    "The OIDC access token is awaiting verification."⟩, w.tick.tick)
                | .verified issuer subject =>
                    let active := activate payload issuer subject
                    match w.tick.tick.replace credential.rotationSeq active credential.expiresAt with
                    | (w, none) =>
                        if passes = 0 then (.failure credentialChanged, w)
                        else resolveCredential oracle config passes w
                    | (w, some credential) =>
                        handCredential oracle config credential active (passes = 0)
                          (resolveCredential oracle config passes) w

/-- `getCredential`. -/
def getCredential (oracle : Oracle) (config : Config) (w : World) : Answer × World :=
  resolveCredential oracle config maxCredentialResolutionAttempts w

/-- `recoverUnauthorized`, of a request that was rejected with this version, for the first or for
the second time. -/
def recoverUnauthorized (oracle : Oracle) (config : Config) (securityRevision rotationSeq : ℕ)
    (second : Bool) (w : World) : Answer × World :=
  if securityRevision ≠ config.securityRevision then
    (.failure ⟨.retryRequired, "Playground authentication changed; retry the request."⟩, w)
  else
    match w.row with
    | none => (.failure interactionRequired, w)
    | some credential =>
        if rotationSeq < credential.rotationSeq then (.retry, w)
        else if credential.rotationSeq ≠ rotationSeq then (.failure credentialChanged, w)
        else if second then (.failure interactionRequired, w.delete credential.rotationSeq)
        else
          match credential.payload with
          | none => (.failure undecryptable, w)
          | some payload =>
              if payload.refreshToken.isNone then (.failure interactionRequired, w)
              else
                match refreshCredential oracle config credential payload w with
                | (.ok (), w) => (.retry, w)
                | (.error thrown, w) => (.failure (thrown.failure
                    "The identity provider could not refresh the rejected Agent credential."), w)

/-! ## Runs -/

inductive Call
  | getCredential
  | recoverUnauthorized (securityRevision rotationSeq : ℕ) (second : Bool)

def call (oracle : Oracle) (config : Config) (w : World) : Call → Answer × World
  | .getCredential => getCredential oracle config w
  | .recoverUnauthorized securityRevision rotationSeq second =>
      recoverUnauthorized oracle config securityRevision rotationSeq second w

/-- An answer, with the credential there is then, whether the provider has refused a refresh token
in the call, and the refresh token it has issued last. -/
structure Answered where
  answer : Answer
  row : Option AgentAuthCredential
  refused : Bool
  issued : Option String

/-- The calls of one caller, first to last. -/
def run (oracle : Oracle) (config : Config) : World → List Call → List Answered × World
  | w, [] => ([], w)
  | w, c :: calls =>
      let (answer, after) := call oracle config { w with refused := false } c
      let (rest, last) := run oracle config after calls
      (⟨answer, after.row, after.refused, after.issued⟩ :: rest, last)

/-- No refresh was stored yet, and the credential has the refresh token issued last. -/
structure Initial (w : World) : Prop where
  refreshes : w.refreshes = []
  issued : ∀ row payload, w.row = some row → row.payload = some payload →
    payload.refreshToken = w.issued

/-- A refresh of a credential that has a refresh token stores one with the refresh token issued
last. -/
def KeepsGrant (r : Refresh) : Prop :=
  (r.replaced.bind CredentialPayload.refreshToken).isSome = true →
    r.stored.refreshToken.isSome = true ∧ r.stored.refreshToken = r.issued

/-- An interaction is required only if there is no credential, the provider has refused the refresh
token, or has issued none. -/
def IsExplained (a : Answered) : Prop :=
  (∃ failure, a.answer = .failure failure ∧ failure.code = .interactionRequired) →
    a.row = none ∨ a.refused = true ∨ a.issued = none

/-- What a run of calls keeps. -/
structure GrantKept (result : List Answered × World) : Prop where
  refreshes : ∀ r ∈ result.2.refreshes, KeepsGrant r
  answers : ∀ a ∈ result.1, IsExplained a

end Eveland.RefreshGrants
