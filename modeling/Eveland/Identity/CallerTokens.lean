/-
# Tokens of the identity broker

What `issueCallerToken`, `mintPlatformCallerToken` and `issueAppToken` put into the tokens they
sign. Ids come from `createId`, and the display names and emails of principals are stored trimmed,
or as null; both are kept in the types.

A token is its header, its payload and a signature, each as a value: the three parts of the
compact form are encodings of these. A signature is by a key, over a header and a payload.
-/

import Mathlib.Data.List.DropRight
import Mathlib.Data.Rat.Defs
import Eveland.Core.JsString
import Eveland.Foundations.Outcome
import Eveland.Identity.SigningKeys

namespace Eveland.CallerTokens

open JsString

/-! ## Tokens -/

/-- A value of a parsed JSON object, as far as a verifier tells values apart. -/
inductive Claim
  | string (value : String)
  | number (value : ℚ)
  | other
  deriving DecidableEq

/-- A parsed JSON object. -/
abbrev Claims : Type := List (String × Claim)

/-- `claims[key]`, where `none` is `undefined`. -/
def Claims.get (claims : Claims) (key : String) : Option Claim := claims.lookup key

/-- The public part of a P-256 key pair. -/
structure PublicKey where
  x : String
  y : String
  deriving DecidableEq

/-- What a key has signed. -/
structure Signature where
  key : PublicKey
  header : Claims
  payload : Claims
  deriving DecidableEq

structure Token where
  header : Claims
  payload : Claims
  signature : Signature
  deriving DecidableEq

/-- The token carries a signature of the key over its header and payload. -/
def Token.isSignedBy (key : PublicKey) (token : Token) : Bool :=
  token.signature = ⟨key, token.header, token.payload⟩

/-! ## Stored values -/

/-- `idAlphabet`. -/
def idAlphabet : List Char :=
  "1234567890abcdefghijklmnopqrstuvwxyzABCDEFGHIJKLMNOPQRSTUVWXYZ".toList

/-- The id is one of those that `createId` makes for a kind. -/
def IsId (kind id : String) : Prop :=
  ∃ suffix : List Char, suffix.length = 10 ∧ suffix.all idAlphabet.contains = true ∧
    id.toList = kind.toList ++ '_' :: suffix

/-- An id that `createId` has made. -/
abbrev Id (kind : String) : Type := { id : String // IsId kind id }

/-- The string has something else than white space. -/
def IsText (value : String) : Prop := trim value.toList ≠ []

/-- A string that has something else than white space. -/
abbrev Text : Type := { value : String // IsText value }

/-- The string itself. -/
def Text.value (text : Text) : String := text.1

theorem stripEnds_stripEnds_ne_nil {drop : Char → Bool} {cs : List Char}
    (hne : stripEnds drop cs ≠ []) : stripEnds drop (stripEnds drop cs) ≠ [] := by
  have hstrip : ∀ cs, stripEnds drop cs = (cs.dropWhile drop).rdropWhile drop := fun _ => rfl
  -- The first character that is kept is not one to drop.
  have hhead : (stripEnds drop cs).dropWhile drop = stripEnds drop cs := by
    have hstart : stripEnds drop cs <+: cs.dropWhile drop := List.rdropWhile_prefix _ _
    obtain ⟨rest, hrest⟩ := hstart
    cases hcs : stripEnds drop cs with
    | nil => rfl
    | cons c kept =>
        have hnot := List.head?_dropWhile_not drop cs
        rw [← hrest, hcs] at hnot
        have hkeep : drop c = false := by simpa using hnot
        rw [List.dropWhile_cons, hkeep]
        rfl
  rw [hstrip (stripEnds drop cs), hhead, hstrip, List.rdropWhile_idempotent]
  exact hne

theorem isText_trim {value : String} (hne : trim value.toList ≠ []) :
    IsText (String.ofList (trim value.toList)) := by
  rw [IsText, String.toList_ofList]
  exact stripEnds_stripEnds_ne_nil hne

/-- `optionalIdentityValue`. -/
def optionalIdentityValue (value : Option String) : Option Text :=
  value.bind fun value =>
    if h : trim value.toList = [] then none
    else some ⟨String.ofList (trim value.toList), isText_trim h⟩

/-- `ExternalRealmKind`. -/
inductive ExternalRealmKind
  | internal
  | account
  | corp
  | workspace
  | enterprise
  | tenant
  | organization
  deriving DecidableEq, Repr

/-- `IdentityProviderType`. -/
inductive IdentityProviderType
  | internal
  | oidc
  | open_
  deriving DecidableEq, Repr

structure IdentityProviderConnection where
  id : String
  type : IdentityProviderType
  internalRealmKey : Option String
  enabled : Bool
  deriving DecidableEq

structure IdentityRealm where
  id : Id "irlm"
  providerConnectionId : String
  externalRealmId : String
  externalRealmKind : ExternalRealmKind
  enabled : Bool
  deriving DecidableEq

structure IdentityPrincipal where
  id : Id "iprn"
  identityRealmId : String
  externalSubject : String
  displayName : Option Text
  email : Option Text
  deriving DecidableEq

structure IdentitySession where
  id : String
  tokenHash : String
  identityPrincipalId : String
  activeIdentityRealmId : String
  expiresAt : ℤ
  revokedAt : Option ℤ
  deriving DecidableEq

structure Project where
  id : Id "proj"
  isDeleting : Bool
  deriving DecidableEq

structure IdentityReturnTarget where
  key : String
  origin : String
  enabled : Bool
  deriving DecidableEq

/-- The tables, in the order of their queries. -/
structure Store where
  connections : List IdentityProviderConnection
  realms : List IdentityRealm
  principals : List IdentityPrincipal
  sessions : List IdentitySession
  projects : List Project
  targets : List IdentityReturnTarget

namespace Store

variable (s : Store)

def getIdentityProviderConnection (id : String) : Option IdentityProviderConnection :=
  s.connections.find? fun connection => connection.id = id

def getIdentityRealm (id : String) : Option IdentityRealm :=
  s.realms.find? fun realm => realm.id.1 = id

def getIdentityRealmByExternalId (providerConnectionId externalRealmId : String) :
    Option IdentityRealm :=
  s.realms.find? fun realm =>
    realm.providerConnectionId = providerConnectionId && realm.externalRealmId = externalRealmId

def getIdentityPrincipal (id : String) : Option IdentityPrincipal :=
  s.principals.find? fun principal => principal.id.1 = id

def getProject (id : String) : Option Project := s.projects.find? fun project => project.id.1 = id

def getIdentityReturnTargetByKey (key : String) : Option IdentityReturnTarget :=
  s.targets.find? fun target => target.key = key

def getActiveIdentitySession (tokenHash : String) (now : ℤ) : Option IdentitySession :=
  s.sessions.find? fun session =>
    session.tokenHash = tokenHash && session.revokedAt.isNone && now < session.expiresAt

def revokeIdentitySession (id : String) (now : ℤ) : Store :=
  { s with
    sessions := s.sessions.map fun session =>
      if session.id = id then { session with revokedAt := some now } else session }

/-- `createIdentityRealm` of a realm that is not stored. -/
def createIdentityRealm (realm : IdentityRealm) : Store := { s with realms := s.realms ++ [realm] }

/-- `upsertIdentityPrincipal`, with the row it returns. `principal` is the row to insert. -/
def upsertIdentityPrincipal (principal : IdentityPrincipal) : IdentityPrincipal × Store :=
  let isSame (row : IdentityPrincipal) : Bool :=
    row.identityRealmId = principal.identityRealmId &&
      row.externalSubject = principal.externalSubject
  let merge (row : IdentityPrincipal) : IdentityPrincipal :=
    { row with displayName := principal.displayName, email := principal.email }
  match s.principals.find? isSame with
  | some row =>
      (merge row, { s with
        principals := s.principals.map fun row => if isSame row then merge row else row })
  | none => (principal, { s with principals := s.principals ++ [principal] })

end Store

/-! ## Audiences -/

/-- What a call of the broker throws. -/
inductive BrokerError
  | identity (code : String) (status : ℕ) (message : String)
  | error (message : String)
  deriving DecidableEq, Repr

/-- `requiredString`. -/
def requiredString (value message : String) : Except BrokerError String :=
  if trim value.toList = [] then .error (.error message)
  else .ok (String.ofList (trim value.toList))

def callerTokenAudience (projectId : String) : Except BrokerError String :=
  (requiredString projectId "Project ID is required.").map ("eveland:project:" ++ ·)

def identityAppTokenAudience (targetKey : String) : Except BrokerError String :=
  (requiredString targetKey "Identity return target key is required.").map ("eveland:app:" ++ ·)

/-- `requiredIdentityValue`. -/
def requiredIdentityValue (value label : String) : Except BrokerError String :=
  if trim value.toList = [] then
    .error (.identity "identity_provider_response_invalid" 401
      (label ++ " is missing from the verified provider identity."))
  else .ok (String.ofList (trim value.toList))

/-! ## The broker -/

/-- `replace(/\/$/, "")`. -/
def stripSlash (url : String) : String :=
  if url.toList.getLast? = some '/' then String.ofList url.toList.dropLast else url

/-- The options of a broker. Lifetimes are in milliseconds. -/
structure Broker where
  options : SigningKeys.BrokerOptions
  issuer : String
  hashIdentityToken : String → String

/-- `issuer` of `createIdentityBroker`. -/
def Broker.iss (broker : Broker) : String := stripSlash broker.issuer

/-- The id is one of those that `ensureActiveSigningKey` makes. -/
def IsSigningKeyId (id : String) : Prop := ∃ suffix, id = "isky_" ++ suffix

/-- What a call draws, and the times it reads. `kid` is the signing key that
`ensureActiveSigningKey` answers with, `jti` encodes sixteen random bytes. -/
structure Draw where
  realmId : Id "irlm"
  principalId : Id "iprn"
  kid : String
  kid_isSigningKeyId : IsSigningKeyId kid
  jti : String
  jti_length : jti.length = 22
  sessionNow : ℤ
  current : ℤ

/-- `{ name: value }`, where there is a value. -/
def optionalClaim (key : String) (value : Option String) : Claims :=
  match value with
  | some value => if value = "" then [] else [(key, .string value)]
  | none => []

/-- `Math.floor(ms / 1000)`. -/
def seconds (ms : ℤ) : Claim := .number ((ms / 1000 : ℤ) : ℚ)

/-- The payload of a Caller Token. -/
def callerTokenPayload (broker : Broker) (draw : Draw) (principal : IdentityPrincipal)
    (realm : IdentityRealm) (audience : String) (agentUrl : Option String) (ttl : ℕ) : Claims :=
  [("iss", .string broker.iss), ("sub", .string principal.id.1), ("aud", .string audience),
      ("principal_type", .string "user"), ("realm_id", .string realm.id.1)] ++
    optionalClaim "name" (principal.displayName.map Text.value) ++
    optionalClaim "email" (principal.email.map Text.value) ++
    optionalClaim "agent_url" agentUrl ++
    [("iat", seconds draw.current), ("nbf", seconds draw.current),
      ("exp", seconds (draw.current + ttl)), ("jti", .string draw.jti)]

/-- The payload of an app token. -/
def appTokenPayload (broker : Broker) (draw : Draw) (principal : IdentityPrincipal)
    (realm : IdentityRealm) (audience : String) : Claims :=
  [("iss", .string broker.iss), ("sub", .string principal.id.1), ("aud", .string audience),
    ("principal_type", .string "user"), ("realm_id", .string realm.id.1),
    ("iat", seconds draw.current), ("nbf", seconds draw.current),
    ("exp", seconds (draw.current + broker.options.appTokenTtl)), ("jti", .string draw.jti)]

/-- `signIdentityJwt`. `keyPair` has the key pair that was generated with each key id. -/
def signIdentityJwt (keyPair : String → PublicKey) (kid : String) (payload : Claims) : Token :=
  let header : Claims := [("alg", .string "ES256"), ("typ", .string "JWT"), ("kid", .string kid)]
  { header, payload, signature := ⟨keyPair kid, header, payload⟩ }

/-- What a call returns with a token: when the token ends and, for a session, whose it is. -/
structure IssuedToken where
  token : Token
  expiresAt : ℤ
  principal : Option (String × Option Text)
  deriving DecidableEq

section Calls

variable (keyPair : String → PublicKey) (broker : Broker) (s : Store) (draw : Draw)

/-- A call that throws, or returns; and the tables it leaves. -/
abbrev Answer (α : Type) : Type := Except BrokerError α × Store

def sessionInvalid (message : String) : BrokerError :=
  .identity "identity_session_invalid" 401 message

/-- The rows are those of a session that may be used. -/
def isUsable (principal : IdentityPrincipal) (realm : IdentityRealm)
    (connection : IdentityProviderConnection) : Bool :=
  realm.enabled && principal.identityRealmId = realm.id.1 && connection.enabled

/-- The principal, the realm and the connection of a session, where they are usable. -/
def usableRows (session : IdentitySession) : Option (IdentityPrincipal × IdentityRealm) :=
  (s.getIdentityPrincipal session.identityPrincipalId).bind fun principal =>
    (s.getIdentityRealm session.activeIdentityRealmId).bind fun realm =>
      (s.getIdentityProviderConnection realm.providerConnectionId).bind fun connection =>
        if isUsable principal realm connection then some (principal, realm) else none

def resolveSession (sessionToken : String) : Answer (IdentityPrincipal × IdentityRealm) :=
  if sessionToken = "" then
    (.error (sessionInvalid "An Eveland Identity Session is required."), s)
  else
    match s.getActiveIdentitySession (broker.hashIdentityToken sessionToken) draw.sessionNow with
    | none =>
        (.error (sessionInvalid "The Eveland Identity Session is missing, expired, or revoked."), s)
    | some session =>
        match usableRows s session with
        | some rows => (.ok rows, s)
        | none =>
            (.error (sessionInvalid "The Eveland Identity Session is no longer active."),
              s.revokeIdentitySession session.id draw.sessionNow)

/-- The project a token is asked for. -/
def findProject (projectId : String) : Except BrokerError Project :=
  match s.getProject projectId with
  | some project =>
      if project.isDeleting then
        .error (.identity "identity_project_not_found" 404 "The requested Project does not exist.")
      else .ok project
  | none =>
      .error (.identity "identity_project_not_found" 404 "The requested Project does not exist.")

def issueCallerToken (sessionToken projectId : String) (agentUrl : Option String) :
    Answer IssuedToken :=
  match resolveSession broker s draw sessionToken with
  | (.error error, t) => (.error error, t)
  | (.ok (principal, realm), t) =>
      match findProject t projectId with
      | .error error => (.error error, t)
      | .ok project =>
          ((callerTokenAudience project.id.1).map fun audience =>
            { token := signIdentityJwt keyPair draw.kid (callerTokenPayload broker draw principal
                realm audience agentUrl broker.options.callerTokenTtl)
              expiresAt := draw.current + broker.options.callerTokenTtl
              principal := some (principal.id.1, principal.displayName) }, t)

/-- `OPEN_SHARED_REALM_KEY` and `OPEN_SHARED_SUBJECT`. -/
def openShared : String := "open-shared"

/-- `ensureOpenSharedIdentity`. -/
def ensureOpenSharedIdentity (provider : IdentityProviderConnection) :
    Answer (IdentityPrincipal × IdentityRealm) :=
  let created : IdentityRealm :=
    { id := draw.realmId, providerConnectionId := provider.id, externalRealmId := openShared
      externalRealmKind := .internal, enabled := true }
  let (realm, t) :=
    match s.getIdentityRealmByExternalId provider.id openShared with
    | some realm => (realm, s)
    | none => (created, s.createIdentityRealm created)
  if realm.enabled then
    let (principal, u) := t.upsertIdentityPrincipal
      { id := draw.principalId, identityRealmId := realm.id.1, externalSubject := openShared
        displayName := none, email := none }
    (.ok (principal, realm), u)
  else
    (.error (.identity "identity_realm_not_allowed" 403 "The open access Realm is disabled."), t)

/-- The control-plane user behind a request. -/
structure ControlPlaneUser where
  externalSubject : String
  displayName : Option String
  email : Option String

/-- `resolveInternalIdentityPrincipal`. -/
def resolveInternalIdentityPrincipal (provider : IdentityProviderConnection)
    (user : ControlPlaneUser) : Answer (IdentityPrincipal × IdentityRealm) :=
  match provider.internalRealmKey.filter (· ≠ "") with
  | none =>
      (.error (.identity "identity_provider_invalid" 503
        "The Eveland Internal Provider has no Realm key."), s)
  | some key =>
      match (s.getIdentityRealmByExternalId provider.id key).filter fun realm =>
          realm.enabled && realm.externalRealmKind = .internal with
      | none =>
          (.error (.identity "identity_realm_not_allowed" 403
            "This identity scope is not allowed."), s)
      | some realm =>
          match requiredIdentityValue user.externalSubject "External subject" with
          | .error error => (.error error, s)
          | .ok externalSubject =>
              let (principal, t) := s.upsertIdentityPrincipal
                { id := draw.principalId, identityRealmId := realm.id.1, externalSubject
                  displayName := optionalIdentityValue user.displayName
                  email := optionalIdentityValue user.email }
              (.ok (principal, realm), t)

/-- The principal and the realm that a platform token is for, and its lifetime. -/
def platformIdentity (provider : IdentityProviderConnection)
    (controlPlaneUser : Option ControlPlaneUser) :
    Answer ((IdentityPrincipal × IdentityRealm) × ℕ) :=
  match provider.type, controlPlaneUser with
  | .open_, _ =>
      let (identity, t) := ensureOpenSharedIdentity s draw provider
      (identity.map fun rows => (rows, broker.options.openCallerTokenTtl), t)
  | .internal, some user =>
      let (identity, t) := resolveInternalIdentityPrincipal s draw provider user
      (identity.map fun rows => (rows, broker.options.callerTokenTtl), t)
  | _, _ =>
      (.error (.identity "identity_provider_unavailable" 503
        "The enabled Identity Provider cannot mint Caller Tokens in this release."), s)

def mintPlatformCallerToken (projectId : String) (controlPlaneUser : Option ControlPlaneUser) :
    Answer IssuedToken :=
  match s.connections.find? IdentityProviderConnection.enabled with
  | none =>
      (.error (.identity "identity_provider_selection_required" 503
        "No Eveland Identity Provider is enabled."), s)
  | some provider =>
      if controlPlaneUser.isNone && provider.type ≠ .open_ then
        (.error (.identity "identity_open_access_inactive" 409
          "Open access is not the enabled Identity Provider."), s)
      else
        match findProject s projectId with
        | .error error => (.error error, s)
        | .ok project =>
            match platformIdentity broker s draw provider controlPlaneUser with
            | (.error error, t) => (.error error, t)
            | (.ok ((principal, realm), ttl), t) =>
                ((callerTokenAudience project.id.1).map fun audience =>
                  { token := signIdentityJwt keyPair draw.kid
                      (callerTokenPayload broker draw principal realm audience none ttl)
                    expiresAt := draw.current + ttl
                    principal := none }, t)

def issueAppToken (sessionToken targetKey origin : String) : Answer IssuedToken :=
  match resolveSession broker s draw sessionToken with
  | (.error error, t) => (.error error, t)
  | (.ok (principal, realm), t) =>
      match (t.getIdentityReturnTargetByKey targetKey).filter fun target =>
          target.enabled && target.origin = origin with
      | none =>
          (.error (.identity "identity_return_target_invalid" 403
            "This origin cannot receive an Eveland app token."), t)
      | some target =>
          ((identityAppTokenAudience target.key).map fun audience =>
            { token := signIdentityJwt keyPair draw.kid
                (appTokenPayload broker draw principal realm audience)
              expiresAt := draw.current + broker.options.appTokenTtl
              principal := none }, t)

end Calls

/-! ## Minted tokens -/

/-- A Caller Token, and what it was minted for. -/
structure CallerToken where
  token : Token
  principal : IdentityPrincipal
  realm : IdentityRealm
  projectId : String
  kid : String
  current : ℤ
  ttl : ℕ

/-- The Caller Tokens that a broker mints. -/
inductive Minted (keyPair : String → PublicKey) (broker : Broker) : CallerToken → Prop
  | issueCallerToken {s t u : Store} {draw : Draw} {sessionToken projectId : String}
      {agentUrl : Option String} {issued : IssuedToken} {principal : IdentityPrincipal}
      {realm : IdentityRealm}
      (hresolved : resolveSession broker s draw sessionToken = (.ok (principal, realm), t))
      (hissued : issueCallerToken keyPair broker s draw sessionToken projectId agentUrl =
        (.ok issued, u)) :
      Minted keyPair broker
        ⟨issued.token, principal, realm, projectId, draw.kid, draw.current,
          broker.options.callerTokenTtl⟩
  | mintPlatformCallerToken {s t u : Store} {draw : Draw} {projectId : String}
      {controlPlaneUser : Option ControlPlaneUser} {provider : IdentityProviderConnection}
      {issued : IssuedToken} {principal : IdentityPrincipal} {realm : IdentityRealm} {ttl : ℕ}
      (hprovider : s.connections.find? IdentityProviderConnection.enabled = some provider)
      (hidentity : platformIdentity broker s draw provider controlPlaneUser =
        (.ok ((principal, realm), ttl), t))
      (hminted : mintPlatformCallerToken keyPair broker s draw projectId controlPlaneUser =
        (.ok issued, u)) :
      Minted keyPair broker
        ⟨issued.token, principal, realm, projectId, draw.kid, draw.current, ttl⟩

/-- The app tokens that a broker issues. -/
def IsAppToken (keyPair : String → PublicKey) (broker : Broker) (token : Token) : Prop :=
  ∃ s t draw sessionToken targetKey origin issued,
    issueAppToken keyPair broker s draw sessionToken targetKey origin = (.ok issued, t) ∧
      issued.token = token

end Eveland.CallerTokens
