/-
# The verifier of Caller Tokens

`evelandIdentity`, which an agent runs on the requests it gets. It finds the key that a token
names in the key set of the broker, which it fetches and caches: a fetched set is served for a
minute, and after a fetch has failed an older one is served for half an hour, with no other attempt
for ten seconds. The signature check and the import of a key are the caller's; the claims are
checked by hand.
-/

import Eveland.Identity.CallerTokens

namespace Eveland.CallerTokens

open JsString

/-! ## Keys -/

/-- A key of `getJwks`. -/
def jwk (keyPair : String → PublicKey) (kid : String) : Claims :=
  [("kty", .string "EC"), ("crv", .string "P-256"), ("x", .string (keyPair kid).x),
    ("y", .string (keyPair kid).y), ("kid", .string kid), ("alg", .string "ES256"),
    ("use", .string "sig")]

/-- `getJwks`, at a time. -/
def getJwks (keyPair : String → PublicKey) (keys : List SigningKeys.SigningKey) (current : ℤ) :
    List Claims :=
  (SigningKeys.getJwks keys current).map (jwk keyPair)

/-- The entry of a key set is for verifying ES256 signatures of the key id. -/
def isKeyFor (kid : String) (candidate : Claims) : Bool :=
  candidate.get "kid" = some (.string kid) && candidate.get "kty" = some (.string "EC") &&
    candidate.get "alg" = some (.string "ES256") && candidate.get "use" = some (.string "sig")

/-! ## The cached key set -/

/-- `JWKS_FRESH_MS`. -/
def jwksFreshMs : ℤ := 60000

/-- `JWKS_STALE_MS`. -/
def jwksStaleMs : ℤ := 30 * 60000

/-- `JWKS_RETRY_MS`. -/
def jwksRetryMs : ℤ := 10000

/-- A key set, and until when it is served. -/
structure KeyCache where
  keys : List Claims
  freshUntil : ℤ
  staleUntil : ℤ
  deriving DecidableEq

/-- What a verifier keeps between requests. -/
structure Verifier where
  cache : Option KeyCache
  nextAttemptAt : ℤ
  deriving DecidableEq

/-- A verifier that has had no request. -/
def Verifier.new : Verifier := { cache := none, nextAttemptAt := 0 }

/-- A call of `loadKeys`: the verifier and the time when it starts, what a fetch would answer
(`none` where it fails, or what it answers is no key set), and the verifier by then. -/
structure Load where
  verifier : Verifier
  current : ℤ
  response : Option (List Claims)
  answered : Verifier
  deriving DecidableEq

namespace Load

variable (load : Load) (force : Bool)

/-- The keys that are served without a fetch. -/
def cached : Option (List Claims) :=
  match load.verifier.cache with
  | none => none
  | some cache =>
      if !force && load.current < cache.freshUntil then some cache.keys
      else if load.current < load.verifier.nextAttemptAt && load.current < cache.staleUntil then
        some cache.keys
      else none

/-- `refreshFailed`. -/
def refreshFailed : List Claims × Verifier :=
  let usable := load.answered.cache.filter fun cache => load.current < cache.staleUntil
  ((usable.map KeyCache.keys).getD [],
    { cache := usable, nextAttemptAt := load.current + jwksRetryMs })

/-- `loadKeys`, with what it leaves. -/
def loadKeys : List Claims × Verifier :=
  match load.cached force with
  | some keys => (keys, load.verifier)
  | none =>
      match load.response with
      | none => load.refreshFailed
      | some keys =>
          (keys,
            { cache := some
                { keys, freshUntil := load.current + jwksFreshMs
                  staleUntil := load.current + jwksStaleMs }
              nextAttemptAt := 0 })

end Load

/-- The response, if there is one, is what the broker answers at some time. -/
def IsJwksResponse (keyPair : String → PublicKey) (response : Option (List Claims)) : Prop :=
  ∀ entries, response = some entries → ∃ keys current, entries = getJwks keyPair keys current

/-- The states that a verifier can be left in by loads, any number of them under way at a time,
whose fetches fail or are answered by the broker. -/
inductive Reached (keyPair : String → PublicKey) : Verifier → Prop
  | new : Reached keyPair .new
  | load {load : Load} (force : Bool) (hverifier : Reached keyPair load.verifier)
      (hanswered : Reached keyPair load.answered)
      (hresponse : IsJwksResponse keyPair load.response) :
      Reached keyPair (load.loadKeys force).2

/-! ## Verification -/

/-- The options of `evelandIdentity`, with what the environment has for those that are not
given. -/
structure VerifierOptions where
  issuer : String
  projectId : String
  jwksUrl : Option String
  allowedRealms : Option (List String)
  allowedRealmIds : String

namespace VerifierOptions

variable (options : VerifierOptions)

def iss : String := stripSlash options.issuer

/-- Where the key set is fetched. -/
def keySetUrl : String :=
  options.jwksUrl.getD (if options.iss = "" then "" else options.iss ++ "/.well-known/jwks.json")

/-- `allowedRealms`, of which an empty list accepts every realm. -/
def realms : List String :=
  options.allowedRealms.getD
    (((splitAt ',' options.allowedRealmIds.toList).map fun realm => String.ofList (trim realm)).filter
      fun realm => realm ≠ "")

/-- There is an issuer, a project and a place of the key set. -/
def isConfigured : Bool :=
  options.iss ≠ "" && options.projectId ≠ "" && options.keySetUrl ≠ ""

def audience : String := "eveland:project:" ++ options.projectId

end VerifierOptions

/-- What `verifyJwtEcdsa` is asked for. -/
structure SignatureCheck where
  issuer : String
  audiences : List String
  publicKey : PublicKey
  clockSkewSeconds : ℕ

/-- The claim is a number that meets a condition, or is not a number. -/
def Claims.numberMeets (claims : Claims) (key : String) (condition : ℚ → Bool) : Bool :=
  match claims.get key with
  | some (.number value) => condition value
  | _ => true

/-- The token is signed by the key, has the issuer and one of the audiences, and the time is
inside its window, up to the skew. -/
def SignatureCheck.accepts (check : SignatureCheck) (token : Token) (now : ℤ) : Bool :=
  token.isSignedBy check.publicKey &&
    token.payload.get "iss" = some (.string check.issuer) &&
    (check.audiences.any fun audience => token.payload.get "aud" = some (.string audience)) &&
    token.payload.numberMeets "nbf" (fun nbf => (nbf - check.clockSkewSeconds) * 1000 ≤ now) &&
    token.payload.numberMeets "exp" (fun exp => now < (exp + check.clockSkewSeconds) * 1000)

/-- `createPublicKey`, which may throw, and `verifyJwtEcdsa`, at a time. -/
structure Crypto where
  createPublicKey : Claims → Option PublicKey
  verifyJwtEcdsa : SignatureCheck → Token → ℤ → Bool

/-- Published keys can be imported, and signatures are checked exactly. -/
structure Crypto.IsExact (crypto : Crypto) (keyPair : String → PublicKey) : Prop where
  createPublicKey : ∀ kid, crypto.createPublicKey (jwk keyPair kid) = some (keyPair kid)
  verifyJwtEcdsa : ∀ check token now,
    crypto.verifyJwtEcdsa check token now = check.accepts token now

/-- `decodeToken`, of which this is the key id. -/
def decodeToken (token : Token) : Option String :=
  if token.header.get "alg" = some (.string "ES256") &&
      token.header.get "typ" = some (.string "JWT") then
    match token.header.get "kid" with
    | some (.string kid) => if kid = "" then none else some kid
    | _ => none
  else none

/-- `[0-9A-Za-z_-]`. -/
def isIdChar (c : Char) : Bool := c.isAlphanum || c = '_' || c = '-'

/-- `/^kind_[0-9A-Za-z_-]+$/`. -/
def matchesId (kind value : String) : Bool :=
  let start := kind.toList ++ ['_']
  let rest := value.toList.drop start.length
  start.isPrefixOf value.toList && !rest.isEmpty && rest.all isIdChar

/-- A display claim, where there is one: a string that is not blank. -/
def isDisplayClaim : Option Claim → Bool
  | none => true
  | some (.string value) => trim value.toList ≠ []
  | some _ => false

/-- The claim is a number that meets a condition. -/
def Claims.isNumberThat (claims : Claims) (key : String) (condition : ℚ → Bool) : Bool :=
  match claims.get key with
  | some (.number value) => condition value
  | _ => false

/-- The claim is a string that meets a condition. -/
def Claims.isStringThat (claims : Claims) (key : String) (condition : String → Bool) : Bool :=
  match claims.get key with
  | some (.string value) => condition value
  | _ => false

/-- The claims have the form of a Caller Token's, at a time. -/
def hasValidClaims (claims : Claims) (now : ℤ) : Bool :=
  let nowSeconds : ℚ := (now / 1000 : ℤ)
  claims.get "principal_type" = some (.string "user") &&
    claims.isStringThat "sub" (matchesId "iprn") &&
    claims.isStringThat "realm_id" (matchesId "irlm") &&
    isDisplayClaim (claims.get "name") &&
    isDisplayClaim (claims.get "email") &&
    claims.isNumberThat "iat" (fun iat => iat ≤ nowSeconds + 5) &&
    claims.isNumberThat "nbf" (fun nbf => nbf ≤ nowSeconds + 5) &&
    claims.isNumberThat "exp" (fun exp => nowSeconds - 5 < exp) &&
    claims.isStringThat "jti" (fun jti => jti ≠ "")

/-- The value of a string claim. -/
def Claims.stringOf (claims : Claims) (key : String) : Option String :=
  match claims.get key with
  | some (.string value) => some value
  | _ => none

/-- Whom a request is from. -/
structure AuthResult where
  authenticator : String
  issuer : String
  subject : String
  principalId : String
  principalType : String
  realmId : String
  name : Option String
  email : Option String
  deriving DecidableEq

/-- What the verifier meets while it serves a request: its two loads of the key set, and the
times at which it checks the signature and the claims. -/
structure Visit where
  first : Load
  second : Load
  verifiedAt : ℤ
  checkedAt : ℤ

section Verify

variable (crypto : Crypto) (options : VerifierOptions) (token : Token) (visit : Visit)

/-- The key of the first load, or else of the second. -/
def findKey (kid : String) : Option Claims :=
  match (visit.first.loadKeys false).1.find? (isKeyFor kid) with
  | some entry => some entry
  | none => (visit.second.loadKeys true).1.find? (isKeyFor kid)

/-- The token's signature and claims, once its key has been found. -/
def checkToken (publicKey : PublicKey) : Option AuthResult :=
  let claims := token.payload
  if crypto.verifyJwtEcdsa
      { issuer := options.iss, audiences := [options.audience], publicKey, clockSkewSeconds := 5 }
      token visit.verifiedAt &&
      hasValidClaims claims visit.checkedAt then
    match claims.stringOf "sub", claims.stringOf "realm_id" with
    | some subject, some realmId =>
        if !options.realms.isEmpty && !options.realms.contains realmId then none
        else
          some
            { authenticator := "eveland-identity", issuer := options.iss, subject
              principalId := options.iss ++ ":" ++ subject, principalType := "user", realmId
              name := claims.stringOf "name", email := claims.stringOf "email" }
    | _, _ => none
  else none

/-- `verify` of `evelandIdentity`, where `none` declines the request. -/
def verify : Option AuthResult :=
  match decodeToken token with
  | none => none
  | some kid =>
      if options.isConfigured then
        ((findKey visit kid).bind crypto.createPublicKey).bind
          (checkToken crypto options token visit)
      else none

end Verify

end Eveland.CallerTokens
