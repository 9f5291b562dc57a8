/-
# Issuer and verifier agree on Caller Tokens

A Caller Token has every claim in the form that the verifier asks for, and the verifier finds the
key that signed it: in a cached key set, or by a fetch. Only a verifier that has to wait after a
fetch has failed, with an older key set still cached, may not get to see a new key.
-/

import Mathlib.Tactic.Linarith
import Mathlib.Tactic.NormNum
import Eveland.Identity.TokenVerifier

namespace Eveland.CallerTokens

open JsString

/-! ## Ids and texts -/

theorem trim_eq_self {cs : List Char} (hcs : ∀ c ∈ cs, isWhitespace c = false) : trim cs = cs := by
  have hkeep : ∀ {ds : List Char}, (∀ d ∈ ds, isWhitespace d = false) →
      ds.dropWhile isWhitespace = ds := by
    intro ds hds
    cases ds with
    | nil => rfl
    | cons d ds => rw [List.dropWhile_cons, hds d List.mem_cons_self]; rfl
  rw [trim, stripEnds, hkeep hcs, hkeep (by simpa using hcs), List.reverse_reverse]

/-- The characters of the suffix of an id. -/
theorem isIdChar_of_suffix {suffix : List Char} (hsuffix : suffix.all idAlphabet.contains = true) :
    ∀ c ∈ suffix, isIdChar c = true ∧ isWhitespace c = false := by
  have halphabet : (idAlphabet.all fun c => isIdChar c && !isWhitespace c) = true := by
    decide +kernel
  intro c hc
  have hmem := List.all_eq_true.mp hsuffix c hc
  have hchar := List.all_eq_true.mp halphabet c (List.contains_iff_mem.mp hmem)
  simpa using hchar

/-- No part of an id is white space. -/
theorem trim_of_isId {kind id : String} (hkind : kind.toList.any isWhitespace = false)
    (hid : IsId kind id) : trim id.toList = id.toList := by
  obtain ⟨suffix, _, hsuffix, hid⟩ := hid
  apply trim_eq_self
  intro c hc
  rw [hid, List.mem_append, List.mem_cons] at hc
  rcases hc with hc | rfl | hc
  · exact Bool.eq_false_iff.mpr (List.any_eq_false.mp hkind c hc)
  · decide
  · exact (isIdChar_of_suffix hsuffix c hc).2

theorem matchesId_of_isId {kind id : String} (hid : IsId kind id) : matchesId kind id = true := by
  obtain ⟨suffix, hlength, hsuffix, hid⟩ := hid
  have hsplit : id.toList = (kind.toList ++ ['_']) ++ suffix := by
    rw [hid, List.append_assoc]
    rfl
  have hrest : suffix.isEmpty = false := by
    cases suffix with
    | nil => cases hlength
    | cons c suffix => rfl
  simp only [matchesId, hsplit, List.drop_left, hrest, Bool.not_false, Bool.and_true,
    Bool.and_eq_true, List.isPrefixOf_iff_prefix, List.all_eq_true]
  exact ⟨List.prefix_append _ _, fun c hc => (isIdChar_of_suffix hsuffix c hc).1⟩

theorem ne_empty_of_isText {value : String} (htext : IsText value) : value ≠ "" := by
  rintro rfl
  exact htext rfl

/-! ## The claims of a Caller Token -/

@[simp]
theorem Claims.get_append (claims others : Claims) (key : String) :
    Claims.get (claims ++ others) key = (claims.get key).or (others.get key) := by
  induction claims with
  | nil => rfl
  | cons entry claims ih =>
      obtain ⟨name, value⟩ := entry
      simp only [Claims.get, List.cons_append, List.lookup_cons] at ih ⊢
      split
      · rfl
      · exact ih

@[simp]
theorem Claims.get_cons (entry : String × Claim) (claims : Claims) (key : String) :
    Claims.get (entry :: claims) key = if key = entry.1 then some entry.2 else claims.get key := by
  obtain ⟨name, value⟩ := entry
  simp only [Claims.get, List.lookup_cons]
  by_cases h : key = name
  · simp [h]
  · rw [beq_false_of_ne h]
    simp [h]

@[simp]
theorem Claims.get_nil (key : String) : Claims.get [] key = none := rfl

@[simp]
theorem get_optionalClaim_of_ne {key other : String} (hne : other ≠ key) (value : Option String) :
    (optionalClaim key value).get other = none := by
  cases value with
  | none => rfl
  | some value =>
      simp only [optionalClaim]
      split
      · rfl
      · simp [hne]

/-- A display claim is what is stored. -/
theorem get_optionalClaim_text (key : String) (value : Option Text) :
    (optionalClaim key (value.map Text.value)).get key =
      value.map fun text => Claim.string text.value := by
  cases value with
  | none => rfl
  | some text =>
      have hne : text.value ≠ "" := ne_empty_of_isText text.2
      simp [optionalClaim, hne]

/-- What a verifier reads in the claims of a Caller Token. -/
structure IsCallerClaims (broker : Broker) (minted : CallerToken) (claims : Claims) : Prop where
  iss : claims.get "iss" = some (.string broker.iss)
  sub : claims.get "sub" = some (.string minted.principal.id.1)
  aud : claims.get "aud" = some (.string ("eveland:project:" ++ minted.projectId))
  principalType : claims.get "principal_type" = some (.string "user")
  realmId : claims.get "realm_id" = some (.string minted.realm.id.1)
  name : claims.get "name" = minted.principal.displayName.map fun text => .string text.value
  email : claims.get "email" = minted.principal.email.map fun text => .string text.value
  iat : claims.get "iat" = some (seconds minted.current)
  nbf : claims.get "nbf" = some (seconds minted.current)
  exp : claims.get "exp" = some (seconds (minted.current + minted.ttl))
  jti : ∃ jti, claims.get "jti" = some (.string jti) ∧ jti ≠ ""

theorem isCallerClaims_payload (broker : Broker) (draw : Draw) (principal : IdentityPrincipal)
    (realm : IdentityRealm) (projectId : String) (agentUrl : Option String) (ttl : ℕ)
    (token : Token) :
    IsCallerClaims broker ⟨token, principal, realm, projectId, draw.kid, draw.current, ttl⟩
      (callerTokenPayload broker draw principal realm ("eveland:project:" ++ projectId) agentUrl
        ttl) := by
  have hjti : draw.jti ≠ "" := by
    intro hempty
    have hlength := draw.jti_length
    rw [hempty] at hlength
    cases hlength
  constructor
  case jti => exact ⟨draw.jti, by simp [callerTokenPayload], hjti⟩
  case name => simp [callerTokenPayload, get_optionalClaim_text]
  case email => simp [callerTokenPayload, get_optionalClaim_text]
  all_goals simp [callerTokenPayload]

/-- The header names the key, the key has signed, and the claims are those of a Caller Token. -/
structure IsCallerToken (keyPair : String → PublicKey) (broker : Broker) (minted : CallerToken) :
    Prop where
  kid : decodeToken minted.token = some minted.kid
  signed : minted.token.isSignedBy (keyPair minted.kid) = true
  claims : IsCallerClaims broker minted minted.token.payload

theorem decodeToken_sign (keyPair : String → PublicKey) (draw : Draw) (payload : Claims) :
    decodeToken (signIdentityJwt keyPair draw.kid payload) = some draw.kid := by
  have hkid : draw.kid ≠ "" := by
    obtain ⟨suffix, hsuffix⟩ := draw.kid_isSigningKeyId
    rw [hsuffix]
    intro hempty
    have hlength := congrArg String.length hempty
    simp at hlength
  simp [decodeToken, signIdentityJwt, hkid]

/-- The audience of a stored project. -/
theorem callerTokenAudience_eq (id : Id "proj") :
    callerTokenAudience id.1 = .ok ("eveland:project:" ++ id.1) := by
  have htrim := trim_of_isId (by decide) id.2
  have hne : id.1.toList ≠ [] := by
    obtain ⟨suffix, _, _, hid⟩ := id.2
    simp [hid]
  simp [callerTokenAudience, requiredString, htrim, hne, Except.map]

theorem findProject_id {s : Store} {projectId : String} {project : Project}
    (hfound : findProject s projectId = .ok project) : project.id.1 = projectId := by
  simp only [findProject, Store.getProject] at hfound
  split at hfound
  · next hproject =>
      split at hfound <;> cases hfound
      simpa using List.find?_some hproject
  · cases hfound

/-- What a broker mints are Caller Tokens. -/
theorem Minted.isCallerToken {keyPair : String → PublicKey} {broker : Broker}
    {minted : CallerToken} (hminted : Minted keyPair broker minted) :
    IsCallerToken keyPair broker minted := by
  cases hminted with
  | issueCallerToken hresolved hissued =>
      simp only [CallerTokens.issueCallerToken, hresolved] at hissued
      split at hissued
      · cases hissued
      · next project hproject =>
          rw [callerTokenAudience_eq] at hissued
          cases hissued
          rw [findProject_id hproject]
          exact ⟨decodeToken_sign _ _ _, by simp [signIdentityJwt, Token.isSignedBy],
            isCallerClaims_payload _ _ _ _ _ _ _ _⟩
  | mintPlatformCallerToken hprovider hidentity hminted =>
      simp only [CallerTokens.mintPlatformCallerToken, hprovider] at hminted
      split at hminted
      · cases hminted
      · split at hminted
        · cases hminted
        · next project hproject =>
            rw [hidentity] at hminted
            dsimp only at hminted
            rw [callerTokenAudience_eq] at hminted
            cases hminted
            rw [findProject_id hproject]
            exact ⟨decodeToken_sign _ _ _, by simp [signIdentityJwt, Token.isSignedBy],
              isCallerClaims_payload _ _ _ _ _ _ _ _⟩

/-- An app token is for no project. -/
theorem IsAppToken.aud {keyPair : String → PublicKey} {broker : Broker} {token : Token}
    (happ : IsAppToken keyPair broker token) :
    ∃ key, token.payload.get "aud" = some (.string ("eveland:app:" ++ key)) := by
  obtain ⟨s, t, draw, sessionToken, targetKey, origin, issued, hissued, rfl⟩ := happ
  simp only [issueAppToken] at hissued
  split at hissued
  · cases hissued
  · split at hissued
    · cases hissued
    · next target _ =>
        simp only [identityAppTokenAudience, requiredString] at hissued
        split at hissued
        · cases hissued
        · cases hissued
          exact ⟨String.ofList (trim target.key.toList), by simp [signIdentityJwt, appTokenPayload]⟩

/-! ## Finding the key -/

section Keys

variable {keyPair : String → PublicKey}

/-- Of the published keys only that of the id is one for it. -/
theorem eq_of_isKeyFor {kid other : String} (hkey : isKeyFor kid (jwk keyPair other) = true) :
    other = kid := by
  simpa [isKeyFor, jwk] using hkey

theorem isKeyFor_jwk (kid : String) : isKeyFor kid (jwk keyPair kid) = true := by
  simp [isKeyFor, jwk]

/-- All entries are keys that the broker has published. -/
def ArePublished (keyPair : String → PublicKey) (entries : List Claims) : Prop :=
  ∀ entry ∈ entries, ∃ kid, entry = jwk keyPair kid

theorem arePublished_getJwks (keys : List SigningKeys.SigningKey) (current : ℤ) :
    ArePublished keyPair (getJwks keyPair keys current) := by
  intro entry hentry
  obtain ⟨kid, _, rfl⟩ := List.mem_map.mp hentry
  exact ⟨kid, rfl⟩

/-- What is found in published keys is the key of the id. -/
theorem ArePublished.find {entries : List Claims} (hpublished : ArePublished keyPair entries)
    {kid : String} {entry : Claims} (hfound : entries.find? (isKeyFor kid) = some entry) :
    entry = jwk keyPair kid := by
  obtain ⟨other, rfl⟩ := hpublished entry (List.mem_of_find?_eq_some hfound)
  rw [eq_of_isKeyFor (List.find?_some hfound)]

theorem Load.cached_published {load : Load}
    (hpublished : ∀ cache, load.verifier.cache = some cache → ArePublished keyPair cache.keys)
    {force : Bool} {keys : List Claims} (hcached : load.cached force = some keys) :
    ArePublished keyPair keys := by
  simp only [Load.cached] at hcached
  split at hcached
  · cases hcached
  · next cache hcache =>
      split at hcached
      · cases hcached
        exact hpublished cache hcache
      · split at hcached <;> cases hcached
        exact hpublished cache hcache

/-- A verifier has cached published keys only. -/
theorem Reached.published {verifier : Verifier} (hreached : Reached keyPair verifier) :
    ∀ cache, verifier.cache = some cache → ArePublished keyPair cache.keys := by
  induction hreached with
  | new => intro cache hcache; cases hcache
  | @load load force _ _ hresponse ihverifier ihanswered =>
      intro cache hcache
      simp only [Load.loadKeys] at hcache
      split at hcache
      · exact ihverifier cache hcache
      · split at hcache
        · simp only [Load.refreshFailed, Option.filter_eq_some_iff] at hcache
          exact ihanswered cache hcache.1
        · next entries hentries =>
            cases hcache
            obtain ⟨keys, current, rfl⟩ := hresponse entries hentries
            exact arePublished_getJwks keys current

end Keys

/-- The fetch of a load succeeds, with a key set that has the key. -/
structure Load.Succeeds (keyPair : String → PublicKey) (kid : String) (load : Load) : Prop where
  reached : Reached keyPair load.verifier
  response : ∃ keys current, load.response = some (getJwks keyPair keys current) ∧
    kid ∈ SigningKeys.getJwks keys current

/-- The load is served from a key set without the key. -/
def Load.lacks (kid : String) (force : Bool) (load : Load) : Bool :=
  (load.cached force).any fun keys => (keys.find? (isKeyFor kid)).isNone

/-- Both loads are served from cached key sets without the key. -/
def Visit.isHeldBack (kid : String) (visit : Visit) : Bool :=
  visit.first.lacks kid false && visit.second.lacks kid true

/-- The token's lifetime has begun and is not over when it is checked. -/
structure Visit.IsDuring (minted : CallerToken) (visit : Visit) : Prop where
  verified_ge : minted.current / 1000 * 1000 ≤ visit.verifiedAt
  verified_lt : visit.verifiedAt < SigningKeys.expiry minted.current minted.ttl
  checked_ge : minted.current / 1000 * 1000 ≤ visit.checkedAt
  checked_lt : visit.checkedAt < SigningKeys.expiry minted.current minted.ttl

/-- A load finds the key unless it is served from a key set without it. -/
theorem Load.Succeeds.find {keyPair : String → PublicKey} {kid : String} {load : Load}
    (hsucceeds : load.Succeeds keyPair kid) (force : Bool) :
    (load.loadKeys force).1.find? (isKeyFor kid) =
      if load.lacks kid force then none else some (jwk keyPair kid) := by
  cases hcached : load.cached force with
  | some keys =>
      have hpublished := Load.cached_published hsucceeds.reached.published hcached
      cases hfound : keys.find? (isKeyFor kid) with
      | none => simp [Load.loadKeys, Load.lacks, hcached, hfound]
      | some entry =>
          have hentry := hpublished.find hfound
          simp [Load.loadKeys, Load.lacks, hcached, hfound, hentry]
  | none =>
      obtain ⟨keys, current, hresponse, hmem⟩ := hsucceeds.response
      have hlacks : load.lacks kid force = false := by simp [Load.lacks, hcached]
      cases hfound : (getJwks keyPair keys current).find? (isKeyFor kid) with
      | none =>
          have hnone := List.find?_eq_none.mp hfound (jwk keyPair kid)
            (List.mem_map.mpr ⟨kid, hmem, rfl⟩)
          exact absurd (isKeyFor_jwk kid) hnone
      | some entry =>
          have hentry := (arePublished_getJwks keys current).find hfound
          simp [Load.loadKeys, hcached, hresponse, hfound, hentry, hlacks]

theorem findKey_eq {keyPair : String → PublicKey} {kid : String} {visit : Visit}
    (hfirst : visit.first.Succeeds keyPair kid) (hsecond : visit.second.Succeeds keyPair kid) :
    findKey visit kid =
      if visit.isHeldBack kid then none else some (jwk keyPair kid) := by
  rw [findKey, hfirst.find]
  cases hlacks : visit.first.lacks kid false with
  | false => simp [Visit.isHeldBack, hlacks]
  | true => simp [Visit.isHeldBack, hlacks, hsecond.find]

/-! ## Checking the token -/

/-- Whom a Caller Token is from. -/
def CallerToken.authResult (minted : CallerToken) (issuer : String) : AuthResult where
  authenticator := "eveland-identity"
  issuer := issuer
  subject := minted.principal.id.1
  principalId := issuer ++ ":" ++ minted.principal.id.1
  principalType := "user"
  realmId := minted.realm.id.1
  name := minted.principal.displayName.map Text.value
  email := minted.principal.email.map Text.value

/-- The options are those of an agent of the project, at the broker. -/
structure VerifierOptions.IsFor (options : VerifierOptions) (broker : Broker) (projectId : String) :
    Prop where
  issuer : options.iss = broker.iss
  projectId : options.projectId = projectId
  isConfigured : options.isConfigured = true

theorem isDisplayClaim_text (value : Option Text) :
    isDisplayClaim (value.map fun text => Claim.string text.value) = true := by
  cases value with
  | none => rfl
  | some text => exact decide_eq_true text.2

theorem stringOf_text {claims : Claims} {key : String} {value : Option Text}
    (hget : claims.get key = value.map fun text => Claim.string text.value) :
    claims.stringOf key = value.map Text.value := by
  rw [Claims.stringOf, hget]
  cases value <;> rfl

/-- The claims have the verifier's form during the lifetime of the token. -/
theorem IsCallerClaims.hasValidClaims {broker : Broker} {minted : CallerToken} {claims : Claims}
    (hclaims : IsCallerClaims broker minted claims) {now : ℤ}
    (hge : minted.current / 1000 * 1000 ≤ now)
    (hlt : now < SigningKeys.expiry minted.current minted.ttl) :
    hasValidClaims claims now = true := by
  obtain ⟨jti, hjti, hne⟩ := hclaims.jti
  rw [SigningKeys.expiry] at hlt
  have hstarted : minted.current / 1000 ≤ now / 1000 + 5 := by omega
  have hending : now / 1000 - 5 < (minted.current + minted.ttl) / 1000 := by omega
  have hstarted' : ((minted.current / 1000 : ℤ) : ℚ) ≤ (now / 1000 : ℤ) + 5 := by
    exact_mod_cast hstarted
  have hending' : ((now / 1000 : ℤ) : ℚ) - 5 < ((minted.current + minted.ttl) / 1000 : ℤ) := by
    exact_mod_cast hending
  simp only [CallerTokens.hasValidClaims, Claims.isStringThat, Claims.isNumberThat, hclaims.principalType,
    hclaims.sub, hclaims.realmId, hclaims.name, hclaims.email, hclaims.iat, hclaims.nbf,
    hclaims.exp, hjti, seconds, isDisplayClaim_text, matchesId_of_isId minted.principal.id.2,
    matchesId_of_isId minted.realm.id.2, decide_eq_true hstarted', decide_eq_true hending',
    decide_eq_true hne, decide_true, Bool.and_true]

/-- The signature is accepted during the lifetime of the token. -/
theorem IsCallerToken.accepts {keyPair : String → PublicKey} {broker : Broker}
    {minted : CallerToken} (htoken : IsCallerToken keyPair broker minted)
    {options : VerifierOptions} (hoptions : options.IsFor broker minted.projectId) {now : ℤ}
    (hge : minted.current / 1000 * 1000 ≤ now)
    (hlt : now < SigningKeys.expiry minted.current minted.ttl) :
    SignatureCheck.accepts
      { issuer := options.iss, audiences := [options.audience],
        publicKey := keyPair minted.kid, clockSkewSeconds := 5 } minted.token now = true := by
  rw [SigningKeys.expiry] at hlt
  have hge' : ((minted.current / 1000 : ℤ) : ℚ) * 1000 ≤ now := by exact_mod_cast hge
  have hlt' : (now : ℚ) < ((minted.current + minted.ttl) / 1000 : ℤ) * 1000 := by
    exact_mod_cast hlt
  have hnbf : (((minted.current / 1000 : ℤ) : ℚ) - (5 : ℕ)) * 1000 ≤ now := by
    push_cast at hge' ⊢
    linarith
  have hexp : (now : ℚ) < (((minted.current + minted.ttl) / 1000 : ℤ) + (5 : ℕ)) * 1000 := by
    push_cast at hlt' ⊢
    linarith
  simp only [SignatureCheck.accepts, Claims.numberMeets, VerifierOptions.audience, htoken.signed,
    htoken.claims.iss, htoken.claims.aud, htoken.claims.nbf, htoken.claims.exp, seconds,
    hoptions.issuer, hoptions.projectId, List.any_cons, List.any_nil, decide_eq_true hnbf,
    decide_eq_true hexp, decide_true, Bool.or_false, Bool.and_true]

theorem IsCallerToken.checkToken {keyPair : String → PublicKey} {crypto : Crypto}
    (hcrypto : crypto.IsExact keyPair) {broker : Broker} {minted : CallerToken}
    (htoken : IsCallerToken keyPair broker minted) {options : VerifierOptions}
    (hoptions : options.IsFor broker minted.projectId)
    (hrealms : options.realms = [] ∨ minted.realm.id.1 ∈ options.realms) {visit : Visit}
    (hduring : visit.IsDuring minted) :
    checkToken crypto options minted.token visit (keyPair minted.kid) =
      some (minted.authResult options.iss) := by
  have haccepts := htoken.accepts hoptions hduring.verified_ge hduring.verified_lt
  have hvalid := htoken.claims.hasValidClaims hduring.checked_ge hduring.checked_lt
  have hallowed : (!options.realms.isEmpty && !options.realms.contains minted.realm.id.1) = false := by
    rcases hrealms with hempty | hmem
    · simp [hempty]
    · simp [hmem]
  have hsub : minted.token.payload.stringOf "sub" = some minted.principal.id.1 := by
    rw [Claims.stringOf, htoken.claims.sub]
  have hrealm : minted.token.payload.stringOf "realm_id" = some minted.realm.id.1 := by
    rw [Claims.stringOf, htoken.claims.realmId]
  simp only [CallerTokens.checkToken, hcrypto.verifyJwtEcdsa, haccepts, hvalid, Bool.and_self,
    if_true, hsub, hrealm, hallowed, stringOf_text htoken.claims.name,
    stringOf_text htoken.claims.email, CallerToken.authResult]
  rfl

/-! ## Declining -/

/-- A token with another audience is declined. -/
theorem verify_of_aud {keyPair : String → PublicKey} {crypto : Crypto}
    (hcrypto : crypto.IsExact keyPair) {options : VerifierOptions} {token : Token} {visit : Visit}
    (haud : token.payload.get "aud" ≠ some (.string options.audience)) :
    verify crypto options token visit = none := by
  have hcheck : ∀ publicKey, checkToken crypto options token visit publicKey = none := by
    intro publicKey
    simp [checkToken, hcrypto.verifyJwtEcdsa, SignatureCheck.accepts, haud]
  simp only [verify]
  split
  · rfl
  · split
    · cases (findKey visit _).bind crypto.createPublicKey with
      | none => rfl
      | some publicKey => exact hcheck publicKey
    · rfl

/-- A token of a realm that is not among the allowed ones is declined. -/
theorem verify_of_realm {crypto : Crypto} {options : VerifierOptions} {token : Token}
    {visit : Visit} {realmId : String} (hrealm : token.payload.get "realm_id" = some (.string realmId))
    (hne : options.realms ≠ []) (hnot : realmId ∉ options.realms) :
    verify crypto options token visit = none := by
  have hcheck : ∀ publicKey, checkToken crypto options token visit publicKey = none := by
    intro publicKey
    simp only [checkToken, Claims.stringOf, hrealm]
    split
    · split
      · next hsub hfound =>
          cases hfound
          simp [hne, hnot]
      · rfl
    · rfl
  simp only [verify]
  split
  · rfl
  · split
    · cases (findKey visit _).bind crypto.createPublicKey with
      | none => rfl
      | some publicKey => exact hcheck publicKey
    · rfl

theorem append_left_ne {start first second : String} (hne : first ≠ second) :
    start ++ first ≠ start ++ second := by
  intro heq
  have hlist := congrArg String.toList heq
  simp only [String.toList_append, List.append_cancel_left_eq] at hlist
  exact hne (String.toList_injective hlist)

/-- A verifier that does not wait after a failed fetch is not held back. -/
theorem not_isHeldBack_of_attempt {visit : Visit} (kid : String)
    (hattempt : visit.second.verifier.nextAttemptAt ≤ visit.second.current) :
    visit.isHeldBack kid = false := by
  have hcached : visit.second.cached true = none := by
    simp only [Load.cached]
    split
    · rfl
    · simp [Int.not_lt.mpr hattempt]
  simp [Visit.isHeldBack, Load.lacks, hcached]

/-! ## Agreement -/

/-- Where signatures are checked exactly: a Caller Token of a broker, checked during its lifetime
by an agent of its project and broker that lets its realm in, with fetches that succeed and have
its key, is accepted with its principal and realm, unless the verifier is held back; an agent of
another project, or one that does not let its realm in, declines it, and every agent declines an
app token. -/
theorem caller_tokens_agree {keyPair : String → PublicKey} {crypto : Crypto}
    (hcrypto : crypto.IsExact keyPair) (broker : Broker) :
    (∀ minted, Minted keyPair broker minted → ∀ (options : VerifierOptions) (visit : Visit),
      (options.IsFor broker minted.projectId →
          (options.realms = [] ∨ minted.realm.id.1 ∈ options.realms) →
          visit.first.Succeeds keyPair minted.kid → visit.second.Succeeds keyPair minted.kid →
          visit.IsDuring minted →
          verify crypto options minted.token visit =
            if visit.isHeldBack minted.kid then none else some (minted.authResult broker.iss)) ∧
        (options.projectId ≠ minted.projectId →
          verify crypto options minted.token visit = none) ∧
        (options.realms ≠ [] → minted.realm.id.1 ∉ options.realms →
          verify crypto options minted.token visit = none)) ∧
      ∀ token, IsAppToken keyPair broker token → ∀ (options : VerifierOptions) (visit : Visit),
        verify crypto options token visit = none := by
  constructor
  · intro minted hminted options visit
    have htoken := hminted.isCallerToken
    refine ⟨?_, ?_, verify_of_realm htoken.claims.realmId⟩
    · intro hoptions hrealms hfirst hsecond hduring
      simp only [verify, htoken.kid, hoptions.isConfigured, if_true, findKey_eq hfirst hsecond]
      split
      · rfl
      · rw [Option.bind_some, hcrypto.createPublicKey, Option.bind_some,
          htoken.checkToken hcrypto hoptions hrealms hduring, hoptions.issuer]
    · intro hproject
      apply verify_of_aud hcrypto
      rw [htoken.claims.aud]
      intro haud
      exact append_left_ne hproject (Claim.string.inj (Option.some.inj haud)).symm
  · intro token happ options visit
    obtain ⟨key, haud⟩ := happ.aud
    apply verify_of_aud hcrypto
    rw [haud]
    intro heq
    have hlist := congrArg String.toList (Claim.string.inj (Option.some.inj heq))
    simp [VerifierOptions.audience] at hlist

/-! ## An agent and its user -/

/-- The key pair of an id, named after it. -/
def sampleKeyPair (kid : String) : PublicKey := ⟨kid, kid⟩

/-- The import of a key by its coordinates, and the exact check. -/
def sampleCrypto : Crypto where
  createPublicKey entry :=
    match entry.get "x", entry.get "y" with
    | some (.string x), some (.string y) => some ⟨x, y⟩
    | _, _ => none
  verifyJwtEcdsa := SignatureCheck.accepts

theorem sampleCrypto_isExact : sampleCrypto.IsExact sampleKeyPair :=
  ⟨fun kid => by simp [sampleCrypto, jwk], fun _ _ _ => rfl⟩

def sampleBroker : Broker where
  options := { callerTokenTtl := 60000, openCallerTokenTtl := 1200000, appTokenTtl := 300000 }
  issuer := "https://eveland.test/"
  hashIdentityToken token := token

def sampleRealm : IdentityRealm where
  id := ⟨"irlm_openshared", "openshared".toList, rfl, by decide, rfl⟩
  providerConnectionId := "idpc"
  externalRealmId := "acme"
  externalRealmKind := .organization
  enabled := true

def samplePrincipal : IdentityPrincipal where
  id := ⟨"iprn_0123456789", "0123456789".toList, rfl, by decide, rfl⟩
  identityRealmId := "irlm_openshared"
  externalSubject := "alice"
  displayName := optionalIdentityValue (some " Alice ")
  email := optionalIdentityValue (some "  ")

/-- A user with a session, and a project. -/
def sampleStore : Store where
  connections := [{ id := "idpc", type := .oidc, internalRealmKey := none, enabled := true }]
  realms := [sampleRealm]
  principals := [samplePrincipal]
  sessions := [{ id := "ises", tokenHash := "session", identityPrincipalId := "iprn_0123456789"
                 activeIdentityRealmId := "irlm_openshared", expiresAt := 1000000
                 revokedAt := none }]
  projects := [{ id := ⟨"proj_0123456789", "0123456789".toList, rfl, by decide, rfl⟩
                 isDeleting := false }]
  targets := []

def sampleDraw : Draw where
  realmId := sampleRealm.id
  principalId := samplePrincipal.id
  kid := "isky_new"
  kid_isSigningKeyId := ⟨"new", rfl⟩
  jti := "0123456789012345678901"
  jti_length := rfl
  sessionNow := 65000
  current := 65500

/-- The Caller Token of the user for the project. -/
def sampleMinted : CallerToken where
  token := signIdentityJwt sampleKeyPair "isky_new" (callerTokenPayload sampleBroker sampleDraw
    samplePrincipal sampleRealm "eveland:project:proj_0123456789" none 60000)
  principal := samplePrincipal
  realm := sampleRealm
  projectId := "proj_0123456789"
  kid := "isky_new"
  current := 65500
  ttl := 60000

theorem sampleMinted_minted : Minted sampleKeyPair sampleBroker sampleMinted := by
  have hresolved : resolveSession sampleBroker sampleStore sampleDraw "session" =
      (.ok (samplePrincipal, sampleRealm), sampleStore) := by
    rfl
  have hissued : issueCallerToken sampleKeyPair sampleBroker sampleStore sampleDraw "session"
      "proj_0123456789" none =
      (.ok ⟨sampleMinted.token, 125500, some ("iprn_0123456789", samplePrincipal.displayName)⟩,
        sampleStore) := by
    rfl
  exact .issueCallerToken hresolved hissued

/-- An agent of the project. -/
def sampleOptions : VerifierOptions where
  issuer := "https://eveland.test"
  projectId := "proj_0123456789"
  jwksUrl := none
  allowedRealms := none
  allowedRealmIds := "irlm_other, irlm_openshared"

theorem sampleOptions_isFor : sampleOptions.IsFor sampleBroker sampleMinted.projectId :=
  ⟨by decide, rfl, by decide⟩

def oldKey : SigningKeys.SigningKey :=
  { id := "isky_old", status := .retiring, notBefore := 0, expiresAt := 1000000 }

def newKey : SigningKeys.SigningKey :=
  { id := "isky_new", status := .active, notBefore := 64000, expiresAt := 9000000 }

/-- The key set was fetched before there was the new key. -/
def firstLoad : Load where
  verifier := .new
  current := 0
  response := some (getJwks sampleKeyPair [oldKey] 0)
  answered := .new

/-- A later fetch has failed. -/
def failedLoad : Load where
  verifier := (firstLoad.loadKeys false).2
  current := 61000
  response := none
  answered := (firstLoad.loadKeys false).2

theorem firstLoad_reached : Reached sampleKeyPair (firstLoad.loadKeys false).2 := by
  apply Reached.load false .new .new
  intro entries hentries
  cases hentries
  exact ⟨[oldKey], 0, rfl⟩

theorem failedLoad_reached : Reached sampleKeyPair (failedLoad.loadKeys false).2 := by
  apply Reached.load false firstLoad_reached firstLoad_reached
  intro entries hentries
  cases hentries

/-- A load whose fetch has both keys. -/
def fetchingBoth (verifier : Verifier) : Load where
  verifier
  current := 66000
  response := some (getJwks sampleKeyPair [oldKey, newKey] 66000)
  answered := verifier

/-- Two such loads, and checks right after them. -/
def sampleVisit (verifier : Verifier) : Visit where
  first := fetchingBoth verifier
  second := fetchingBoth verifier
  verifiedAt := 66000
  checkedAt := 66000

theorem fetchingBoth_succeeds {verifier : Verifier} (hreached : Reached sampleKeyPair verifier) :
    (fetchingBoth verifier).Succeeds sampleKeyPair "isky_new" :=
  ⟨hreached, [oldKey, newKey], 66000, rfl, by decide⟩

theorem sampleVisit_isDuring (verifier : Verifier) :
    (sampleVisit verifier).IsDuring sampleMinted := by
  have hge : (65500 / 1000 * 1000 : ℤ) ≤ 66000 := by decide
  have hlt : (66000 : ℤ) < SigningKeys.expiry 65500 60000 := by decide
  exact ⟨hge, hlt, hge, hlt⟩

/-- An agent that has the older key set fetches the new one, and accepts the token. -/
theorem caller_tokens_agree_newKey :
    verify sampleCrypto sampleOptions sampleMinted.token
        (sampleVisit (firstLoad.loadKeys false).2) =
      some (sampleMinted.authResult sampleBroker.iss) := by
  have hagree := (caller_tokens_agree sampleCrypto_isExact sampleBroker).1 sampleMinted
    sampleMinted_minted sampleOptions (sampleVisit (firstLoad.loadKeys false).2)
  have hsucceeds := fetchingBoth_succeeds firstLoad_reached
  have hverify := hagree.1 sampleOptions_isFor (Or.inr (by decide)) hsucceeds hsucceeds
    (sampleVisit_isDuring _)
  rw [hverify]
  rfl

/-- An agent that has the older key set, and whose last fetch has failed five seconds ago,
declines the token, though a fetch would have its key. -/
theorem held_back_token_is_declined :
    ¬ ∀ (keyPair : String → PublicKey) (crypto : Crypto), crypto.IsExact keyPair →
      ∀ (broker : Broker) (minted : CallerToken), Minted keyPair broker minted →
      ∀ (options : VerifierOptions) (visit : Visit), options.IsFor broker minted.projectId →
        (options.realms = [] ∨ minted.realm.id.1 ∈ options.realms) →
        visit.first.Succeeds keyPair minted.kid → visit.second.Succeeds keyPair minted.kid →
        visit.IsDuring minted →
        verify crypto options minted.token visit = some (minted.authResult broker.iss) := by
  intro hall
  have hsucceeds := fetchingBoth_succeeds failedLoad_reached
  have haccepted := hall sampleKeyPair sampleCrypto sampleCrypto_isExact sampleBroker sampleMinted
    sampleMinted_minted sampleOptions (sampleVisit (failedLoad.loadKeys false).2)
    sampleOptions_isFor (Or.inr (by decide)) hsucceeds hsucceeds (sampleVisit_isDuring _)
  have hdeclined : verify sampleCrypto sampleOptions sampleMinted.token
      (sampleVisit (failedLoad.loadKeys false).2) = none := by
    decide +kernel
  rw [hdeclined] at haccepted
  cases haccepted

end Eveland.CallerTokens
