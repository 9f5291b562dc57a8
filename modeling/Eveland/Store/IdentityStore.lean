/-
# The credentials of the identity store

A login through an OIDC provider stores its tokens under the principal and the provider
connection. A refresh replaces the tokens it was derived from: it carries the rotation sequence
it has read, and is a compare-and-swap on it. The module holds the three operations and the
removals that cascade to the credentials.
-/

import Mathlib.Data.Int.Notation
import Mathlib.Data.Nat.Notation
import Eveland.Foundations.Outcome
import Eveland.Foundations.Table

namespace Eveland.IdentityStore

/-- A row of `identity_oidc_credentials`. -/
structure OidcCredential where
  identityPrincipalId : String
  providerConnectionId : String
  accessTokenEncrypted : String
  refreshTokenEncrypted : Option String
  scope : String
  accessTokenExpiresAt : Option ℤ
  rotationSeq : ℕ
  updatedAt : ℤ
  deriving DecidableEq

/-- The primary key of a credential: a user and a connection. -/
abbrev CredentialKey : Type := String × String

def OidcCredential.key (row : OidcCredential) : CredentialKey :=
  (row.identityPrincipalId, row.providerConnectionId)

/-- The tokens a provider has answered. -/
structure OidcTokens where
  accessTokenEncrypted : String
  refreshTokenEncrypted : Option String
  scope : String
  accessTokenExpiresAt : Option ℤ
  deriving DecidableEq

/-- The ids of `identity_principals` and of `identity_provider_connections`, and the rows of
`identity_oidc_credentials`. -/
structure Store where
  principals : List String
  connections : List String
  credentials : List OidcCredential

variable (s : Store)

/-- `getIdentityOidcCredential`. -/
def getIdentityOidcCredential (key : CredentialKey) : Option OidcCredential :=
  s.credentials.find? fun row => row.key = key

/-- The row with the tokens, and another rotation sequence. -/
def OidcCredential.hold (tokens : OidcTokens) (rotationSeq : ℕ) (now : ℤ) (row : OidcCredential) :
    OidcCredential :=
  { row with
    accessTokenEncrypted := tokens.accessTokenEncrypted
    refreshTokenEncrypted := tokens.refreshTokenEncrypted
    scope := tokens.scope
    accessTokenExpiresAt := tokens.accessTokenExpiresAt
    rotationSeq
    updatedAt := now }

/-- The row that a first login inserts. -/
def newCredential (key : CredentialKey) (tokens : OidcTokens) (now : ℤ) : OidcCredential where
  identityPrincipalId := key.1
  providerConnectionId := key.2
  accessTokenEncrypted := tokens.accessTokenEncrypted
  refreshTokenEncrypted := tokens.refreshTokenEncrypted
  scope := tokens.scope
  accessTokenExpiresAt := tokens.accessTokenExpiresAt
  rotationSeq := 0
  updatedAt := now

/-- `putIdentityOidcCredential`. -/
def putIdentityOidcCredential (key : CredentialKey) (tokens : OidcTokens) (now : ℤ) :
    Except String Store := do
  Outcome.ensure (s.principals.contains key.1) "identity_oidc_credentials_identity_principal_id_fk"
  Outcome.ensure (s.connections.contains key.2)
    "identity_oidc_credentials_provider_connection_id_fk"
  pure { s with
    credentials := Table.upsertWhere (fun row => row.key = key) (OidcCredential.hold tokens 0 now)
      (newCredential key tokens now) s.credentials }

/-- `rotateIdentityOidcCredential`, with the row it returns. -/
def rotateIdentityOidcCredential (key : CredentialKey) (expectedRotationSeq : ℕ)
    (tokens : OidcTokens) (now : ℤ) : Store × Option OidcCredential :=
  let matched (row : OidcCredential) : Bool := row.key = key && row.rotationSeq = expectedRotationSeq
  ({ s with
      credentials := Table.updateWhere matched
        (OidcCredential.hold tokens (expectedRotationSeq + 1) now) s.credentials },
    (s.credentials.find? matched).map (OidcCredential.hold tokens (expectedRotationSeq + 1) now))

/-- A principal is deleted, and its credentials with it. -/
def deletePrincipal (id : String) : Store :=
  { s with
    principals := s.principals.filter (· ≠ id)
    credentials := s.credentials.filter fun row => row.identityPrincipalId ≠ id }

/-- A connection is deleted, and its credentials with it. -/
def deleteConnection (id : String) : Store :=
  { s with
    connections := s.connections.filter (· ≠ id)
    credentials := s.credentials.filter fun row => row.providerConnectionId ≠ id }

variable {s} {t : Store} {key other : CredentialKey} {tokens : OidcTokens} {now : ℤ}

@[simp]
theorem OidcCredential.hold_key (rotationSeq : ℕ) (row : OidcCredential) :
    (row.hold tokens rotationSeq now).key = row.key := rfl

theorem key_of_getIdentityOidcCredential {row : OidcCredential}
    (hrow : getIdentityOidcCredential s key = some row) : row.key = key := by
  simpa using List.find?_some hrow

/-! ## What the operations do to a credential -/

/-- A login stores the tokens under its key, with a new count, and leaves the other credentials
alone. -/
theorem putIdentityOidcCredential_get (hput : putIdentityOidcCredential s key tokens now = .ok t) :
    (getIdentityOidcCredential t key).map (fun row => row.rotationSeq) = some 0 ∧
      ∀ other, other ≠ key →
        getIdentityOidcCredential t other = getIdentityOidcCredential s other := by
  obtain ⟨_, _, hput⟩ := Outcome.bind_eq_ok.mp hput
  obtain ⟨_, _, hput⟩ := Outcome.bind_eq_ok.mp hput
  cases hput
  simp only [getIdentityOidcCredential, Table.upsertWhere]
  split
  next hany =>
    have hfound : ∀ other : CredentialKey,
        (Table.updateWhere (fun row => decide (row.key = key)) (OidcCredential.hold tokens 0 now)
          s.credentials).find? (fun row => decide (row.key = other)) =
        (s.credentials.find? fun row => decide (row.key = other)).map fun row =>
          if decide (row.key = key) then row.hold tokens 0 now else row :=
      fun other => Table.find?_updateWhere_of (fun _ => by rfl) _
    constructor
    · obtain ⟨row, hrow, hkey⟩ := List.any_eq_true.mp hany
      rw [hfound]
      cases hget : s.credentials.find? fun row => decide (row.key = key) with
      | none => exact absurd hkey (List.find?_eq_none.mp hget row hrow)
      | some found =>
          have hsame : found.key = key := by simpa using List.find?_some hget
          simp [hsame, OidcCredential.hold]
    · intro other hother
      rw [hfound]
      cases hget : s.credentials.find? fun row => decide (row.key = other) with
      | none => rfl
      | some found =>
          have hsame : found.key = other := by simpa using List.find?_some hget
          simp [hsame, hother]
  next hany =>
    have hnone : (s.credentials.find? fun row => decide (row.key = key)) = none := by
      rw [List.find?_eq_none]
      intro row hrow hkey
      exact hany (List.any_eq_true.mpr ⟨row, hrow, hkey⟩)
    constructor
    · rw [List.find?_append, hnone]
      simp [newCredential, OidcCredential.key]
    · intro other hother
      have hnew : (newCredential key tokens now).key ≠ other := fun heq => hother heq.symm
      rw [List.find?_append, List.find?_singleton, if_neg (by simpa using hnew), Option.or_none]

/-- A rotation replaces the credential if its count is the expected one. -/
theorem rotateIdentityOidcCredential_get (expectedRotationSeq : ℕ) :
    getIdentityOidcCredential
        (rotateIdentityOidcCredential s key expectedRotationSeq tokens now).1 other =
      (getIdentityOidcCredential s other).map fun row =>
        if row.key = key ∧ row.rotationSeq = expectedRotationSeq then
          row.hold tokens (expectedRotationSeq + 1) now
        else row := by
  simp only [getIdentityOidcCredential, rotateIdentityOidcCredential]
  rw [Table.find?_updateWhere_of fun _ => by rfl]
  congr 1
  funext row
  simp

theorem deletePrincipal_get (id : String) :
    getIdentityOidcCredential (deletePrincipal s id) key =
      if key.1 = id then none else getIdentityOidcCredential s key := by
  simp only [getIdentityOidcCredential, deletePrincipal]
  rw [List.find?_filter]
  split
  · next hid =>
      rw [List.find?_eq_none]
      rintro row _ hmatch
      simp only [decide_eq_true_eq, decide_not, Bool.not_eq_eq_eq_not, Bool.not_true,
        decide_eq_false_iff_not] at hmatch
      exact hmatch.1 (by rw [← hid, ← hmatch.2]; rfl)
  · next hid =>
      congr 1
      funext row
      by_cases hkey : row.key = key
      · have hother : row.identityPrincipalId ≠ id := by rw [← hkey] at hid; exact hid
        simp [hkey, hother]
      · simp [hkey]

theorem deleteConnection_get (id : String) :
    getIdentityOidcCredential (deleteConnection s id) key =
      if key.2 = id then none else getIdentityOidcCredential s key := by
  simp only [getIdentityOidcCredential, deleteConnection]
  rw [List.find?_filter]
  split
  · next hid =>
      rw [List.find?_eq_none]
      rintro row _ hmatch
      simp only [decide_eq_true_eq, decide_not, Bool.not_eq_eq_eq_not, Bool.not_true,
        decide_eq_false_iff_not] at hmatch
      exact hmatch.1 (by rw [← hid, ← hmatch.2]; rfl)
  · next hid =>
      congr 1
      funext row
      by_cases hkey : row.key = key
      · have hother : row.providerConnectionId ≠ id := by rw [← hkey] at hid; exact hid
        simp [hkey, hother]
      · simp [hkey]

end Eveland.IdentityStore
