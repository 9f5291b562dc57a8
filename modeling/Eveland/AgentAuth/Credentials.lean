/-
# The credential of one slot

A caller's credential for an agent connection is one row, under the connection, its security
revision and the caller. The module holds the row and the statements of the store on it: a new
credential is put, a credential is replaced, and a refresh of it is claimed, completed or
released. Each of the last four names the rotation sequence it expects.
-/

import Mathlib.Data.Int.Notation
import Mathlib.Data.Nat.Notation
import Mathlib.Algebra.Ring.Int.Defs
import Mathlib.Tactic.Common

namespace Eveland.AgentAuth

/-- `ActiveCredential`. -/
structure ActiveCredential where
  accessToken : String
  refreshToken : Option String
  agentIssuer : String
  agentSubject : String
  idTokenIssuer : String
  idTokenSubject : String
  obtainedAt : ℤ
  deriving DecidableEq

/-- `PendingCredential`. -/
structure PendingCredential where
  candidateAccessToken : String
  refreshToken : Option String
  idTokenIssuer : String
  idTokenSubject : String
  obtainedAt : ℤ
  deriving DecidableEq

/-- `CredentialPayload`. -/
inductive CredentialPayload
  | active (credential : ActiveCredential)
  | pendingVerification (credential : PendingCredential)
  deriving DecidableEq

def CredentialPayload.refreshToken : CredentialPayload → Option String
  | .active credential => credential.refreshToken
  | .pendingVerification credential => credential.refreshToken

def CredentialPayload.idTokenSubject : CredentialPayload → String
  | .active credential => credential.idTokenSubject
  | .pendingVerification credential => credential.idTokenSubject

/-- A row of `agent_auth_credentials`. The payload is what opening the sealed one gives, and none
where opening it throws. -/
structure AgentAuthCredential where
  payload : Option CredentialPayload
  expiresAt : Option ℤ
  rotationSeq : ℕ
  refreshOwner : Option String
  refreshLeaseId : Option String
  refreshLeaseUntil : Option ℤ
  deriving DecidableEq

/-- `isExpiringSoon`. -/
def isExpiringSoon (credential : AgentAuthCredential) (now : ℤ) : Bool :=
  credential.expiresAt.any fun expiresAt => expiresAt ≤ now + 30000

namespace AgentAuthCredential

/-- The credential with another payload: its count is raised, and no refresh is claimed. -/
def rotate (payload : CredentialPayload) (expiresAt : Option ℤ) (row : AgentAuthCredential) :
    AgentAuthCredential where
  payload := some payload
  expiresAt
  rotationSeq := row.rotationSeq + 1
  refreshOwner := none
  refreshLeaseId := none
  refreshLeaseUntil := none

/-- The refresh of the credential is claimed. -/
def lease (owner leaseId : String) (leaseUntil : ℤ) (row : AgentAuthCredential) :
    AgentAuthCredential :=
  { row with
    refreshOwner := some owner
    refreshLeaseId := some leaseId
    refreshLeaseUntil := some leaseUntil }

/-- The claim of the refresh is given up. -/
def unlease (row : AgentAuthCredential) : AgentAuthCredential :=
  { row with refreshOwner := none, refreshLeaseId := none, refreshLeaseUntil := none }

/-- No refresh of the credential is claimed, or the claim is over. -/
def isFree (now : ℤ) (row : AgentAuthCredential) : Bool :=
  row.refreshLeaseUntil.all fun leaseUntil => leaseUntil ≤ now

/-- The refresh of this version of the credential is claimed by this lease, and the claim is not
over. -/
def isLeased (expectedRotationSeq : ℕ) (owner leaseId : String) (now : ℤ)
    (row : AgentAuthCredential) : Bool :=
  row.rotationSeq = expectedRotationSeq && row.refreshOwner = some owner &&
    row.refreshLeaseId = some leaseId &&
    row.refreshLeaseUntil.any fun leaseUntil => now < leaseUntil

end AgentAuthCredential

/-! ## The statements -/

variable (slot : Option AgentAuthCredential)

/-- `UPDATE ... WHERE ... RETURNING` on the row of the slot. -/
def updateSlot (p : AgentAuthCredential → Bool) (f : AgentAuthCredential → AgentAuthCredential) :
    Option AgentAuthCredential × Option AgentAuthCredential :=
  (slot.map fun row => if p row then f row else row, (slot.filter p).map f)

/-- `putAgentAuthCredential`. -/
def putAgentAuthCredential (payload : CredentialPayload) (expiresAt : Option ℤ) :
    AgentAuthCredential :=
  match slot with
  | some row => row.rotate payload expiresAt
  | none =>
      { payload := some payload
        expiresAt
        rotationSeq := 0
        refreshOwner := none
        refreshLeaseId := none
        refreshLeaseUntil := none }

/-- `deleteAgentAuthCredential`. -/
def deleteAgentAuthCredential (expectedRotationSeq : ℕ) : Option AgentAuthCredential × Bool :=
  (slot.filter fun row => row.rotationSeq ≠ expectedRotationSeq,
    slot.any fun row => row.rotationSeq = expectedRotationSeq)

/-- `replaceAgentAuthCredential`. -/
def replaceAgentAuthCredential (expectedRotationSeq : ℕ) (payload : CredentialPayload)
    (expiresAt : Option ℤ) : Option AgentAuthCredential × Option AgentAuthCredential :=
  updateSlot slot (fun row => row.rotationSeq = expectedRotationSeq)
    (AgentAuthCredential.rotate payload expiresAt)

/-- `claimAgentAuthCredentialRefresh`. -/
def claimAgentAuthCredentialRefresh (expectedRotationSeq : ℕ) (owner leaseId : String)
    (now leaseUntil : ℤ) : Option AgentAuthCredential × Option AgentAuthCredential :=
  updateSlot slot (fun row => row.rotationSeq = expectedRotationSeq && row.isFree now)
    (AgentAuthCredential.lease owner leaseId leaseUntil)

/-- `completeAgentAuthCredentialRefresh`. -/
def completeAgentAuthCredentialRefresh (expectedRotationSeq : ℕ) (owner leaseId : String)
    (now : ℤ) (payload : CredentialPayload) (expiresAt : Option ℤ) :
    Option AgentAuthCredential × Option AgentAuthCredential :=
  updateSlot slot (AgentAuthCredential.isLeased expectedRotationSeq owner leaseId now)
    (AgentAuthCredential.rotate payload expiresAt)

/-- `releaseAgentAuthCredentialRefresh`. -/
def releaseAgentAuthCredentialRefresh (expectedRotationSeq : ℕ) (owner leaseId : String)
    (now : ℤ) : Option AgentAuthCredential × Option AgentAuthCredential :=
  updateSlot slot (AgentAuthCredential.isLeased expectedRotationSeq owner leaseId now)
    AgentAuthCredential.unlease

end Eveland.AgentAuth
