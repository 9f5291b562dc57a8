/-
# The credential headers of a playground request

The API checks the credential headers of an agent and packs them into an envelope: JSON in UTF-8 in
base64url, in one header of the request to the gateway. The gateway unpacks them, checks them by the
same schema and sets them on the request to the agent. A `Headers` takes strings of octets without
NUL, CR and LF, and strips the white space around them.

The number that a JSON literal stands for is a parameter.
-/

import Eveland.Core.JsonParse
import Eveland.Core.TextEncoding
import Eveland.Foundations.Base64
import Mathlib.Data.List.DropRight

namespace Eveland.AgentEnvelopes

open Js

/-! ## The schema -/

inductive AgentAuthAuthority
  | loopback
  | canonical
  deriving DecidableEq

/-- An `AgentAuthEnvelope`. Its version is the literal 1. -/
structure AgentAuthEnvelope where
  authority : AgentAuthAuthority
  headers : List (Text × Text)
  deriving DecidableEq

/-- `` [!#$%&'*+\-.^_`|~0-9A-Za-z] ``. -/
def isTokenUnit (u : UInt16) : Bool :=
  [33, 35, 36, 37, 38, 39, 42, 43, 45, 46, 94, 95, 96, 124, 126].contains u ||
    (48 ≤ u && u ≤ 57) || (65 ≤ u && u ≤ 90) || (97 ≤ u && u ≤ 122)

/-- `toLowerCase` of a name. A name with letters outside ASCII is refused for these. -/
def toLowerCase (name : Text) : Text :=
  name.map fun u => if 65 ≤ u ∧ u ≤ 90 then u + 32 else u

def reservedCredentialHeaders : List String :=
  ["connection", "content-length", "forwarded", "host", "keep-alive", "proxy-authenticate",
    "proxy-authorization", "te", "trailer", "transfer-encoding", "upgrade"]

/-- The code units of an ASCII literal. -/
def literal (text : String) : Text := units text.toList

/-- `[\u0000-\u0008\u000A-\u001F\u007F]`. -/
def isControl (u : UInt16) : Bool := u ≤ 8 || (10 ≤ u && u ≤ 31) || u = 127

/-- The checks of `credentialHeaderSchema` on a name. -/
def nameAllowed (name : Text) : Bool :=
  1 ≤ name.length && name.length ≤ 256 && name.all isTokenUnit &&
    !((reservedCredentialHeaders.map literal).contains (toLowerCase name)) &&
    !((literal "proxy-").isPrefixOf (toLowerCase name)) &&
    !((literal "x-forwarded-").isPrefixOf (toLowerCase name)) &&
    !((literal "x-eveland-").isPrefixOf (toLowerCase name))

/-- The checks of `credentialHeaderSchema` on a value. -/
def valueAllowed (value : Text) : Bool := value.length ≤ 16384 && !(value.any isControl)

def credentialHeaderSchema : Value → Option (Text × Text)
  | .arr [.str name, .str value] =>
      if nameAllowed name && valueAllowed value then some (name, value) else none
  | _ => none

/-- At most 32 headers, and no two names that differ in case only. -/
def headersAllowed (headers : List (Text × Text)) : Bool :=
  headers.length ≤ 32 && decide (headers.map fun header => toLowerCase header.1).Nodup

def credentialHeadersSchema : Value → Option (List (Text × Text))
  | .arr elements => do
      let headers ← elements.mapM credentialHeaderSchema
      if headersAllowed headers then some headers else none
  | _ => none

def authoritySchema : Value → Option AgentAuthAuthority
  | .str text =>
      if text = literal "loopback" then some .loopback
      else if text = literal "canonical" then some .canonical
      else none
  | _ => none

/-- The number 1. -/
def one : NumberText := ⟨[49], by decide, List.all_eq_true.mp rfl⟩

/-- `z.literal(1)`. -/
def versionSchema : Value → Option Unit
  | .num number => if number.text = one.text then some () else none
  | _ => none

/-- A field of an object. -/
def field (name : String) (fields : List (Text × Value)) : Option Value :=
  (fields.find? fun entry => entry.1 = literal name).map Prod.snd

/-- The schema of an envelope: these three fields and no other. -/
def envelopeSchema : Value → Option AgentAuthEnvelope
  | .obj fields => do
      let _ ← (field "version" fields).bind versionSchema
      let authority ← (field "authority" fields).bind authoritySchema
      let headers ← (field "headers" fields).bind credentialHeadersSchema
      if fields.all fun entry =>
          (["version", "authority", "headers"].map literal).contains entry.1 then
        some { authority, headers }
      else none
  | _ => none

/-! ## Base64url -/

/-- The letter of a sextet. -/
def letter (n : ℕ) : UInt16 :=
  if n < 26 then UInt16.ofNat (65 + n)
  else if n < 52 then UInt16.ofNat (71 + n)
  else if n < 62 then UInt16.ofNat (n - 4)
  else if n = 62 then 43
  else 47

/-- The sextet of a letter. -/
def sextetOf (u : UInt16) : Option ℕ :=
  if 65 ≤ u ∧ u ≤ 90 then some (u.toNat - 65)
  else if 97 ≤ u ∧ u ≤ 122 then some (u.toNat - 71)
  else if 48 ≤ u ∧ u ≤ 57 then some (u.toNat + 4)
  else if u = 43 then some 62
  else if u = 47 then some 63
  else none

/-- `btoa` of the binary string of octets. -/
def btoa (bytes : List UInt8) : Text :=
  (Base64.sextets bytes).map letter ++ List.replicate ((3 - bytes.length % 3) % 3) 61

/-- The text before one or two signs of padding. -/
def dropPadding (text : Text) : Text :=
  if text.getLast? = some 61 then
    if text.dropLast.getLast? = some 61 then text.dropLast.dropLast else text.dropLast
  else text

/-- `atob` of a text without white space, to the octets of its binary string. -/
def atob (text : Text) : Option (List UInt8) :=
  let data := if text.length % 4 = 0 then dropPadding text else text
  if data.length % 4 = 1 then none else (data.mapM sextetOf).map Base64.octets

/-- `replaceAll` of one code unit by another. -/
def replaceAll (text : Text) (search replacement : UInt16) : Text :=
  text.map fun u => if u = search then replacement else u

/-- The octets go through `String.fromCharCode` in pieces, which are joined again. -/
def encodeBase64Url (bytes : List UInt8) : Text :=
  (replaceAll (replaceAll (btoa bytes) 43 45) 47 95).rdropWhile fun u => u = 61

/-- `[A-Za-z0-9_-]`. -/
def isUrlUnit (u : UInt16) : Bool :=
  (65 ≤ u && u ≤ 90) || (97 ≤ u && u ≤ 122) || (48 ≤ u && u ≤ 57) || u = 95 || u = 45

def decodeBase64Url (value : Text) : Option (List UInt8) :=
  if !value.all isUrlUnit || value.length % 4 = 1 then none
  else
    atob (replaceAll (replaceAll value 45 43) 95 47 ++
      List.replicate ((4 - value.length % 4) % 4) 61)

/-! ## Envelopes -/

def authorityText : AgentAuthAuthority → Text
  | .loopback => literal "loopback"
  | .canonical => literal "canonical"

/-- A credential header as a value. -/
def headerValue (header : Text × Text) : Value := .arr [.str header.1, .str header.2]

/-- An envelope as a value. -/
def toValue (envelope : AgentAuthEnvelope) : Value :=
  .obj [(literal "version", .num one), (literal "authority", .str (authorityText envelope.authority)),
    (literal "headers", .arr (envelope.headers.map headerValue))]

/-- `encodeAgentAuthEnvelope`: nothing where it throws. -/
def encodeAgentAuthEnvelope (envelope : AgentAuthEnvelope) : Option Text :=
  (envelopeSchema (toValue envelope)).map fun parsed =>
    encodeBase64Url (encodeUtf8 (stringify (toValue parsed)))

/-- `decodeAgentAuthEnvelope`: nothing where it throws. -/
def decodeAgentAuthEnvelope (numberOf : Text → Option NumberText) (value : Text) :
    Option AgentAuthEnvelope := do
  let bytes ← decodeBase64Url value
  let json ← decodeUtf8 bytes
  let parsed ← parse numberOf json
  envelopeSchema parsed

/-- `readAgentAuthEnvelope`. -/
def readAgentAuthEnvelope (numberOf : Text → Option NumberText) (value : Option Text) :
    Option AgentAuthEnvelope :=
  match value with
  | some (u :: rest) => decodeAgentAuthEnvelope numberOf (u :: rest)
  | _ => some { authority := .loopback, headers := [] }

/-! ## Headers -/

/-- HTTP white space. -/
def isHttpSpace (u : UInt16) : Bool := u = 9 || u = 10 || u = 13 || u = 32

/-- A value without the white space around it. -/
def normalizeValue (value : Text) : Text := (value.dropWhile isHttpSpace).rdropWhile isHttpSpace

/-- What stripping leaves is left by stripping it again. -/
theorem normalizeValue_normalizeValue (value : Text) :
    normalizeValue (normalizeValue value) = normalizeValue value := by
  have hleft : (normalizeValue value).dropWhile isHttpSpace = normalizeValue value := by
    rw [normalizeValue]
    cases hvalue : value.dropWhile isHttpSpace with
    | nil => rfl
    | cons u rest =>
        have hu : isHttpSpace u = false := by
          have hhead := List.head?_dropWhile_not isHttpSpace value
          rw [hvalue] at hhead
          simpa using hhead
        have hstart := List.rdropWhile_prefix isHttpSpace (l := u :: rest)
        cases hstripped : (u :: rest).rdropWhile isHttpSpace with
        | nil => rfl
        | cons v more =>
            rw [hstripped, List.cons_prefix_cons] at hstart
            rw [List.dropWhile_cons_of_neg (by rw [hstart.1, hu]; decide)]
  rw [normalizeValue, hleft, normalizeValue, List.rdropWhile_idempotent]

/-- A string of octets without NUL, CR and LF. -/
def isFieldValue (value : Text) : Bool :=
  value.all fun u => u ≤ 255 && !(u = 0) && !(u = 10) && !(u = 13)

/-- A value that a `Headers` holds. -/
structure HeaderValue where
  text : Text
  normal : normalizeValue text = text
  octets : isFieldValue text = true

/-- A value as a `Headers` takes it, unless it refuses it. -/
def headerValueOf (value : Text) : Option HeaderValue :=
  if h : isFieldValue (normalizeValue value) = true then
    some ⟨normalizeValue value, normalizeValue_normalizeValue value, h⟩
  else none

/-- A `Headers`: values under names in lower case. -/
abbrev Headers := List (Text × HeaderValue)

namespace Headers

/-- `headers.get(name)`. -/
def get (headers : Headers) (name : Text) : Option HeaderValue :=
  (headers.find? fun entry => entry.1 = toLowerCase name).map Prod.snd

/-- `headers.set(name, value)`: nothing where it throws. -/
def set (headers : Headers) (name value : Text) : Option Headers :=
  if name ≠ [] ∧ name.all isTokenUnit then
    (headerValueOf value).map fun value =>
      headers.filter (fun entry => entry.1 ≠ toLowerCase name) ++ [(toLowerCase name, value)]
  else none

/-- A header of a request that is sent on, unless the request has none. -/
def setPresent (headers : Headers) (name : Text) (value : Option HeaderValue) : Option Headers :=
  match value with
  | some value => if value.text = [] then some headers else headers.set name value.text
  | none => some headers

end Headers

/-- `buildInternalPlaygroundHeaders`: nothing where it throws. -/
def buildInternalPlaygroundHeaders (input : Headers) (authority : Text)
    (credentials : List (Text × Text)) : Option Headers := do
  let headers ← Headers.set [] (literal "host") authority
  let headers ← headers.setPresent (literal "accept") (input.get (literal "accept"))
  let headers ← headers.setPresent (literal "content-type") (input.get (literal "content-type"))
  credentials.foldlM (fun headers header => headers.set header.1 header.2) headers

end Eveland.AgentEnvelopes
