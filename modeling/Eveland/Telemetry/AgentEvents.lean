/-
# Events of an agent in an export of logs

Each log record of an export is projected to an observation of an event, or to nothing. The event is
the record's body; it states its place in the order of its session by a sequence of its own, or by
the line of the session's stream and its index within the line.

What the language itself makes of a value as a number, as a text or as a time is a parameter.
-/

import Mathlib.Data.Int.Notation
import Mathlib.Tactic.Common

namespace Eveland.AgentEvents

/-! ## Values -/

/-- A number: an integer, or one that is none. -/
inductive Number
  | int (value : ℤ)
  | other (isFinite : Bool) (text : String)
  deriving DecidableEq, Repr

/-- A value of the payload, or `undefined`. -/
inductive Value
  | undefined
  | null
  | bool (value : Bool)
  | num (value : Number)
  | str (value : String)
  | arr (elements : List Value)
  | obj (fields : List (String × Value))
  deriving Repr

/-- What the language's own functions answer. -/
structure Builtins where
  /-- `Number(value)`. -/
  toNumber : Value → Number
  /-- `String(value)`. -/
  toText : Value → String
  /-- `unixNanoToIso`. -/
  unixNanoToIso : String → Option String
  /-- `z.iso.datetime()`. -/
  isDatetime : String → Bool

namespace Number

/-- `Number.isSafeInteger`. -/
def isSafeInteger : Number → Bool
  | .int value => -9007199254740991 ≤ value && value ≤ 9007199254740991
  | .other _ _ => false

/-- `Number.isFinite`. -/
def isFinite : Number → Bool
  | .int _ => true
  | .other isFinite _ => isFinite

end Number

namespace Value

/-- A property of an object. -/
def property (key : String) (fields : List (String × Value)) : Option Value :=
  (fields.find? fun field => field.1 = key).map Prod.snd

/-- `value?.key`, of a record. -/
def get (key : String) : Value → Value
  | .obj fields => (property key fields).getD .undefined
  | _ => .undefined

/-- `recordValue`. What is no record is `undefined`. -/
def recordValue : Value → Value
  | .obj fields => .obj fields
  | _ => .undefined

/-- `arrayOfRecords`. -/
def arrayOfRecords : Value → List Value
  | .arr elements => elements.filter fun element => match element with
      | .obj _ => true
      | _ => false
  | _ => []

/-- `stringValue`. -/
def stringValue : Value → Option String
  | .str value => if value = "" then none else some value
  | _ => none

/-- `nonNegativeInteger`. -/
def nonNegativeInteger : Value → Option ℕ
  | .num (.int value) =>
      if (Number.int value).isSafeInteger && 0 ≤ value then some value.toNat else none
  | _ => none

/-- `Object.fromEntries`: a later entry replaces an earlier one of its key. -/
def fromEntries (entries : List (String × Value)) : List (String × Value) :=
  entries.foldl
    (fun fields entry =>
      if fields.any fun field => field.1 = entry.1 then
        fields.map fun field => if field.1 = entry.1 then entry else field
      else fields ++ [entry])
    []

end Value

section

variable (B : Builtins)

mutual

/-- `anyValue`. -/
def anyValue : Value → Value
  | .obj fields =>
      match Value.property "stringValue" fields with
      | some value => .str (value.stringValue.getD "")
      | none =>
      match Value.property "boolValue" fields with
      | some value => .bool (match value with
          | .bool true => true
          | _ => false)
      | none =>
      match Value.property "intValue" fields with
      | some value =>
          if (B.toNumber value).isSafeInteger then .num (B.toNumber value)
          else .str (B.toText value)
      | none =>
      match Value.property "doubleValue" fields with
      | some value =>
          if (B.toNumber value).isFinite then .num (B.toNumber value) else .undefined
      | none =>
      match arrayValue fields with
      | some elements => .arr elements
      | none =>
      match keyValueList fields with
      | some entries => .obj (Value.fromEntries entries)
      | none =>
      match Value.property "bytesValue" fields with
      | some value => (value.stringValue.map Value.str).getD .undefined
      | none => .null
  | _ => .undefined

/-- The values of `arrayValue`, where that is a record. -/
def arrayValue : List (String × Value) → Option (List Value)
  | [] => none
  | (key, value) :: rest => if key = "arrayValue" then recordElements value else arrayValue rest

def recordElements : Value → Option (List Value)
  | .obj fields => some (valuesElements fields)
  | _ => none

def valuesElements : List (String × Value) → List Value
  | [] => []
  | (key, value) :: rest => if key = "values" then arrayElements value else valuesElements rest

def arrayElements : Value → List Value
  | .arr elements => mapElements elements
  | _ => []

def mapElements : List Value → List Value
  | [] => []
  | .obj fields :: rest => anyValue (.obj fields) :: mapElements rest
  | _ :: rest => mapElements rest

/-- The entries of `kvlistValue`, where that is a record. -/
def keyValueList : List (String × Value) → Option (List (String × Value))
  | [] => none
  | (key, value) :: rest => if key = "kvlistValue" then recordEntries value else keyValueList rest

def recordEntries : Value → Option (List (String × Value))
  | .obj fields => some (valuesEntries fields)
  | _ => none

def valuesEntries : List (String × Value) → List (String × Value)
  | [] => []
  | (key, value) :: rest => if key = "values" then arrayEntries value else valuesEntries rest

def arrayEntries : Value → List (String × Value)
  | .arr elements => mapEntries elements
  | _ => []

def mapEntries : List Value → List (String × Value)
  | [] => []
  | .obj fields :: rest =>
      match ((Value.property "key" fields).getD .undefined).stringValue with
      | some key => (key, entryValue fields) :: mapEntries rest
      | none => mapEntries rest
  | _ :: rest => mapEntries rest

def entryValue : List (String × Value) → Value
  | [] => .undefined
  | (key, value) :: rest => if key = "value" then anyValue value else entryValue rest

end

/-- `attributesFrom`. -/
def attributesFrom (value : Value) : Value :=
  .obj <| Value.fromEntries <| value.arrayOfRecords.filterMap fun item =>
    (item.get "key").stringValue.map fun key => (key, anyValue B (item.get "value"))

/-! ## The order of an event -/

/-- `sourceSequenceOf`. -/
def sourceSequenceOf (eventRecord data : Value) : Option ℕ :=
  match (data.get "sequence").nonNegativeInteger with
  | some v26 => some v26
  | none =>
      let position := ((eventRecord.get "meta").recordValue.get "position").recordValue
      match (position.get "line").nonNegativeInteger,
          (position.get "index").nonNegativeInteger with
      | some line, some index =>
          let sequence := line * 1000 + min index 999
          if sequence ≤ 2147483647 then some sequence else none
      | _, _ => none

/-! ## The projection -/

structure ObservedModel where
  modelId : String
  responseModelId : Option String
  deriving DecidableEq, Repr

structure Agent where
  id : Option String
  name : Option String
  nodeId : Option String
  deriving DecidableEq, Repr

/-- `AgentEventObservation`. -/
structure Observation where
  telemetryEventId : String
  eventFingerprint : String
  deploymentId : String
  runtimeInstanceId : Option String
  eveSessionId : String
  parentEveSessionId : Option String
  sourceSequence : Option ℕ
  observedModel : Option ObservedModel
  agent : Agent
  channelKind : Option String
  eventAt : String
  event : Value

/-- `observationFromLogRecord`. Of what the schema asks, the ids and the time may be missing, and
the time may be none. -/
def observationFromLogRecord (deploymentId : String) (runtimeInstanceId : Option String)
    (logRecord : Value) : Option Observation := do
  let attributes := attributesFrom B (logRecord.get "attributes")
  let event := anyValue B (logRecord.get "body")
  let eventRecord := event.recordValue
  let data := (eventRecord.get "data").recordValue
  let timestamp :=
    ((logRecord.get "timeUnixNano").stringValue.or
      (logRecord.get "observedTimeUnixNano").stringValue).bind B.unixNanoToIso
  let observedModelId := (attributes.get "eveland.gen_ai.observed.model").stringValue
  let telemetryEventId ← (attributes.get "eveland.event.id").stringValue
  let eventFingerprint ← (attributes.get "eveland.event.fingerprint").stringValue
  let eveSessionId ← (attributes.get "eveland.eve.session.id").stringValue
  let eventAt ← ((eventRecord.get "meta").recordValue.get "at").stringValue.or timestamp
  if B.isDatetime eventAt then
    some
      { telemetryEventId, eventFingerprint, deploymentId, runtimeInstanceId, eveSessionId
        parentEveSessionId := (attributes.get "eveland.eve.parent_session.id").stringValue
        sourceSequence := sourceSequenceOf eventRecord data
        observedModel := observedModelId.map fun modelId =>
          ⟨modelId, (attributes.get "eveland.gen_ai.observed.response_model").stringValue⟩
        agent :=
          { id := ((data.get "runtime").recordValue.get "agentId").stringValue.or
              (attributes.get "eveland.eve.agent.id").stringValue
            name := ((data.get "runtime").recordValue.get "agentName").stringValue.or
              (attributes.get "eveland.eve.agent.name").stringValue
            nodeId := (attributes.get "eveland.eve.agent.node.id").stringValue }
        channelKind := (attributes.get "eveland.eve.channel.kind").stringValue
        eventAt, event }
  else none

/-- `projectAgentEventItemsFromOtlpLogs`. -/
def projectAgentEventItemsFromOtlpLogs (payload : Value)
    (resolveDeploymentId : Option String → Option String) : List (Option Observation) :=
  (payload.get "resourceLogs").arrayOfRecords.flatMap fun resourceLogs =>
    let resource := (resourceLogs.get "resource").recordValue
    let resourceAttributes := attributesFrom B (resource.get "attributes")
    let isAgent := (resourceAttributes.get "eveland.telemetry.domain").stringValue = some "agent"
    let deploymentId := (resolveDeploymentId
      (resourceAttributes.get "eveland.deployment.credential").stringValue).filter (· ≠ "")
    let runtimeInstanceId := (resourceAttributes.get "eveland.runtime.instance.id").stringValue
    (resourceLogs.get "scopeLogs").arrayOfRecords.flatMap fun scopeLogs =>
      (scopeLogs.get "logRecords").arrayOfRecords.map fun logRecord =>
        if isAgent then
          deploymentId.bind fun deploymentId =>
            observationFromLogRecord B deploymentId runtimeInstanceId logRecord
        else none

end

end Eveland.AgentEvents
