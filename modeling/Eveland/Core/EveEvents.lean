/-
# Eve events

What the platform reads off an event an Agent reports: the status it moves its session to, the
outcome it gives a scheduled execution, the failure text it carries and the model usage it
reports.

Two session protocols are in use, and every reading covers both vocabularies.
-/

import Mathlib.Data.Rat.Defs
import Eveland.Core.JsString
import Eveland.Core.Json

namespace Eveland

/-! ## Reading values -/

namespace Json

/-- `recordValue` and `isEveRecord`: an object that is not an array. -/
def record : Json → Option Json
  | .obj fields => some (.obj fields)
  | _ => none

/-- `stringValue`. -/
def string : Option Json → Option String
  | some (.str value) => some value
  | _ => none

/-- A field of a record that holds a string. -/
def stringField (key : String) (value : Option Json) : Option String :=
  string (value.bind fun v => v.field key)

/-- A field of a record that holds a string other than the empty one. -/
def filledField (key : String) (value : Option Json) : Option String :=
  (stringField key value).filter fun text => text ≠ ""

/-- The value of a text of decimal digits. -/
def digits (cs : List Char) : Option ℕ :=
  if !cs.isEmpty && cs.all Char.isDigit then
    some (cs.foldl (fun value c => 10 * value + (c.toNat - 48)) 0)
  else none

/-- `Number.MAX_SAFE_INTEGER`. -/
def maxSafeInteger : ℕ := 9007199254740991

/-- `readNonNegativeInteger`: a safe integer prints as its digits. -/
def readNonNegativeInteger : Option Json → Option ℕ
  | some (.num text) => (digits text.toList).filter fun value => value ≤ maxSafeInteger
  | _ => none

/-- The exponent of a number, as the text after its `e` gives it. -/
def exponent : List Char → Option ℤ
  | [] => some 0
  | '-' :: cs => (digits cs).map fun n => -(n : ℤ)
  | '+' :: cs => (digits cs).map fun n => (n : ℤ)
  | cs => (digits cs).map fun n => (n : ℤ)

/-- The decimal a number without a sign prints as. -/
def decimal (cs : List Char) : Option ℚ :=
  let mantissa := cs.takeWhile fun c => c ≠ 'e'
  let whole := mantissa.takeWhile fun c => c ≠ '.'
  let fraction := (mantissa.dropWhile fun c => c ≠ '.').drop 1
  match digits (whole ++ fraction), exponent ((cs.dropWhile fun c => c ≠ 'e').drop 1) with
  | some value, some power =>
      some ((value : ℚ) * (10 : ℚ) ^ (power - (fraction.length : ℤ)))
  | _, _ => none

/-- `readNonNegativeNumber`: the decimal the number prints as. -/
def readNonNegativeNumber : Option Json → Option ℚ
  | some (.num text) => decimal text.toList
  | _ => none

end Json

/-! ## Sessions -/

/-- `SessionStatus`. -/
inductive SessionStatus
  | running
  | waiting
  | completed
  | failed
  | waitingApproval
  deriving DecidableEq, Repr

/-- The status of a scheduled execution. -/
inductive ExecutionStatus
  | running
  | succeeded
  | failed
  | parked
  deriving DecidableEq, Repr

/-- `EVE_SESSION_BOUNDARY_EVENT_TYPES`. -/
def eveSessionBoundaryEventTypes : List String :=
  ["turn.completed", "turn.failed", "turn.cancelled", "turn.waiting", "session.waiting",
    "session.completed", "session.failed", "turn.settled", "turn.paused", "session.ended"]

/-- `eventOutcome`. -/
def eventOutcome (data : Json) : Option String := Json.stringField "outcome" data.record

/-- `sessionStatusFromEveEvent`: the status an event moves its session to, or none. -/
def sessionStatusFromEveEvent (type : String) (currentStatus : SessionStatus) (data : Json) :
    Option SessionStatus :=
  if type = "session.started" ∨ type = "turn.started" then some .running
  else if type = "input.requested" ∨ type = "authorization.required" ∨
      type = "interaction.opened" ∨ type = "turn.paused" then some .waitingApproval
  else if type = "input.resolved" ∨ type = "authorization.completed" ∨
      type = "interaction.settled" then
    if currentStatus = .waitingApproval then some .running else none
  else if type = "turn.waiting" then
    if Json.stringField "on" data.record = some "input" then some .waitingApproval else none
  else if type = "session.waiting" then
    if currentStatus = .waitingApproval then some .waitingApproval else some .waiting
  else if type = "turn.settled" then some .waiting
  else if type = "session.completed" then some .completed
  else if type = "session.failed" then some .failed
  else if type = "session.ended" then
    if eventOutcome data = some "completed" then some .completed
    else if eventOutcome data = some "failed" then some .failed
    else none
  else none

/-- `scheduleExecutionStatusFromEveEvent`: an event that ends nothing leaves the execution
running. -/
def scheduleExecutionStatusFromEveEvent (type : String) (sessionStatus : SessionStatus)
    (data : Json) : ExecutionStatus :=
  if type = "turn.settled" ∨ type = "session.ended" then
    if eventOutcome data = some "completed" then .succeeded
    else if eventOutcome data = some "failed" ∨ eventOutcome data = some "cancelled" then .failed
    else .running
  else if type = "turn.paused" then .parked
  else if type = "turn.failed" ∨ type = "turn.cancelled" ∨ type = "session.failed" then .failed
  else if (type = "session.waiting" ∨ type = "turn.waiting") ∧
      sessionStatus = .waitingApproval then .parked
  else if type = "turn.waiting" then .running
  else if type = "turn.completed" ∨ type = "session.waiting" ∨ type = "session.completed" then
    .succeeded
  else .running

/-- Only a boundary event ends an execution. -/
theorem mem_boundary_of_ends {type : String} {sessionStatus : SessionStatus} {data : Json}
    (hends : scheduleExecutionStatusFromEveEvent type sessionStatus data ≠ .running) :
    type ∈ eveSessionBoundaryEventTypes := by
  by_contra hnot
  simp only [eveSessionBoundaryEventTypes, List.mem_cons, List.not_mem_nil, or_false,
    not_or] at hnot
  simp [scheduleExecutionStatusFromEveEvent, hnot] at hends

/-! ## Errors -/

/-- `sanitizeStoredErrorText`: the text with every NUL replaced. -/
def sanitizeStoredErrorText (value : String) : String :=
  String.ofList (value.toList.map fun c => if c = Char.ofNat 0 then Char.ofNat 0xFFFD else c)

/-- `eventErrorMessage`. -/
def eventErrorMessage (payload : Json) : Option String :=
  match payload.record with
  | none => none
  | some record =>
      (Json.stringField "message" (some record)).or
        (Json.stringField "message" ((record.field "error").bind Json.record))

/-- `sessionErrorFromEveEvent`. -/
def sessionErrorFromEveEvent (type : String) (payload : Json) : String :=
  (eventErrorMessage payload).getD s!"The agent reported {type} without a message."

/-- `scheduleExecutionErrorFromEveEvent`. -/
def scheduleExecutionErrorFromEveEvent (type : String) (payload : Json) : String :=
  let label :=
    match (eventOutcome payload).filter fun outcome => outcome ≠ "" with
    | some outcome =>
        if type = "turn.settled" ∨ type = "session.ended" then s!"{type} ({outcome})" else type
    | none => type
  match (eventErrorMessage payload).filter fun message => message ≠ "" with
  | some message => s!"Scheduled Session {label}: {message}"
  | none => s!"Scheduled Session ended with {label}."

/-! ## Usage -/

/-- `ModelStepUsage`. A v26 step has an index and a v27 run or change has a key. -/
structure ModelStepUsage where
  turnId : String
  stepIndex : Option ℕ
  runKey : Option String
  finishReason : Option String
  inputTokens : Option ℕ
  outputTokens : Option ℕ
  cacheReadTokens : Option ℕ
  cacheWriteTokens : Option ℕ
  costUsd : Option ℚ
  usageReported : Bool
  deriving DecidableEq, Repr

/-- `usageFields`, for the usage of the given turn, step and run. -/
def usageFields (usage : Option Json) (turnId : String) (stepIndex : Option ℕ)
    (runKey finishReason : Option String) : ModelStepUsage :=
  let tokens (key : String) : Option ℕ :=
    Json.readNonNegativeInteger (usage.bind fun u => u.field key)
  let costUsd := Json.readNonNegativeNumber (usage.bind fun u => u.field "costUsd")
  { turnId, stepIndex, runKey, finishReason
    inputTokens := tokens "inputTokens"
    outputTokens := tokens "outputTokens"
    cacheReadTokens := tokens "cacheReadTokens"
    cacheWriteTokens := tokens "cacheWriteTokens"
    costUsd
    usageReported := (tokens "inputTokens").isSome || (tokens "outputTokens").isSome ||
      (tokens "cacheReadTokens").isSome || (tokens "cacheWriteTokens").isSome || costUsd.isSome }

/-- `parseUsageRecorded`: the record of a run or a context change. One that a call owns, or
nobody, is left to the child session that reported it first. -/
def parseUsageRecorded (payload : Json) (scope : Option Json) : Option ModelStepUsage :=
  let field (key : String) : Option Json := payload.record.bind fun record => record.field key
  let owner := (field "owner").bind Json.record
  let scopeRecord := scope.bind Json.record
  let ownerKey := ((Json.filledField "runId" owner).map fun runId => s!"run:{runId}").or
    ((Json.filledField "changeId" owner).map fun changeId => s!"change:{changeId}")
  ownerKey.map fun runKey =>
    usageFields ((field "usage").bind Json.record)
      (((Json.filledField "turnId" scopeRecord).or (Json.filledField "changeId" scopeRecord)).getD
        runKey)
      none (some runKey) none

/-- `parseStepUsageEvent`. -/
def parseStepUsageEvent (type : String) (payload : Json) (scope : Option Json) :
    Option ModelStepUsage :=
  let field (key : String) : Option Json := payload.record.bind fun record => record.field key
  if type = "usage.recorded" then parseUsageRecorded payload scope
  else if type ≠ "step.completed" then none
  else
    (Json.filledField "turnId" payload.record).bind fun turnId =>
      (Json.readNonNegativeInteger (field "stepIndex")).map fun stepIndex =>
        usageFields ((field "usage").bind Json.record) turnId (some stepIndex) none
          (Json.stringField "finishReason" payload.record)

/-- `parseUnreportedModelRun`: a completed run is owed a record, and counts as missing until it
comes. -/
def parseUnreportedModelRun (type : String) (payload : Json) (scope : Option Json) :
    Option ModelStepUsage :=
  if type ≠ "model.settled" ∨ Json.stringField "outcome" payload.record ≠ some "completed" then
    none
  else
    let scopeRecord := scope.bind Json.record
    ((Json.filledField "runId" payload.record).or (Json.filledField "runId" scopeRecord)).map
      fun runId =>
        usageFields none ((Json.filledField "turnId" scopeRecord).getD s!"run:{runId}") none
          (some s!"run:{runId}") (Json.stringField "finishReason" payload.record)

/-- The usage an event reports, or is owed. -/
def usageOfEvent (type : String) (payload : Json) (scope : Option Json) : Option ModelStepUsage :=
  (parseStepUsageEvent type payload scope).or (parseUnreportedModelRun type payload scope)

/-- Usage that is not reported holds no figures. -/
def ModelStepUsage.IsReading (usage : ModelStepUsage) : Prop :=
  usage.usageReported = false → usage.inputTokens = none ∧ usage.outputTokens = none ∧
    usage.cacheReadTokens = none ∧ usage.cacheWriteTokens = none ∧ usage.costUsd = none

theorem usageFields_isReading (usage : Option Json) (turnId : String) (stepIndex : Option ℕ)
    (runKey finishReason : Option String) :
    (usageFields usage turnId stepIndex runKey finishReason).IsReading := by
  intro hmissing
  simpa [usageFields, and_assoc] using hmissing

theorem parseStepUsageEvent_isReading {type : String} {payload : Json} {scope : Option Json}
    {usage : ModelStepUsage} (husage : parseStepUsageEvent type payload scope = some usage) :
    usage.IsReading := by
  simp only [parseStepUsageEvent, parseUsageRecorded] at husage
  split_ifs at husage
  · obtain ⟨runKey, _, rfl⟩ := Option.map_eq_some_iff.mp husage
    exact usageFields_isReading _ _ _ _ _
  · obtain ⟨turnId, _, hturn⟩ := Option.bind_eq_some_iff.mp husage
    obtain ⟨stepIndex, _, rfl⟩ := Option.map_eq_some_iff.mp hturn
    exact usageFields_isReading _ _ _ _ _

theorem parseUnreportedModelRun_isReading {type : String} {payload : Json} {scope : Option Json}
    {usage : ModelStepUsage} (husage : parseUnreportedModelRun type payload scope = some usage) :
    usage.IsReading := by
  simp only [parseUnreportedModelRun] at husage
  split_ifs at husage
  obtain ⟨runId, _, rfl⟩ := Option.map_eq_some_iff.mp husage
  exact usageFields_isReading _ _ _ _ _

theorem usageOfEvent_isReading {type : String} {payload : Json} {scope : Option Json}
    {usage : ModelStepUsage} (husage : usageOfEvent type payload scope = some usage) :
    usage.IsReading := by
  rcases Option.or_eq_some_iff.mp husage with hstep | ⟨_, hrun⟩
  · exact parseStepUsageEvent_isReading hstep
  · exact parseUnreportedModelRun_isReading hrun

end Eveland
