/-
# Session transcripts

`transcript.ts` turns the stored events of a session into the turns of each of its nodes,
and hangs the views of the nodes on the tool calls that opened them. A tool call is one
object that later events fill in and a child view is attached to; here it is found by its
place, and a view by its position among the views.
-/

import Eveland.Core.EveCompatibility
import Mathlib.Algebra.Order.Field.Rat

namespace Eveland.Transcript

/-! ## Reading payloads -/

/-- `asRecord`. -/
def asRecord : Option Json → Option Json
  | some (.obj fields) => some (.obj fields)
  | _ => none

/-- `asString`. -/
def asString : Option Json → Option String
  | some (.str value) => some value
  | _ => none

/-- `record?.key`. -/
def get (record : Option Json) (key : String) : Option Json :=
  record.bind (Json.field key)

/-- `"key" in record ? record.key : null`. -/
def getOrNull (record : Option Json) (key : String) : Json := (get record key).getD .null

/-- A string that is neither missing nor empty. -/
def truthy (value : Option String) : Option String := value.filter (· ≠ "")

/-- The number a JSON number spells. -/
def numberValue (text : List Char) : ℚ :=
  let negative := text.head? = some '-'
  let body := if negative then text.drop 1 else text
  let isExponent (c : Char) : Bool := c = 'e' || c = 'E'
  let mantissa := body.takeWhile fun c => !isExponent c
  let power := (body.dropWhile fun c => !isExponent c).drop 1
  let whole := mantissa.takeWhile (· ≠ '.')
  let fraction := (mantissa.dropWhile (· ≠ '.')).drop 1
  let digits : ℚ := EveCompatibility.digitsValue (whole ++ fraction)
  let scale : ℚ := 10 ^ EveCompatibility.digitsValue (power.filter EveCompatibility.isDigit)
  let scaled := if power.head? = some '-' then digits / scale else digits * scale
  (if negative then -scaled else scaled) / 10 ^ fraction.length

/-- `asNumber`; what reads as an infinity counts as nothing. -/
def asNumber : Option Json → ℚ
  | some (.num text) =>
      let value := numberValue text.toList
      if |value| < 2 ^ 1024 - 2 ^ 970 then value else 0
  | _ => 0

mutual

/-- `JSON.stringify`; the fields of an object are listed in its own order. -/
def stringify : Json → String
  | .null => "null"
  | .bool true => "true"
  | .bool false => "false"
  | .num text => text
  | .str value => Json.quote value
  | .arr elements => "[" ++ stringifyElements elements ++ "]"
  | .obj fields => "\x7b" ++ stringifyFields fields ++ "\x7d"

/-- The elements of an array, separated. -/
def stringifyElements : List Json → String
  | [] => ""
  | element :: rest =>
      stringify element ++ (if rest.isEmpty then "" else ",") ++ stringifyElements rest

/-- The fields of an object, separated. -/
def stringifyFields : List (String × Json) → String
  | [] => ""
  | (key, value) :: rest =>
      Json.quote key ++ ":" ++ stringify value ++ (if rest.isEmpty then "" else ",") ++
        stringifyFields rest

end

/-- `messageText`: the message itself, or the texts of its parts. -/
def messageText (payload : Option Json) : String :=
  match (asString (get payload "message")).or
      ((asString (get payload "text")).or (asString (get payload "content"))) with
  | some direct => direct
  | none =>
      match get payload "parts" with
      | some (.arr parts) =>
          String.join (parts.filterMap fun part => asString (get (asRecord (some part)) "text"))
      | _ => ""

/-- `contentText`: the value of a `content.completed`, or the fallback a file carries. -/
def contentText (payload : Option Json) : Option String :=
  match get payload "value" with
  | some (.str value) => truthy (some value)
  | none => asString (get payload "fallbackText")
  | some .null => asString (get payload "fallbackText")
  | some value => some (stringify value)

/-- `errorMessage`. -/
def errorMessage (payload : Option Json) : Option String :=
  (asString (get payload "error")).or
    ((asString (get (asRecord (get payload "error")) "message")).or
      ((asString (get payload "reason")).or (asString (get payload "message"))))

/-- The token counts of a step or a call. -/
structure TranscriptUsage where
  inputTokens : ℚ
  outputTokens : ℚ
  cacheReadTokens : ℚ
  cacheWriteTokens : ℚ

/-- `usageFrom`. -/
def usageFrom (value : Option Json) : Option TranscriptUsage :=
  (asRecord value).map fun usage =>
    { inputTokens := asNumber (usage.field "inputTokens")
      outputTokens := asNumber (usage.field "outputTokens")
      cacheReadTokens := asNumber (usage.field "cacheReadTokens")
      cacheWriteTokens := asNumber (usage.field "cacheWriteTokens") }

/-- `addUsage`. -/
def addUsage (base : Option TranscriptUsage) (extra : TranscriptUsage) : TranscriptUsage :=
  match base with
  | none => extra
  | some base =>
      { inputTokens := base.inputTokens + extra.inputTokens
        outputTokens := base.outputTokens + extra.outputTokens
        cacheReadTokens := base.cacheReadTokens + extra.cacheReadTokens
        cacheWriteTokens := base.cacheWriteTokens + extra.cacheWriteTokens }

/-! ## Turns and their items -/

/-- A stored event. -/
structure TranscriptSourceEvent where
  type : String
  payload : Json
  eventAt : String
  sessionNodeId : Option String

/-- How a tool call stands. -/
inductive CallStatus
  | completed
  | failed
  | cancelled
  | pending
  deriving DecidableEq

/-- A tool call; `child` is the position of the view attached to it. -/
structure TranscriptToolCall where
  callId : Option String
  name : String
  isSubagent : Bool
  input : Json
  output : Json
  status : CallStatus
  errorText : Option String
  usage : Option TranscriptUsage
  targetNodeId : Option String
  childEveSessionId : Option String
  eventAt : String
  child : Option ℕ

/-- What a turn shows. -/
inductive TranscriptItem
  | user (text eventAt : String)
  | assistant (text eventAt : String)
  | reasoning (text eventAt : String)
  | tool (call : TranscriptToolCall)
  | system (label : String) (text : Option String) (eventAt : String)

/-- How a turn ended, or that it has not. -/
inductive TurnStatus
  | completed
  | failed
  | cancelled
  | incomplete
  deriving DecidableEq

/-- A turn. -/
structure TranscriptTurn where
  turnId : Option String
  startedAt : String
  items : List TranscriptItem
  userMessage : Option String
  assistantMessage : Option String
  status : TurnStatus
  usage : Option TranscriptUsage

/-- Where a call is: its turn, and its item in that turn. -/
structure CallPlace where
  turn : ℕ
  item : ℕ

/-- An item with its call changed, if it is one. -/
def TranscriptItem.mapCall (edit : TranscriptToolCall → TranscriptToolCall) :
    TranscriptItem → TranscriptItem
  | .tool call => .tool (edit call)
  | item => item

/-- The turns with one call changed. -/
def editCall (place : CallPlace) (edit : TranscriptToolCall → TranscriptToolCall)
    (turns : List TranscriptTurn) : List TranscriptTurn :=
  turns.modify place.turn fun turn =>
    { turn with items := turn.items.modify place.item (TranscriptItem.mapCall edit) }

/-- `turn.items.push(item)`. -/
def pushItem (turn : ℕ) (item : TranscriptItem) (turns : List TranscriptTurn) :
    List TranscriptTurn :=
  turns.modify turn fun t => { t with items := t.items ++ [item] }

/-- What the loop over the events keeps. The maps list their newest entry first. -/
structure Progress where
  turns : List TranscriptTurn
  turnsById : List (String × ℕ)
  callsById : List (String × CallPlace)
  taskCallIds : List String
  interactionKinds : List (String × String)

namespace Progress

/-- Nothing read yet. -/
def start : Progress := ⟨[], [], [], [], []⟩

/-- `turns` changed. -/
def onTurns (f : List TranscriptTurn → List TranscriptTurn) (s : Progress) : Progress :=
  { s with turns := f s.turns }

/-- The turn a payload belongs to, if it is there. -/
def existingTurn (turnId : Option String) (s : Progress) : Option ℕ :=
  match truthy turnId with
  | some id => s.turnsById.lookup id
  | none => if s.turns.isEmpty then none else some (s.turns.length - 1)

/-- `turnFor`: the turn a payload names, or else the last one; a new one if there is none. -/
def turnFor (payload : Option Json) (eventAt : String) (s : Progress) : Progress × ℕ :=
  let turnId := asString (get payload "turnId")
  match s.existingTurn turnId with
  | some turn => (s, turn)
  | none =>
      ({ s with
          turns := s.turns ++ [
            { turnId := turnId, startedAt := eventAt, items := [], userMessage := none,
              assistantMessage := none, status := .incomplete, usage := none }]
          turnsById :=
            match truthy turnId with
            | some id => (id, s.turns.length) :: s.turnsById
            | none => s.turnsById },
        s.turns.length)

/-- The turn of a payload, then an edit there. -/
def atTurn (payload : Option Json) (eventAt : String)
    (f : ℕ → List TranscriptTurn → List TranscriptTurn) (s : Progress) : Progress :=
  let (s, turn) := s.turnFor payload eventAt
  s.onTurns (f turn)

/-- `callsById.set(call.callId, call)` for a call at its place, and its push. -/
def pushCall (turn : ℕ) (call : TranscriptToolCall) (s : Progress) : Progress :=
  let place : CallPlace := ⟨turn, ((s.turns[turn]?).map (·.items.length)).getD 0⟩
  { s with
    turns := pushItem turn (.tool call) s.turns
    callsById :=
      match truthy call.callId with
      | some id => (id, place) :: s.callsById
      | none => s.callsById }

/-- The place of the call an id names. -/
def callPlace (callId : Option String) (s : Progress) : Option CallPlace :=
  (truthy callId).bind fun id => s.callsById.lookup id

/-- The call an id names filled in, if there is one. -/
def fillCall (callId : Option String) (edit : TranscriptToolCall → TranscriptToolCall)
    (s : Progress) : Progress :=
  match s.callPlace callId with
  | none => s
  | some place => s.onTurns (editCall place edit)

end Progress

/-! ## Edits of a turn -/

/-- An edit of a turn that leaves its id and its items alone. -/
def editTurn (turn : ℕ) (edit : TranscriptTurn → TranscriptTurn) (turns : List TranscriptTurn) :
    List TranscriptTurn :=
  turns.modify turn fun t => { edit t with turnId := t.turnId, items := t.items }

def setStatus (turn : ℕ) (status : TurnStatus) : List TranscriptTurn → List TranscriptTurn :=
  editTurn turn fun t => { t with status := status }

/-- Pending calls of a cancelled turn are cancelled with it. -/
def cancelCall (call : TranscriptToolCall) : TranscriptToolCall :=
  if call.status = .pending then
    { call with status := .cancelled, errorText := some "Turn cancelled" }
  else call

def cancelCalls (turn : ℕ) (turns : List TranscriptTurn) : List TranscriptTurn :=
  turns.modify turn fun t => { t with items := t.items.map (TranscriptItem.mapCall cancelCall) }

/-- A user message. -/
def pushUser (text eventAt : String) (turn : ℕ) (turns : List TranscriptTurn) :
    List TranscriptTurn :=
  editTurn turn (fun t => { t with userMessage := t.userMessage.or (some text) })
    (pushItem turn (.user text eventAt) turns)

/-- An assistant message. -/
def pushAssistant (text eventAt : String) (turn : ℕ) (turns : List TranscriptTurn) :
    List TranscriptTurn :=
  editTurn turn (fun t => { t with assistantMessage := some text })
    (pushItem turn (.assistant text eventAt) turns)

/-- A turn that failed. -/
def failTurn (text : Option String) (eventAt : String) (turn : ℕ)
    (turns : List TranscriptTurn) : List TranscriptTurn :=
  pushItem turn (.system "Turn failed" text eventAt) (setStatus turn .failed turns)

/-- A turn that was cancelled. -/
def cancelTurn (eventAt : String) (turn : ℕ) (turns : List TranscriptTurn) :
    List TranscriptTurn :=
  pushItem turn (.system "Turn cancelled" none eventAt)
    (cancelCalls turn (setStatus turn .cancelled turns))

/-- A session that failed, with the turn it was in. -/
def failSession (text : Option String) (eventAt : String) (turn : ℕ)
    (turns : List TranscriptTurn) : List TranscriptTurn :=
  editTurn turn
    (fun t => { t with status := if t.status = .incomplete then .failed else t.status })
    (pushItem turn (.system "Session failed" text eventAt) turns)

/-! ## Calls as events describe them -/

/-- The call of one entry of `actions.requested`. -/
def requestedAction (action : Json) (eventAt : String) : TranscriptToolCall :=
  let kind := (asString (action.field "kind")).getD ""
  { callId := asString (action.field "callId")
    name := ((asString (action.field "toolName")).or ((asString (action.field "name")).or
      (asString (action.field "subagentName")))).getD (if kind = "" then "tool" else kind)
    isSubagent := "subagent".toList.isPrefixOf kind.toList
    input := getOrNull (some action) "input"
    output := .null
    status := .pending
    errorText := none
    usage := none
    targetNodeId := asString (action.field "nodeId")
    childEveSessionId := none
    eventAt := eventAt
    child := none }

/-- The call of a `call.requested`. -/
def requestedCall (payload : Option Json) (eventAt : String) : TranscriptToolCall :=
  let capability := asRecord (get payload "capability")
  let capabilityKind := asString (get capability "kind")
  { callId := asString (get payload "callId")
    name := ((asString (get capability "name")).or capabilityKind).getD "tool"
    isSubagent := capabilityKind = some "agent"
    input := getOrNull payload "input"
    output := .null
    status := .pending
    errorText := none
    usage := none
    targetNodeId := none
    childEveSessionId := none
    eventAt := eventAt
    child := none }

/-- What an `action.result` says of its call: output, status, error and usage. -/
structure ActionOutcome where
  output : Json
  status : CallStatus
  errorText : Option String
  usage : Option TranscriptUsage

def actionOutcome (payload : Option Json) : ActionOutcome :=
  let result := asRecord (get payload "result")
  let status := asString (get payload "status")
  let failed := status ≠ none ∧ status ≠ some "completed"
  { output := getOrNull result "output"
    status := if failed then .failed else .completed
    errorText :=
      if failed then (errorMessage result).or ((errorMessage payload).or status) else none
    usage := usageFrom (get result "usage") }

/-- The call of a result whose request is not among the events. -/
def resultCall (payload : Option Json) (eventAt : String) : TranscriptToolCall :=
  let result := asRecord (get payload "result")
  let kind := (asString (get result "kind")).getD ""
  let outcome := actionOutcome payload
  { callId := asString (get result "callId")
    name := ((asString (get result "toolName")).or ((asString (get result "name")).or
      (asString (get result "subagentName")))).getD (if kind = "" then "tool" else kind)
    isSubagent := "subagent".toList.isPrefixOf kind.toList
    input := .null
    output := outcome.output
    status := outcome.status
    errorText := outcome.errorText
    usage := outcome.usage
    targetNodeId := none
    childEveSessionId := none
    eventAt := eventAt
    child := none }

/-- How `task.settled` ends its call. -/
def settleTask (payload : Option Json) (call : TranscriptToolCall) : TranscriptToolCall :=
  let status := asString (get payload "status")
  { call with
    status :=
      if status = some "failed" then .failed
      else if status = some "cancelled" then .cancelled else .completed
    output := getOrNull payload "output"
    errorText :=
      if status = some "failed" then some ((errorMessage payload).getD "failed")
      else if status = some "cancelled" then
        asString (get (asRecord (get payload "cancel")) "reason")
      else none }

/-- How `call.settled` ends its call. -/
def settleCall (payload : Option Json) (call : TranscriptToolCall) : TranscriptToolCall :=
  let outcome := asString (get payload "outcome")
  let status : CallStatus :=
    if outcome = some "completed" then .completed
    else if outcome = some "interrupted" ∨ outcome = some "abandoned" then .cancelled
    else .failed
  { call with
    status := status
    output := getOrNull payload "output"
    errorText :=
      if status = .completed then none
      else (errorMessage payload).or ((asString (get payload "reason")).or outcome) }

/-- The Eve session a call opened. -/
def openChild (sessionId : Option String) (call : TranscriptToolCall) : TranscriptToolCall :=
  { call with isSubagent := true, childEveSessionId := sessionId }

/-- The item an `interaction.opened` shows. -/
def interactionItem (request : Option Json) (kind eventAt : String) : TranscriptItem :=
  if kind = "sign-in" then
    let signIn := asRecord (get request "signIn")
    .system "Authorization required"
      ((asString (get signIn "displayName")).or ((asString (get signIn "name")).or
        (asString (get request "prompt")))) eventAt
  else .system "Input requested" (asString (get request "prompt")) eventAt

/-! ## The loop over the events -/

/-- The event types the transcript reads. -/
inductive EventType
  | messageReceived
  | messageCompleted
  | reasoningCompleted
  | actionsRequested
  | actionResult
  | taskStarted
  | agentStarted
  | taskSettled
  | stepCompleted
  | turnCompleted
  | turnFailed
  | turnCancelled
  | stepFailed
  | sessionFailed
  | inputRequested
  | authorizationRequired
  | authorizationCompleted
  | deliveryConsumed
  | contentCompleted
  | callRequested
  | callSettled
  | childOpened
  | usageRecorded
  | modelSettled
  | turnSettled
  | sessionEnded
  | interactionOpened
  | interactionSettled
  | other
  deriving DecidableEq

/-- The type an event's text names. -/
def eventType (type : String) : EventType :=
  match type with
  | "message.received" => .messageReceived
  | "message.completed" => .messageCompleted
  | "reasoning.completed" => .reasoningCompleted
  | "actions.requested" => .actionsRequested
  | "action.result" => .actionResult
  | "task.started" => .taskStarted
  | "agent.started" => .agentStarted
  | "task.settled" => .taskSettled
  | "step.completed" => .stepCompleted
  | "turn.completed" => .turnCompleted
  | "turn.failed" => .turnFailed
  | "turn.cancelled" => .turnCancelled
  | "step.failed" => .stepFailed
  | "session.failed" => .sessionFailed
  | "input.requested" => .inputRequested
  | "authorization.required" => .authorizationRequired
  | "authorization.completed" => .authorizationCompleted
  | "delivery.consumed" => .deliveryConsumed
  | "content.completed" => .contentCompleted
  | "call.requested" => .callRequested
  | "call.settled" => .callSettled
  | "child.opened" => .childOpened
  | "usage.recorded" => .usageRecorded
  | "model.settled" => .modelSettled
  | "turn.settled" => .turnSettled
  | "session.ended" => .sessionEnded
  | "interaction.opened" => .interactionOpened
  | "interaction.settled" => .interactionSettled
  | _ => .other

/-- The entries of `actions.requested` that are records. -/
def requestedActions (payload : Option Json) : List Json :=
  match get payload "actions" with
  | some (.arr actions) => actions.filterMap fun raw => asRecord (some raw)
  | _ => []

/-- The kind an `interaction.opened` gives its interaction. -/
def interactionKind (payload : Option Json) : String :=
  (asString (get (asRecord (get payload "request")) "kind")).getD "question"

/-- Usage added to the turn of a payload, where there is any. -/
def addStepUsage (payload : Option Json) (eventAt : String) (s : Progress) : Progress :=
  match usageFrom (get payload "usage") with
  | none => s
  | some usage =>
      s.atTurn payload eventAt fun turn =>
        editTurn turn fun t => { t with usage := some (addUsage t.usage usage) }

/-- One event. -/
def transcribe (s : Progress) (event : TranscriptSourceEvent) : Progress :=
  let payload := asRecord (some event.payload)
  let eventAt := event.eventAt
  let system (label : String) (text : Option String) : Progress :=
    s.atTurn payload eventAt fun turn => pushItem turn (.system label text eventAt)
  match eventType event.type with
  | .messageReceived =>
      -- input Eve wrote itself opens its turn, but nobody typed it
      s.atTurn payload eventAt fun turn =>
        if asString (get payload "kind") = some "execution.background_task" then id
        else pushUser (messageText payload) eventAt turn
  | .messageCompleted =>
      s.atTurn payload eventAt (pushAssistant (messageText payload) eventAt)
  | .reasoningCompleted =>
      if messageText payload = "" then s
      else s.atTurn payload eventAt fun turn =>
        pushItem turn (.reasoning (messageText payload) eventAt)
  | .actionsRequested =>
      let (s, turn) := s.turnFor payload eventAt
      (requestedActions payload).foldl
        (fun s action => s.pushCall turn (requestedAction action eventAt)) s
  | .actionResult =>
      let callId := asString (get (asRecord (get payload "result")) "callId")
      let outcome := actionOutcome payload
      match s.callPlace callId with
      | some place =>
          -- the result of a task is a receipt; `task.settled` ends it
          if (callId.map s.taskCallIds.contains).getD false then s
          else s.onTurns (editCall place fun call =>
            { call with
              output := outcome.output
              status := outcome.status
              errorText := outcome.errorText
              usage := outcome.usage })
      | none =>
          s.atTurn payload eventAt fun turn => pushItem turn (.tool (resultCall payload eventAt))
  | .taskStarted =>
      let callId := asString (get payload "callId")
      match s.callPlace callId, callId with
      | some place, some callId =>
          { s with
            taskCallIds := callId :: s.taskCallIds
            turns := if asString (get payload "kind") = some "agent" then
                editCall place (fun call => { call with isSubagent := true }) s.turns
              else s.turns }
      | _, _ => s
  | .agentStarted =>
      s.fillCall (asString (get payload "callId")) (openChild (asString (get payload "sessionId")))
  | .taskSettled => s.fillCall (asString (get payload "callId")) (settleTask payload)
  | .stepCompleted => addStepUsage payload eventAt s
  | .turnCompleted => s.atTurn payload eventAt fun turn => setStatus turn .completed
  | .turnFailed => s.atTurn payload eventAt (failTurn (errorMessage payload) eventAt)
  | .turnCancelled => s.atTurn payload eventAt (cancelTurn eventAt)
  | .stepFailed => system "Step failed" (errorMessage payload)
  | .sessionFailed => s.atTurn payload eventAt (failSession (errorMessage payload) eventAt)
  | .inputRequested =>
      system "Input requested"
        ((asString (get (asRecord (get payload "request")) "prompt")).or
          ((asString (get payload "prompt")).or (truthy (some (messageText payload)))))
  | .authorizationRequired =>
      system "Authorization required"
        ((asString (get payload "displayName")).or (asString (get payload "description")))
  | .authorizationCompleted =>
      system "Authorization completed" (asString (get payload "outcome"))
  | .deliveryConsumed =>
      s.atTurn payload eventAt (pushUser (messageText payload) eventAt)
  | .contentCompleted =>
      match truthy (contentText payload) with
      | none => s
      | some text =>
          s.atTurn payload eventAt fun turn =>
            if asString (get payload "kind") = some "reasoning" then
              pushItem turn (.reasoning text eventAt)
            else if asString (get payload "kind") = some "text" ∨
                asString (get payload "kind") = some "result" then
              pushAssistant text eventAt turn
            else id
  | .callRequested =>
      -- task controls are plumbing
      if asString (get (asRecord (get payload "capability")) "kind") = some "control" then s
      else
        let (s, turn) := s.turnFor payload eventAt
        s.pushCall turn (requestedCall payload eventAt)
  | .callSettled => s.fillCall (asString (get payload "callId")) (settleCall payload)
  | .childOpened =>
      s.fillCall (asString (get (asRecord (get payload "owner")) "callId"))
        (openChild (asString (get payload "sessionId")))
  | .usageRecorded =>
      -- a record its call owns repeats what the child's node shows
      let owner := asRecord (get payload "owner")
      if truthy (asString (get owner "runId")) = none ∧
          truthy (asString (get owner "changeId")) = none then s
      else addStepUsage payload eventAt s
  | .modelSettled =>
      if asString (get payload "outcome") = some "failed" then
        system "Step failed" (errorMessage payload)
      else s
  | .turnSettled =>
      s.atTurn payload eventAt fun turn =>
        if asString (get payload "outcome") = some "completed" then setStatus turn .completed
        else if asString (get payload "outcome") = some "failed" then
          failTurn (errorMessage payload) eventAt turn
        else if asString (get payload "outcome") = some "cancelled" then
          cancelTurn eventAt turn
        else id
  | .sessionEnded =>
      if asString (get payload "outcome") = some "failed" then
        s.atTurn payload eventAt (failSession (errorMessage payload) eventAt)
      else s
  | .interactionOpened =>
      let kind := interactionKind payload
      let kept := match truthy (asString (get payload "interactionId")) with
        | some id => { s with interactionKinds := (id, kind) :: s.interactionKinds }
        | none => s
      kept.atTurn payload eventAt fun turn =>
        pushItem turn (interactionItem (asRecord (get payload "request")) kind eventAt)
  | .interactionSettled =>
      match truthy (asString (get payload "interactionId")) with
      | none => s
      | some id =>
          if s.interactionKinds.lookup id = some "sign-in" then
            system "Authorization completed" (asString (get payload "outcome"))
          else s
  | .other => s

/-- `buildTranscriptTurns`. -/
def buildTranscriptTurns (events : List TranscriptSourceEvent) : List TranscriptTurn :=
  (events.foldl transcribe Progress.start).turns

/-! ## Views and where they hang -/

/-- A session node. -/
structure TranscriptSourceNode where
  id : String
  eveSessionId : Option String
  parentNodeId : Option String
  nodeId : Option String
  agentId : Option String
  agentName : Option String
  status : Option String
  resolutionStatus : Option String
  remoteUrl : Option String

/-- The view of a node. -/
structure TranscriptNode where
  sessionNodeId : Option String
  agentId : Option String
  agentName : Option String
  nodeId : Option String
  status : Option String
  resolutionStatus : Option String
  remoteUrl : Option String
  turns : List TranscriptTurn

/-- The views, and the positions of the root and of the detached ones among them. -/
structure SessionTranscript where
  views : List TranscriptNode
  root : Option ℕ
  detached : List ℕ

/-- The first node without a parent. -/
def rootNode (nodes : List TranscriptSourceNode) : Option TranscriptSourceNode :=
  nodes.find? fun node => node.parentNodeId = none

/-- The events of a node; those without a node go to the root. -/
def nodeEvents (events : List TranscriptSourceEvent) (nodes : List TranscriptSourceNode)
    (node : TranscriptSourceNode) : List TranscriptSourceEvent :=
  if (rootNode nodes).any (·.id = node.id) then
    events.filter fun event => event.sessionNodeId = some node.id || event.sessionNodeId = none
  else events.filter fun event => event.sessionNodeId = some node.id

/-- The view of a node before any other is attached to it. -/
def viewOf (events : List TranscriptSourceEvent) (nodes : List TranscriptSourceNode)
    (node : TranscriptSourceNode) : TranscriptNode :=
  { sessionNodeId := some node.id
    agentId := node.agentId
    agentName := node.agentName
    nodeId := node.nodeId
    status := node.status
    resolutionStatus := node.resolutionStatus
    remoteUrl := node.remoteUrl
    turns := buildTranscriptTurns (nodeEvents events nodes node) }

/-- `views.get(id)`: of two nodes with one id the later was set. -/
def viewPlace (nodes : List TranscriptSourceNode) (id : String) : Option ℕ :=
  (nodes.zipIdx.reverse.find? fun entry => entry.1.id = id).map Prod.snd

/-- The tool calls of a turn, with their places. -/
def turnToolCalls (turn : TranscriptTurn) (place : ℕ) : List (CallPlace × TranscriptToolCall) :=
  turn.items.zipIdx.filterMap fun (item, index) =>
    match item with
    | .tool call => some (⟨place, index⟩, call)
    | _ => none

/-- The tool calls of all turns, in order. -/
def toolCalls (turns : List TranscriptTurn) : List (CallPlace × TranscriptToolCall) :=
  turns.zipIdx.flatMap fun (turn, place) => turnToolCalls turn place

/-- `findCallThatOpened`. -/
def findCallThatOpened (view : TranscriptNode) (eveSessionId : Option String) :
    Option CallPlace :=
  match eveSessionId with
  | none => none
  | some sessionId =>
      ((toolCalls view.turns).find? fun entry =>
        entry.2.child = none ∧ entry.2.childEveSessionId = some sessionId).map Prod.fst

/-- `findOpenSubagentCall`. -/
def findOpenSubagentCall (view : TranscriptNode) (nodeId : Option String) : Option CallPlace :=
  let isOpen := (toolCalls view.turns).filter fun entry =>
    entry.2.isSubagent ∧ entry.2.child = none
  match nodeId with
  | some nodeId =>
      (isOpen.find? fun entry => entry.2.targetNodeId = some nodeId).map Prod.fst
  | none => isOpen.head?.map Prod.fst

/-- The view a node's view hangs from, and the call there. -/
def slotOf (nodes : List TranscriptSourceNode) (views : List TranscriptNode)
    (node : TranscriptSourceNode) : Option (ℕ × CallPlace) :=
  match (truthy node.parentNodeId).bind (viewPlace nodes) with
  | none => none
  | some parent =>
      match views[parent]? with
      | none => none
      | some parentView =>
          ((findCallThatOpened parentView node.eveSessionId).or
            (findOpenSubagentCall parentView node.nodeId)).map fun place => (parent, place)

/-- `slot.child = view`. -/
def attach (child : ℕ) (place : CallPlace) (view : TranscriptNode) : TranscriptNode :=
  { view with turns := editCall place (fun call => { call with child := some child }) view.turns }

/-- A node of the loop that hangs the views. -/
def placeNode (nodes : List TranscriptSourceNode) (s : SessionTranscript)
    (node : TranscriptSourceNode) : SessionTranscript :=
  if (rootNode nodes).any (·.id = node.id) then s
  else
    match viewPlace nodes node.id with
    | none => s
    | some view =>
        match slotOf nodes s.views node with
        | some (parent, place) => { s with views := s.views.modify parent (attach view place) }
        | none => { s with detached := s.detached ++ [view] }

/-- The view of events that have no nodes. -/
def nodelessView (events : List TranscriptSourceEvent) : TranscriptNode :=
  { sessionNodeId := none
    agentId := none
    agentName := none
    nodeId := none
    status := none
    resolutionStatus := none
    remoteUrl := none
    turns := buildTranscriptTurns events }

/-- `buildSessionTranscript`. -/
def buildSessionTranscript (events : List TranscriptSourceEvent)
    (nodes : List TranscriptSourceNode) : SessionTranscript :=
  if nodes.isEmpty && !events.isEmpty then
    { views := [nodelessView events], root := some 0, detached := [] }
  else
    nodes.foldl (placeNode nodes)
      { views := nodes.map (viewOf events nodes)
        root := (rootNode nodes).bind fun node => viewPlace nodes node.id
        detached := [] }

/-! ## Display groups -/

/-- What a turn is displayed as: messages, and groups of the activity between them. -/
inductive TranscriptDisplayItem
  | message (item : TranscriptItem)
  | activity (status : CallStatus) (items : List TranscriptItem)

/-- A message of the user or the assistant. -/
def TranscriptItem.isMessage : TranscriptItem → Bool
  | .user _ _ => true
  | .assistant _ _ => true
  | _ => false

/-- `activityStatus`, with `pending` for a group that is running. -/
def activityStatus (items : List TranscriptItem) (turnStatus : TurnStatus) (trailing : Bool) :
    CallStatus :=
  let shows (status : CallStatus) (word : String) (item : TranscriptItem) : Bool :=
    match item with
    | .tool call => call.status = status
    | .system label _ _ =>
        JsString.includes word.toList (JsString.toLowerCase label.toList)
    | _ => false
  let isPending : TranscriptItem → Bool
    | .tool call => call.status = .pending
    | _ => false
  if items.any (shows .failed "failed") then .failed
  else if items.any (shows .cancelled "cancelled") then .cancelled
  else if items.any isPending then .pending
  else if turnStatus = .incomplete && trailing then .pending
  else .completed

/-- `flushActivity`. -/
def flushActivity (turnStatus : TurnStatus) (trailing : Bool)
    (shown : List TranscriptDisplayItem) (pending : List TranscriptItem) :
    List TranscriptDisplayItem :=
  if pending.isEmpty then shown
  else shown ++ [.activity (activityStatus pending turnStatus trailing) pending]

/-- One item of the loop: the display items so far, and the activity not yet flushed. -/
def groupItem (turnStatus : TurnStatus)
    (state : List TranscriptDisplayItem × List TranscriptItem) (item : TranscriptItem) :
    List TranscriptDisplayItem × List TranscriptItem :=
  if item.isMessage then
    (flushActivity turnStatus false state.1 state.2 ++ [.message item], [])
  else (state.1, state.2 ++ [item])

/-- `groupTranscriptItems`. -/
def groupTranscriptItems (turn : TranscriptTurn) : List TranscriptDisplayItem :=
  let state := turn.items.foldl (groupItem turn.status) ([], [])
  flushActivity turn.status true state.1 state.2

end Eveland.Transcript
