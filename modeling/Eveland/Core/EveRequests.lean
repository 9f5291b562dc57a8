/-
# Eve session requests

What the gateway reads off a request before it routes it: which Eve operation its path or
its MCP call asks for, which session it continues, and which create-once operation it names.

A body is given parsed: `none` where it is empty or is not JSON.
-/

import Eveland.Core.JsString
import Eveland.Core.Json

namespace Eveland

/-- The Eve operations the gateway tells apart. -/
inductive EveRequestKind
  | initial
  | continuation
  | cancel
  | reset
  | ended
  | stream
  | clear
  | compact
  | mcpStart
  | mcpInvocation
  deriving DecidableEq, Repr

/-- The operations that create a session. -/
def EveRequestKind.creates : EveRequestKind → Bool
  | .initial | .mcpStart => true
  | _ => false

/-- `EveSessionRequest`. A request that creates a session names none. -/
structure EveSessionRequest where
  kind : EveRequestKind
  sessionId : Option String
  unpinned : kind.creates = true → sessionId = none

/-- A request for an existing session. -/
def EveSessionRequest.pinned (kind : EveRequestKind) (sessionId : String)
    (hkind : kind.creates = false) : EveSessionRequest :=
  { kind, sessionId := some sessionId, unpinned := by simp [hkind] }

/-- A request that creates a session. -/
def EveSessionRequest.creating (kind : EveRequestKind) : EveSessionRequest :=
  { kind, sessionId := none, unpinned := fun _ => rfl }

/-- A path segment, decoded and not empty: `[^/]+` under `decodeURIComponent`. -/
def decodeSegment (decodeURIComponent : String → Option String) (segment : List Char) :
    Option String :=
  if segment.isEmpty then none else decodeURIComponent (String.ofList segment)

/-- The operation a suffix of a session's path stands for. -/
def suffixKind : String → Option {kind : EveRequestKind // kind.creates = false}
  | "cancel" => some ⟨.cancel, rfl⟩
  | "stream" => some ⟨.stream, rfl⟩
  | "clear" => some ⟨.clear, rfl⟩
  | "compact" => some ⟨.compact, rfl⟩
  | "reset" => some ⟨.reset, rfl⟩
  | "end" => some ⟨.reset, rfl⟩
  | _ => none

/-- `classifyEveSessionRequest`, with the patterns read segment by segment. -/
def classifyEveSessionRequest (decodeURIComponent : String → Option String)
    (method pathname : String) : Option EveSessionRequest :=
  let decode := decodeSegment decodeURIComponent
  match JsString.splitAt '/' pathname.toList with
  | [] :: eve :: version :: session :: rest =>
      if (eve, version, session) ≠ ("eve".toList, "v1".toList, "session".toList) then none
      else
        match rest with
        | [] => if method = "POST" then some (.creating .initial) else none
        | [id] =>
            if method = "POST" then (decode id).map fun id => .pinned .continuation id rfl
            else none
        | [id, suffix] => do
            let kind ← suffixKind (String.ofList suffix)
            if method = (if kind.val = .stream then "GET" else "POST") then
              (decode id).map fun id => .pinned kind.val id kind.property
            else none
        | [id, middle, last] =>
            if middle = "descendants".toList ∧ last = "stream".toList ∧ method = "GET" then
              (decode id).map fun id => .pinned .stream id rfl
            else none
        | [id, middle, call, child, last] =>
            if middle = "subagents".toList ∧ last = "stream".toList ∧ method = "GET" then do
              let parent ← decode id
              let _ ← decode call
              let _ ← decode child
              some (.pinned .stream parent rfl)
            else none
        | _ => none
  | _ => none

/-- `isEveSessionNamespace`. -/
def isEveSessionNamespace (pathname : String) : Bool :=
  pathname = "/eve/v1/session" || "/eve/v1/session/".toList.isPrefixOf pathname.toList

/-- `isWorkflowQueueNamespace`. -/
def isWorkflowQueueNamespace (pathname : String) : Bool :=
  pathname = "/.well-known/workflow/v1" ||
    "/.well-known/workflow/v1/".toList.isPrefixOf pathname.toList

/-- `isWorkflowWebhookRoute`. -/
def isWorkflowWebhookRoute (pathname : String) : Bool :=
  let base := "/.well-known/workflow/v1/webhook/".toList
  let token := pathname.toList.drop base.length
  base.isPrefixOf pathname.toList && !token.isEmpty && token.all (· ≠ '/')

/-- `getEveString`. -/
def getEveString (parsed : Option Json) (key : String) : Option String :=
  match parsed.bind (Json.field key) with
  | some (.str value) => some value
  | _ => none

/-- `value.trim()`, or nothing when that is empty. -/
def trimmed (value : String) : Option String :=
  let text := JsString.trim value.toList
  if text.isEmpty then none else some (String.ofList text)

/-- `operationIdFromBody`. -/
def operationIdFromBody (body : Option Json) : Option String :=
  (getEveString body "operationId").bind trimmed

/-- `String(value)`, of a value whose text may be a tool's name: a string, or an array around
one. -/
def toolText : Json → Option String
  | .str value => some value
  | .arr [value] => toolText value
  | _ => none

/-- `classifyMcpInvocation`. -/
def classifyMcpInvocation (body : Option Json) : Option EveSessionRequest :=
  if getEveString body "jsonrpc" ≠ some "2.0" ∨ getEveString body "method" ≠ some "tools/call" then
    none
  else
    let params := body.bind (Json.field "params")
    let toolName := params.bind (Json.field "name")
    if getEveString params "name" = some "agent_start" then some (.creating .mcpStart)
    else
      match toolName.bind toolText with
      | some name =>
          if ["agent_get", "agent_update", "agent_cancel"].contains name then
            let invocation := params.bind (Json.field "arguments")
            ((getEveString invocation "invocationId").bind trimmed).map fun id =>
              .pinned .mcpInvocation id rfl
          else none
      | none => none

/-- `mcpInvocationIdFromValue`. -/
def mcpInvocationIdFromValue (parsed : Json) : Option String :=
  (getEveString ((parsed.field "result").bind (Json.field "structuredContent"))
    "invocationId").bind trimmed

end Eveland
