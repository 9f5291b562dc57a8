/-
# The activation lease of a request

A request that goes to a deployment takes an activation lease first. Where a later step fails, the
step's own error path releases the lease. Otherwise the lease goes to a stream around the upstream's
body, which renews it on a timer and releases it once the body is done, has failed, or is cancelled.

What the steps of the handler come to is up to the run, and so is the order of the reads, the timer,
the client's cancel and the calls that are awaited. The state carries what has happened to the lease
and to the body.
-/

import Mathlib.Data.Int.Notation
import Eveland.Core.EveRequests
import Eveland.Core.JsString
import Eveland.Core.Json
import Eveland.Foundations.Machine

namespace Eveland.ActivationLease

/-! ## Requests and responses -/

/-- What the handler reads of its input. -/
structure Input where
  hasActivationClient : Bool
  eveRequest : Option EveRequestKind
  hasOperationBinding : Bool
  operationKey : Option String
  deriving DecidableEq, Repr

/-- A response of the deployment. The declared length is what `Number` reads of the header, where
that is finite. -/
structure Upstream where
  status : ℕ
  contentType : Option String
  declaredLength : Option ℤ
  hasBody : Bool
  deriving DecidableEq, Repr

/-- What the handler returns, or that it throws. -/
inductive Ending
  | returned (status : ℕ) (error : Option String)
  | threw
  deriving DecidableEq, Repr

def noTargetResponse : Ending := .returned 503 (some "No running deployment target")

def unsupportedDeploymentResponse : Ending := .returned 409 (some "Unsupported Eve version")

def clientClosedResponse : Ending := .returned 499 (some "Client closed request")

def activationFailedResponse : Ending := .returned 503 (some "Deployment activation failed")

def bodyTooLargeResponse : Ending := .returned 413 (some "Request body too large")

/-- Why the request does not reach the deployment, or its answer does not reach the gateway. -/
inductive ProxyError
  | bodyTooLarge
  | downstreamAborted
  | other
  deriving DecidableEq, Repr

def ProxyError.ending : ProxyError → Ending
  | .bodyTooLarge => bodyTooLargeResponse
  | .downstreamAborted => clientClosedResponse
  | .other => .threw

/-! ## The opaque failure of a session's creation -/

/-- What `readBodyWithin` comes to. -/
inductive Reading
  | text (text : String)
  | beyondLimit
  | failed
  deriving DecidableEq, Repr

/-- `MAX_EVE_ERROR_BODY_BYTES`. -/
def maxEveErrorBodyBytes : ℤ := 16384

/-- A hexadecimal digit, in either case. -/
def isHexDigit (c : Char) : Bool :=
  '0' ≤ c && c ≤ '9' || 'a' ≤ c && c ≤ 'f' || 'A' ≤ c && c ≤ 'F'

/-- `EVE_ERROR_ID_PATTERN`. -/
def isEveErrorId (errorId : String) : Bool :=
  match JsString.splitAt '-' errorId.toList with
  | [first, second, version :: third, variant :: fourth, last] =>
      first.length = 8 && first.all isHexDigit && second.length = 4 && second.all isHexDigit &&
        ('1' ≤ version && version ≤ '8') && third.length = 3 && third.all isHexDigit &&
          "89abAB".toList.contains variant && fourth.length = 3 && fourth.all isHexDigit &&
            last.length = 12 && last.all isHexDigit
  | _ => false

/-- `body.errorId`. Reading a property of `null` throws. -/
def errorIdOf : Json → Except Unit (Option Json)
  | .null => .error ()
  | .obj fields => .ok ((fields.reverse.find? fun field => field.1 = "errorId").map Prod.snd)
  | _ => .ok none

/-- Whether the response is one whose body is looked at. -/
def isObserved (input : Input) (upstream : Upstream) : Bool :=
  input.eveRequest = some .initial && upstream.status = 500 &&
    (upstream.contentType.any fun type =>
      JsString.includes "application/json".toList type.toList) &&
    !(upstream.declaredLength.any fun length => maxEveErrorBodyBytes < length)

/-- `observeOpaqueSessionCreateFailure`, with what `JSON.parse` makes of a text. -/
def observeOpaqueSessionCreateFailure (parse : String → Option Json) (input : Input)
    (upstream : Upstream) (reading : Reading) : Except Unit Bool :=
  if !isObserved input upstream then .ok false
  else if !upstream.hasBody then .ok false
  else
    match reading with
    | .failed => .error ()
    | .beyondLimit => .ok false
    | .text text =>
        match parse text with
        | none => .ok false
        | some body =>
            match errorIdOf body with
            | .error () => .error ()
            | .ok (some (.str errorId)) => .ok (isEveErrorId errorId)
            | .ok _ => .ok false

/-! ## The stream that holds the lease -/

/-- What the stream's `pull` waits for. -/
inductive Pull
  | idle
  /-- `reader.read()`. -/
  | reading
  /-- `finalize()`, before `controller.close()`. -/
  | closing
  /-- `finalize()`, before `controller.error(error)`. -/
  | failing
  deriving DecidableEq, Repr

/-- What the stream's `cancel` waits for. -/
inductive Cancel
  | idle
  /-- `reader.cancel(reason)`. -/
  | cancelling
  /-- `finalize()`. -/
  | finalizing
  | done
  deriving DecidableEq, Repr

inductive StreamStatus
  | readable
  | closed
  | errored
  | cancelled
  deriving DecidableEq, Repr

/-- The stream of `manageActivationResponse`. -/
structure Managed where
  leaseId : String
  status : ℕ
  renewTimer : Bool
  finalized : Bool
  pull : Pull
  cancel : Cancel
  stream : StreamStatus
  deriving DecidableEq, Repr

/-! ## The handler -/

/-- What the handler waits for. -/
inductive Stage
  | resolveTarget
  | gateVersion
  | bindOperation
  | resolveClaimed
  | gateClaimed
  | activate
  /-- The body of the request is read, and the deployment answers. -/
  | proxy
  /-- The release in the `catch` of `proxy`. -/
  | releaseFailed (error : ProxyError)
  | observe (upstream : Upstream)
  | applySession (upstream : Upstream) (opaqueFailure : Bool)
  /-- `cancelUpstreamAndReleaseActivation`, up to its first `await`. -/
  | cancelUpstream (upstream : Upstream)
  /-- The rest of it. -/
  | releaseUnbound
  /-- The response is put together. -/
  | respond (upstream : Upstream) (opaqueFailure : Bool)
  /-- The response is returned, and its body holds the lease. -/
  | streaming (managed : Managed)
  | «over» (ending : Ending)

inductive Event
  | acquired (leaseId : String)
  | renew (leaseId : String)
  | release (leaseId : String)
  | bodyOpened
  /-- The body is done, has failed, or is cancelled. -/
  | bodyEnded
  deriving DecidableEq, Repr

structure State where
  input : Input
  stage : Stage
  lease : Option String
  events : List Event

inductive Action
  /-- The repository throws. -/
  | repositoryThrows
  | targetResolved (found : Bool)
  | versionGated (supported : Bool)
  /-- `bindOperation` has answered, with the target's deployment or another. -/
  | operationBound (same : Bool)
  | activated (leaseId : String)
  | activationRefused (aborted : Bool)
  | proxyFailed (error : ProxyError)
  | proxied (upstream : Upstream)
  | observed (reading : Reading)
  | sessionApplied (fails : Bool)
  /-- What the handler awaits besides has settled. -/
  | settled
  /-- `decorateResponseHeaders` has returned, or thrown, and the response is made. -/
  | decorated (throws : Bool)
  | pull
  | readChunk
  | readDone
  | readFailed
  | pullSettled
  /-- The client cancels the response body. -/
  | cancel
  | cancelSettled
  | renewTimer

/-! ## Steps -/

namespace State

variable (s : State)

def endWith (ending : Ending) : State := { s with stage := .over ending }

/-- `client.release`, for the lease if there is one. -/
def release : State :=
  match s.lease with
  | none => s
  | some leaseId => { s with events := s.events ++ [.release leaseId] }

/-- What follows the target: the lease, if there is a client for it. -/
def afterTarget : State :=
  if s.input.hasActivationClient then { s with stage := .activate } else { s with stage := .proxy }

/-- The body of a response has come to its end, if there is one. -/
def endBody (hasBody : Bool) : State :=
  if hasBody then { s with events := s.events ++ [.bodyEnded] } else s

/-- `finalize` of the stream. -/
def finalize (managed : Managed) : State × Managed :=
  if managed.finalized then (s, managed)
  else ({ s with events := s.events ++ [.release managed.leaseId] },
    { managed with finalized := true, renewTimer := false })

/-- `finalize` in `pull`, which then waits for it. -/
def finalizePull (managed : Managed) (pull : Pull) : State :=
  let (t, managed) := s.finalize managed
  { t with stage := .streaming { managed with pull } }

/-- `manageActivationResponse`. -/
def manageActivationResponse (leaseId : String) (upstream : Upstream) : State :=
  if upstream.hasBody then
    { s with
      stage := .streaming
        { leaseId, status := upstream.status, renewTimer := true, finalized := false, pull := .idle,
          cancel := .idle, stream := .readable } }
  else { s with
    events := s.events ++ [.release leaseId]
    stage := .over (.returned upstream.status none) }

/-- The stream, from one action to the next. -/
def stepStream (managed : Managed) : Action → Option State
  | .pull =>
      if managed.stream = .readable ∧ managed.pull = .idle then
        some { s with stage := .streaming { managed with pull := .reading } }
      else none
  | .readChunk =>
      if managed.pull = .reading then
        -- a stream that is cancelled takes no chunk any more, and `enqueue` throws
        if managed.stream = .readable then
          some { s with stage := .streaming { managed with pull := .idle } }
        else some (s.finalizePull managed .failing)
      else none
  | .readDone =>
      if managed.pull = .reading then some ((s.endBody true).finalizePull managed .closing)
      else none
  | .readFailed =>
      if managed.pull = .reading then some ((s.endBody true).finalizePull managed .failing)
      else none
  | .pullSettled =>
      match managed.pull with
      | .closing =>
          if managed.stream = .readable then
            some { s with stage := .streaming { managed with pull := .idle, stream := .closed } }
          -- `close` of a stream that is cancelled throws
          else some (s.finalizePull managed .failing)
      | .failing =>
          if managed.stream = .readable then
            some { s with stage := .streaming { managed with pull := .idle, stream := .errored } }
          else some { s with stage := .streaming { managed with pull := .idle } }
      | _ => none
  | .cancel =>
      if managed.stream = .readable then
        some { s.endBody true with
          stage := .streaming { managed with stream := .cancelled, cancel := .cancelling } }
      else none
  | .cancelSettled =>
      match managed.cancel with
      | .cancelling =>
          let (t, managed) := s.finalize managed
          some { t with stage := .streaming { managed with cancel := .finalizing } }
      | .finalizing => some { s with stage := .streaming { managed with cancel := .done } }
      | _ => none
  | .renewTimer =>
      if managed.renewTimer then
        some { s with events := s.events ++ [.renew managed.leaseId] }
      else none
  | _ => none

end State

/-- `executeGatewaySessionProxy`, from one `await` to the next. -/
def step (parse : String → Option Json) (s : State) (a : Action) : Option State :=
  match s.stage, a with
  | .resolveTarget, .targetResolved found | .resolveClaimed, .targetResolved found =>
      if found then
        some { s with stage :=
          match s.stage with
          | .resolveTarget => .gateVersion
          | _ => .gateClaimed }
      else some (s.endWith noTargetResponse)
  | .gateVersion, .versionGated supported =>
      if !supported then some (s.endWith unsupportedDeploymentResponse)
      else if s.input.operationKey.any (· ≠ "") ∧ ¬ s.input.hasOperationBinding then
        some { s with stage := .bindOperation }
      else some s.afterTarget
  | .bindOperation, .operationBound same =>
      if same then some s.afterTarget else some { s with stage := .resolveClaimed }
  | .gateClaimed, .versionGated supported =>
      if !supported then some (s.endWith unsupportedDeploymentResponse) else some s.afterTarget
  | .resolveTarget, .repositoryThrows | .gateVersion, .repositoryThrows
  | .bindOperation, .repositoryThrows | .resolveClaimed, .repositoryThrows
  | .gateClaimed, .repositoryThrows => some (s.endWith .threw)
  | .activate, .activated leaseId =>
      some { s with
        stage := .proxy, lease := some leaseId, events := s.events ++ [.acquired leaseId] }
  | .activate, .activationRefused aborted =>
      some (s.endWith (if aborted then clientClosedResponse else activationFailedResponse))
  | .proxy, .proxyFailed error => some { s.release with stage := .releaseFailed error }
  | .proxy, .proxied upstream =>
      some { s with
        stage := .observe upstream
        events := if upstream.hasBody then s.events ++ [.bodyOpened] else s.events }
  | .releaseFailed error, .settled => some (s.endWith error.ending)
  | .observe upstream, .observed reading =>
      match observeOpaqueSessionCreateFailure parse s.input upstream reading with
      | .error () => some (s.endWith .threw)
      | .ok opaqueFailure => some { s with stage := .applySession upstream opaqueFailure }
  | .applySession upstream opaqueFailure, .sessionApplied fails =>
      if fails then some { s with stage := .cancelUpstream upstream }
      else some { s with stage := .respond upstream opaqueFailure }
  | .cancelUpstream upstream, .settled =>
      some { (s.endBody upstream.hasBody).release with stage := .releaseUnbound }
  | .releaseUnbound, .settled => some (s.endWith .threw)
  | .respond upstream _, .decorated throws =>
      if throws then some (s.endWith .threw)
      else
        match s.lease with
        | none => some (s.endWith (.returned upstream.status none))
        | some leaseId => some (s.manageActivationResponse leaseId upstream)
  | .streaming managed, a => s.stepStream managed a
  | _, _ => none

/-- The request has come, and nothing has been done for it. -/
structure Initial (s : State) : Prop where
  stage : s.stage = .resolveTarget
  lease : s.lease = none
  events : s.events = []

def machine (parse : String → Option Json) : Machine State Action where
  init := Initial
  step := step parse

/-! ## Released exactly once -/

/-- The request is over: the handler has ended, and so has the body that holds the lease, with the
client's cancel. -/
def Stage.isOver : Stage → Bool
  | .over _ => true
  | .streaming managed =>
      match managed.stream with
      | .readable => false
      | .closed | .errored => true
      | .cancelled => managed.cancel = .done
  | _ => false

/-- A lease that was acquired is released once the request is over; it is released once at most, not
before the body has ended, and not renewed afterwards. -/
structure ReleasedOnce (s : State) : Prop where
  released : s.stage.isOver = true → ∀ leaseId, .acquired leaseId ∈ s.events →
    .release leaseId ∈ s.events
  once : ∀ before leaseId after, s.events = before ++ .release leaseId :: after →
    .release leaseId ∉ after
  ended : ∀ before leaseId after, s.events = before ++ .release leaseId :: after →
    .bodyOpened ∉ after ∧ (.bodyOpened ∈ before → .bodyEnded ∈ before)
  renewed : ∀ before leaseId after, s.events = before ++ .release leaseId :: after →
    .renew leaseId ∉ after

end Eveland.ActivationLease
