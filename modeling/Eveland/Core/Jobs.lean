/-
# Job types and payloads

The job types, the sets of types that claiming distinguishes, and the payload schema
of each type.
-/

import Eveland.Core.Json

namespace Eveland

/-- The types a job may have. -/
inductive JobType
  | importSource
  | buildDeploy
  | restartDeployment
  | triggerSchedule
  | ensureDeploymentRunning
  | archiveDeployment
  | deleteProject
  deriving DecidableEq, Repr

/-- The states a job goes through. -/
inductive JobStatus
  | queued
  | running
  | completed
  | failed
  deriving DecidableEq, Repr

/-- Types that run a full build and count against the heavy-job cap. -/
def heavyJobTypes : List JobType := [.buildDeploy]

/-- Types that jump ahead of operator-paced work. -/
def latencySensitiveJobTypes : List JobType := [.ensureDeploymentRunning, .triggerSchedule]

/-- Types that change a project's sources and releases. -/
def projectMutationJobTypes : List JobType := [.importSource, .buildDeploy]

/-- Types whose writes stay within the deployment their payload names. -/
def deploymentScopedJobTypes : List JobType :=
  [.ensureDeploymentRunning, .restartDeployment, .archiveDeployment, .triggerSchedule]

open Json in
/-- `gitCredentialSchema`. -/
def gitCredentialSchema : Json → Bool :=
  isObject [
    ("userId", required isString),
    ("host", required isString),
    ("encryptedToken", required isString),
    ("persistAfterImport", required isBoolean)]

open Json in
/-- `jobPayloadSchemas`. -/
def jobPayloadSchemas : JobType → Json → Bool
  | .importSource => isObject [
      ("importKind", optional (isOneOf ["git", "zip"])),
      ("gitUrl", optional (nullable isString)),
      ("sourcePath", optional (nullable isString)),
      ("gitCredential", optional gitCredentialSchema),
      ("deployAfterImport", optional isBoolean),
      ("promoteAfterDeploy", optional isBoolean),
      ("origin", optional (isOneOf ["git-sync", "cli-upload", "dashboard-upload"])),
      ("baseCommitSha", optional (nullable isString)),
      ("dirty", optional (nullable isBoolean)),
      ("uploadedBy", optional (nullable isString))]
  | .buildDeploy => isObject [
      ("promoteAfterDeploy", optional isBoolean),
      ("parentJobId", optional isString),
      ("deploymentId", optional isString)]
  | .restartDeployment => isObject [
      ("deploymentId", optional isString),
      ("reason", optional isString)]
  | .triggerSchedule => isObject [
      ("scheduleRunId", required isString),
      ("deploymentId", optional isString)]
  | .ensureDeploymentRunning => isObject [
      ("deploymentId", required isString),
      ("runtimeInstanceId", required isString)]
  | .archiveDeployment => isObject [
      ("deploymentId", required isString),
      ("automatic", optional isBoolean)]
  | .deleteProject => isObject [
      ("sourcePaths", optional (isArrayOf isString))]

/-- `decodeJobPayload`; `none` where the schema throws. -/
def decodeJobPayload (type : JobType) (payload : Json) : Option Json :=
  if jobPayloadSchemas type payload then some payload else none

/-- Decoding lets a payload through unchanged. -/
theorem decodeJobPayload_eq {type : JobType} {payload decoded : Json}
    (hdecode : decodeJobPayload type payload = some decoded) : decoded = payload := by
  unfold decodeJobPayload at hdecode
  split at hdecode
  · exact (Option.some.inj hdecode).symm
  · cases hdecode

end Eveland
