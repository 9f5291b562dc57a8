/-
# The update of an installed appliance

`eveland-ctl update` as a program of calls: what it reads, the git commands, prompts and child
processes whose answers it waits for, and its durable effects. It can be killed, or throw,
between any two of them; the next run takes the update up from the pending record, where there is
one. `eveland-ctl start` is a program too: it refuses to start the platform around an update
that is recorded.

The durable state has the bookkeeping that tells what became of an update: whether the checkout
was moved and phase 2 is still owed to it, and the stashes that were pushed, reported, recorded,
settled and applied. An update is known by its number, in the order in which records were
begun.
-/

import Mathlib.Data.Int.Notation
import Mathlib.Data.Nat.Notation
import Eveland.Core.JsString
import Eveland.Foundations.Recovery

namespace Eveland.CtlUpdate

open JsString

/-! ## Releases -/

/-- `\d+`, read as a number. -/
def parseDigits (cs : List Char) : Option ℕ :=
  if cs ≠ [] ∧ cs.all Char.isDigit then
    some (cs.foldl (fun n c => 10 * n + (c.toNat - 48)) 0)
  else none

/-- `parseReleaseTag`: `vX.Y.Z` and nothing else. -/
def parseReleaseTag (tag : String) : Option (ℕ × ℕ × ℕ) :=
  match tag.toList with
  | 'v' :: rest =>
      match (splitAt '.' rest).map parseDigits with
      | [some major, some minor, some patch] => some (major, minor, patch)
      | _ => none
  | _ => none

/-- The non-empty lines of an output, trimmed. -/
def trimmedLines (output : String) : List String :=
  (splitAt '\n' output.toList).map fun line => String.ofList (trim line)

/-- `newestStableTag` of tags that are listed newest first. -/
def newestStableTag (tagListOutput : String) : Option String :=
  (trimmedLines tagListOutput).find? fun tag => (parseReleaseTag tag).isSome

/-- `isForwardMove`. -/
def isForwardMove (currentVersion targetTag : String) : Bool :=
  match parseReleaseTag ("v" ++ currentVersion), parseReleaseTag targetTag with
  | some (major, minor, patch), some (major', minor', patch') =>
      if major' ≠ major then major' > major
      else if minor' ≠ minor then minor' > minor
      else patch' > patch
  | _, _ => false

/-- `parseKeepBackups`, of an option that is given or not. -/
def parseKeepBackups : Option String → Option ℕ
  | none => some 3
  | some value => (parseDigits value.toList).filter fun parsed => 1 ≤ parsed

/-! ## Records and answers -/

/-- `PendingUpdate`; `fromVersion` is its `from`. -/
structure PendingUpdate where
  fromVersion : String
  target : String
  backupPath : Option String
  stashName : Option String
  stashRef : Option String
  evePinBefore : Option String
  stashRestored : Bool
  startedAt : ℕ
  deriving DecidableEq, Repr

/-- How a command ends. -/
structure CommandResult where
  code : Option ℤ
  output : String
  deriving DecidableEq, Repr

/-- The options of `eveland-ctl update`. -/
structure UpdateArgs where
  version : Option String
  yes : Bool
  noPrompt : Bool
  skipBackup : Bool
  keepBackups : Option String
  deriving DecidableEq, Repr

/-- A line of `git stash list --format=%H %gd %gs`. -/
structure StashEntry where
  sha : String
  index : String
  subject : String
  deriving DecidableEq, Repr

/-- The fields of a line: the words before the second blank, and all that is after it. -/
def stashEntry (line : String) : StashEntry :=
  match splitAt ' ' line.toList with
  | [] => ⟨"", "", ""⟩
  | [sha] => ⟨String.ofList sha, "", ""⟩
  | sha :: index :: subject =>
      ⟨String.ofList sha, String.ofList index, String.ofList (List.intercalate [' '] subject)⟩

/-- The entry `restoreStash` looks for: by its commit where that was recorded, by its name
otherwise. -/
def findStash (stashRef : Option String) (stashName : String) (output : String) :
    Option StashEntry :=
  let entries := ((trimmedLines output).filter fun line => line ≠ "").map stashEntry
  match stashRef with
  | some ref => entries.find? fun candidate => candidate.sha = ref
  | none => entries.find? fun candidate =>
      includes stashName.toList candidate.subject.toList

/-- `stashRef`, of the answer to `git rev-parse refs/stash`. -/
def parseStashRef (ref : CommandResult) : Option String :=
  if ref.code = some 0 then
    ((splitAt '\n' (trim ref.output.toList)).head?.map String.ofList).filter fun sha => sha ≠ ""
  else none

/-- `dirtyLines` of `git status --porcelain`. -/
def dirtyLines (output : String) : List (List Char) :=
  (splitAt '\n' output.toList).filter fun line => trim line ≠ []

/-- A line of an unmerged path. -/
def isUnmerged (entry : List Char) : Bool :=
  entry.head? = some 'U' || entry[1]? = some 'U' || ['A', 'A'].isPrefixOf entry

/-! ## Durable state -/

/-- The checkout, the pending record, and what became of the updates. -/
structure State where
  /-- The revision the checkout was last moved to. -/
  checkout : String
  /-- The checkout was moved, and phase 2 has not finished since. -/
  phaseTwoOwed : Bool
  pendingUpdate : Option PendingUpdate
  /-- How many records were begun; the last one is the current update. -/
  updates : ℕ
  /-- The names under which stashes were pushed. -/
  pushed : List String
  /-- The stash names that were told to the operator. -/
  reported : List String
  /-- The stash names that records have named. -/
  recorded : List String
  /-- The stash names that were restored or declined. -/
  settled : List String
  /-- The stashes that were applied, with the update that did. -/
  applied : List (ℕ × String)
  /-- A `start` has brought the platform up while phase 2 was owed. -/
  startedHalfUpdated : Bool
  deriving DecidableEq, Repr

/-- A call of a program. `git stash apply` is sent the commit alone. -/
inductive Op
  | readInstallMetadata
  | readPendingUpdate
  | runStop
  | fetch
  | readPackageVersion
  | listTags
  | readChangelog (target : String)
  | acknowledge (interactive : Bool)
  | loadPlatformEnvFile
  | pgDump
  | gitStatus
  | gitReset
  | now
  | report (stashName : String)
  | stashPush (stashName : String)
  | revParseStash
  | evePinAtRevision (revision : String)
  | writeTemp (record : PendingUpdate)
  | renameTemp (record : PendingUpdate)
  | disarmHostUnits
  | checkout (target : String)
  | confirmRestore (interactive : Bool) (stashName : String)
  | stashList
  | stashApply (stashName sha : String)
  | stashDrop (index : String)
  | install
  | finishUpdate (fromVersion : String) (backupPath : Option String)
  | removePendingUpdate
  | pruneBackups (keep : ℕ)
  | startPlatform

/-- What a call answers. -/
abbrev Ans : Op → Type
  | .readInstallMetadata | .loadPlatformEnvFile => Bool
  | .acknowledge _ | .confirmRestore .. => Bool
  | .readPendingUpdate => Option PendingUpdate
  | .runStop | .pgDump | .install | .finishUpdate .. => Option ℤ
  | .readPackageVersion => String
  | .evePinAtRevision _ => Option String
  | .readChangelog _ => Option Bool
  | .now => ℕ
  | .fetch | .listTags | .gitStatus | .gitReset | .stashPush _ | .revParseStash => CommandResult
  | .checkout _ | .stashList | .stashApply .. | .stashDrop _ => CommandResult
  | .report _ | .writeTemp _ | .renameTemp _ | .disarmHostUnits | .removePendingUpdate => Unit
  | .pruneBackups _ | .startPlatform => Unit

/-- What the environment decides of a call: how a command ends and whether it took effect
nevertheless, what is answered to a question, whether a file can be read, and the clock. -/
structure Choice where
  result : CommandResult
  takesEffect : Bool
  agrees : Bool
  readable : Bool
  clock : ℕ

namespace State

variable (s : State)

/-- `git stash push`. -/
def push (choice : Choice) (stashName : String) : State :=
  if choice.takesEffect then { s with pushed := stashName :: s.pushed } else s

/-- `git checkout`. -/
def moveTo (choice : Choice) (target : String) : State :=
  if choice.takesEffect then { s with checkout := target, phaseTwoOwed := true } else s

/-- `rename` of the temp file into place. A record that is written where there was none begins
an update. -/
def record (pending : PendingUpdate) : State :=
  { s with
    pendingUpdate := some pending
    updates := if s.pendingUpdate.isNone then s.updates + 1 else s.updates
    recorded := pending.stashName.toList ++ s.recorded }

/-- `git stash apply`. One that does not answer 0 is for the operator to resolve or discard,
and the stash is offered again. -/
def applyStash (choice : Choice) (stashName sha : String) : State :=
  if choice.result.code = some 0 then
    { s with
      applied := (s.updates, sha) :: s.applied
      settled := stashName :: s.settled }
  else s

def settle (stashName : String) : State := { s with settled := stashName :: s.settled }

end State

/-- `confirm`, whose default is no. -/
def Choice.confirms (choice : Choice) (interactive : Bool) : Bool := interactive && choice.agrees

/-- What a call does to the durable state, and its answer. A record that cannot be read counts
as none. -/
def perform (s : State) (op : Op) (choice : Choice) : Option (State × Ans op) :=
  match op with
  | .readInstallMetadata => some (s, choice.readable)
  | .loadPlatformEnvFile => some (s, choice.readable)
  | .readPendingUpdate => some (s, if choice.readable then s.pendingUpdate else none)
  | .runStop => some (s, choice.result.code)
  | .fetch => some (s, choice.result)
  | .readPackageVersion => some (s, choice.result.output)
  | .listTags => some (s, choice.result)
  | .readChangelog _ =>
      some (s, if choice.result.code = some 0 then some choice.takesEffect else none)
  | .acknowledge interactive => some (s, choice.confirms interactive)
  | .pgDump => some (s, choice.result.code)
  | .gitStatus => some (s, choice.result)
  | .gitReset => some (s, choice.result)
  | .now => some (s, choice.clock)
  | .report stashName => some ({ s with reported := stashName :: s.reported }, ())
  | .stashPush stashName => some (s.push choice stashName, choice.result)
  | .revParseStash => some (s, choice.result)
  | .evePinAtRevision _ =>
      some (s, if choice.result.code = some 0 then some choice.result.output else none)
  | .writeTemp _ => some (s, ())
  | .renameTemp pending => some (s.record pending, ())
  | .disarmHostUnits => some (s, ())
  | .checkout target => some (s.moveTo choice target, choice.result)
  | .confirmRestore interactive stashName =>
      some (if choice.confirms interactive then s else s.settle stashName,
        choice.confirms interactive)
  | .stashList => some (s, choice.result)
  | .stashApply stashName sha => some (s.applyStash choice stashName sha, choice.result)
  | .stashDrop _ => some (s, choice.result)
  | .install => some (s, choice.result.code)
  | .finishUpdate _ _ =>
      some (if choice.result.code = some 0 then { s with phaseTwoOwed := false } else s,
        choice.result.code)
  | .removePendingUpdate => some ({ s with pendingUpdate := none }, ())
  | .pruneBackups _ => some (s, ())
  | .startPlatform =>
      some ({ s with startedHalfUpdated := s.startedHalfUpdated || s.phaseTwoOwed }, ())

/-! ## Programs -/

/-- What a run of the control program does. -/
abbrev Prog := Program Op Ans

/-- `UpdateContext`, as far as a run goes by it. -/
structure UpdateContext where
  interactive : Bool
  keepBackups : ℕ

/-- `writePendingUpdate`: the record is written to a temp file, which is then renamed. -/
def writePendingUpdate (record : PendingUpdate) (next : Prog) : Prog :=
  .call (.writeTemp record) fun _ => .call (.renameTemp record) fun _ => next

/-- The end of `completeUpdate`: dependencies, phase 2, and then the record goes. -/
def handOver (context : UpdateContext) (pending : PendingUpdate) : Prog :=
  .call .install fun install =>
    if install ≠ some 0 then .done
    else .call (.finishUpdate pending.fromVersion pending.backupPath) fun finish =>
      if finish ≠ some 0 then .done
      else .call (.evePinAtRevision pending.target) fun _ =>
        .call .removePendingUpdate fun _ =>
        .call (.pruneBackups context.keepBackups) fun _ => .done

/-- `restoreStash`, with what its caller makes of the result. What `git stash drop` answers is
not looked at. -/
def restoreStash (context : UpdateContext) (pending : PendingUpdate) (stashName : String) :
    Prog :=
  .call .stashList fun list =>
    match findStash pending.stashRef stashName list.output with
    | none => .call (.report stashName) fun _ => .done
    | some entry =>
        .call (.stashApply stashName entry.sha) fun apply =>
          if apply.code ≠ some 0 then .call (.report stashName) fun _ => .done
          else .call (.stashDrop entry.index) fun _ =>
            writePendingUpdate { pending with stashRestored := true }
              (handOver context { pending with stashRestored := true })

/-- `completeUpdate`. -/
def completeUpdate (context : UpdateContext) (pending : PendingUpdate) : Prog :=
  .call .disarmHostUnits fun _ =>
  .call (.checkout pending.target) fun checkout =>
    if checkout.code ≠ some 0 then .done
    else
      match pending.stashName with
      | none => handOver context pending
      | some stashName =>
          if pending.stashRestored then handOver context pending
          else .call (.confirmRestore context.interactive stashName) fun restore =>
            if restore then restoreStash context pending stashName
            else .call (.report stashName) fun _ => handOver context pending

/-- The end of a fresh update: the record of it is begun. -/
def beginUpdate (context : UpdateContext) (currentVersion target : String)
    (backupPath stashName stashRef : Option String) : Prog :=
  .call (.evePinAtRevision "HEAD") fun evePinBefore =>
  .call .now fun startedAt =>
    let pendingRecord : PendingUpdate :=
      { fromVersion := currentVersion, target, backupPath, stashName, stashRef, evePinBefore
        stashRestored := false, startedAt }
    writePendingUpdate pendingRecord (completeUpdate context pendingRecord)

/-- A fresh update sets local changes aside, in a stash that is told to the operator first. -/
def stashChanges (context : UpdateContext) (currentVersion target : String)
    (backupPath : Option String) : Prog :=
  .call .now fun now =>
    let stashName := "eveland-ctl-update-" ++ toString now
    .call (.report stashName) fun _ =>
    .call (.stashPush stashName) fun stash =>
      if stash.code ≠ some 0 then .done
      else .call .revParseStash fun ref =>
        beginUpdate context currentVersion target backupPath (some stashName) (parseStashRef ref)

/-- A fresh update once the backup is made: the platform stops, and local changes are set
aside. -/
def stopAndStash (context : UpdateContext) (currentVersion target : String)
    (backupPath : Option String) : Prog :=
  .call .runStop fun stopCode =>
    if stopCode ≠ some 0 then .done
    else .call .gitStatus fun status =>
      if dirtyLines status.output = [] then
        beginUpdate context currentVersion target backupPath none none
      else if (dirtyLines status.output).any isUnmerged then
        .call .gitReset fun _ => stashChanges context currentVersion target backupPath
      else stashChanges context currentVersion target backupPath

/-- A fresh update once it is acknowledged: the backup. -/
def backUp (context : UpdateContext) (args : UpdateArgs) (currentVersion target : String) :
    Prog :=
  .call .loadPlatformEnvFile fun envFile =>
    if !envFile then .done
    else if args.skipBackup then stopAndStash context currentVersion target none
    else .call .now fun stamp =>
      .call .pgDump fun dump =>
        if dump ≠ some 0 then .done
        else stopAndStash context currentVersion target
          (some ("eveland-v" ++ currentVersion ++ "-" ++ toString stamp ++ ".sql"))

/-- `acknowledgeBreakingChanges`. A changelog that cannot be read is asked about, and so is one
that has breaking changes. -/
def acknowledgeBreakingChanges (context : UpdateContext) (yes : Bool) (target : String)
    (next : Bool → Prog) : Prog :=
  .call (.readChangelog target) fun breaking =>
    if breaking = some false || yes then next true
    else .call (.acknowledge context.interactive) next

/-- The target: the version that was asked for, or else the newest stable tag. -/
def chooseTarget (args : UpdateArgs) (next : Option String → Prog) : Prog :=
  match args.version with
  | some version => next (some version)
  | none => .call .listTags fun tags => next (newestStableTag tags.output)

/-- `runUpdateLocked` where no update is pending. -/
def freshUpdate (context : UpdateContext) (args : UpdateArgs) : Prog :=
  .call .fetch fun fetch =>
    if fetch.code ≠ some 0 then .done
    else .call .readPackageVersion fun currentVersion =>
      chooseTarget args fun
        | none => .done
        | some target =>
            if target = "v" ++ currentVersion then .done
            else if !isForwardMove currentVersion target then .done
            else acknowledgeBreakingChanges context args.yes target fun acknowledged =>
              if acknowledged then backUp context args currentVersion target else .done

/-- `runUpdateLocked`. An interrupted update comes first. -/
def runUpdateLocked (args : UpdateArgs) : Prog :=
  match parseKeepBackups args.keepBackups with
  | none => .done
  | some keepBackups =>
      let context : UpdateContext := { interactive := !args.noPrompt, keepBackups }
      .call .readInstallMetadata fun metadata =>
        if !metadata then .done
        else .call .readPendingUpdate fun
          | some pending => .call .runStop fun stopCode =>
              if stopCode ≠ some 0 then .done else completeUpdate context pending
          | none => freshUpdate context args

/-- `runStart`, under the same lock. -/
def runStart : Prog :=
  .call .readPendingUpdate fun
    | some _ => .done
    | none => .call .startPlatform fun _ => .done

/-- A run of the control program. -/
inductive Command
  | update (args : UpdateArgs)
  | start
  deriving DecidableEq, Repr

/-- The control program, which runs one command at a time. -/
def ctl : Resumer State Command Op Ans Choice where
  perform := perform
  program
    | .update args => runUpdateLocked args
    | .start => runStart

/-- No update has been begun yet. -/
structure Fresh (s : State) : Prop where
  phaseTwoOwed : s.phaseTwoOwed = false
  pendingUpdate : s.pendingUpdate = none
  pushed : s.pushed = []
  recorded : s.recorded = []
  applied : s.applied = []
  startedHalfUpdated : s.startedHalfUpdated = false

end Eveland.CtlUpdate
