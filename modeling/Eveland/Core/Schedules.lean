/-
# Cron expressions and schedule definitions

The cron library is a third-party package, so it is a parameter: whether it
accepts an expression, and the next tick after an instant. The one thing the code
relies on, that the next tick lies strictly after the instant, is a field of the
parameter, and it is what makes the advance loop terminate. Instants are integers:
milliseconds since the epoch, as a `Date` counts them.
-/

import Mathlib.Data.Int.Notation
import Mathlib.Tactic.Common
import Eveland.Core.JsString

namespace Eveland

/-- `CronExpressionParser` in UTC. -/
structure CronLibrary where
  /-- `parse` accepts the expression. -/
  parses : String → Bool
  /-- `parse(cron, { currentDate, tz: "UTC" }).next().toDate()`, or `none` where it throws. -/
  next : String → ℤ → Option ℤ
  /-- The next tick is strictly later than the instant it is asked for. -/
  next_gt : ∀ {cron : String} {now tick : ℤ}, next cron now = some tick → now < tick

/-- `validateFiveFieldCron`. -/
def validateFiveFieldCron (lib : CronLibrary) (cron : String) : Except String Unit :=
  if (JsString.splitRuns JsString.isWhitespace (JsString.trim cron.toList)).length ≠ 5 then
    .error s!"Eve schedules require a standard cron expression with exactly five fields: {cron}"
  else if lib.parses cron then .ok ()
  else .error s!"Invalid Eve schedule cron expression {cron}"

/-- `getNextRunAt`; `none` where the source throws. -/
def getNextRunAt (lib : CronLibrary) (cron : String) (currentDate : ℤ) :
    Option ℤ :=
  match validateFiveFieldCron lib cron with
  | .ok () => lib.next cron currentDate
  | .error _ => none

theorem getNextRunAt_gt {lib : CronLibrary} {cron : String} {now tick : ℤ}
    (h : getNextRunAt lib cron now = some tick) : now < tick := by
  unfold getNextRunAt at h
  split at h
  · exact lib.next_gt h
  · cases h

/-- What `calculateScheduleAdvance` returns. -/
structure ScheduleAdvance where
  nextRunAt : ℤ
  missedTicks : ℕ
  deriving DecidableEq, Repr

/-- The `while (nextRunAt <= now)` loop; `none` where `getNextRunAt` throws inside it.
Each turn moves `nextRunAt` by at least one millisecond, so the distance to `now`
bounds the number of turns. -/
def advanceLoop (lib : CronLibrary) (cron : String) (now : ℤ) :
    ℕ → ℤ → ℕ → Option ScheduleAdvance
  | 0, _, _ => none
  | fuel + 1, nextRunAt, missedTicks =>
      if nextRunAt ≤ now then
        match getNextRunAt lib cron nextRunAt with
        | some tick => advanceLoop lib cron now fuel tick (missedTicks + 1)
        | none => none
      else some ⟨nextRunAt, missedTicks⟩

/-- `calculateScheduleAdvance`: the first tick after `now`, and how many ticks after
`dueAt` were passed over on the way. -/
def calculateScheduleAdvance (lib : CronLibrary) (cron : String) (dueAt now : ℤ) :
    Option ScheduleAdvance :=
  match getNextRunAt lib cron dueAt with
  | some tick => advanceLoop lib cron now ((now - tick).toNat + 2) tick 0
  | none => none

/-- The loop only stops past `now`. -/
theorem advanceLoop_gt {lib : CronLibrary} {cron : String} {now : ℤ} {fuel : ℕ}
    {start : ℤ} {missed : ℕ} {advance : ScheduleAdvance}
    (h : advanceLoop lib cron now fuel start missed = some advance) :
    now < advance.nextRunAt := by
  induction fuel generalizing start missed with
  | zero => cases h
  | succ fuel ih =>
      unfold advanceLoop at h
      split at h
      · split at h
        · exact ih h
        · cases h
      · next hpast =>
          simp only [Option.some.injEq] at h
          subst h
          exact Int.not_le.mp hpast

/-- The advance moves the schedule past `now`. -/
theorem calculateScheduleAdvance_gt {lib : CronLibrary} {cron : String}
    {dueAt now : ℤ} {advance : ScheduleAdvance}
    (h : calculateScheduleAdvance lib cron dueAt now = some advance) :
    now < advance.nextRunAt := by
  unfold calculateScheduleAdvance at h
  split at h
  · exact advanceLoop_gt h
  · cases h

/-- The turns allowed to the loop suffice: more turns never change its result, so a
missing result always comes from the library. -/
theorem advanceLoop_fuel (lib : CronLibrary) (cron : String) (now : ℤ) (extra : ℕ) :
    ∀ (fuel : ℕ) (start : ℤ) (missed : ℕ), (now - start).toNat + 1 < fuel →
      advanceLoop lib cron now (fuel + extra) start missed =
        advanceLoop lib cron now fuel start missed := by
  intro fuel
  induction fuel with
  | zero => intro start missed hfuel; omega
  | succ fuel ih =>
      intro start missed hfuel
      rw [show fuel + 1 + extra = (fuel + extra) + 1 by omega, advanceLoop, advanceLoop]
      split
      · cases htick : getNextRunAt lib cron start with
        | none => rfl
        | some tick =>
            have hgt := getNextRunAt_gt htick
            by_cases hdone : tick ≤ now
            · exact ih tick (missed + 1) (by omega)
            · -- One more turn is enough to leave the loop, and one is always left.
              obtain ⟨fuel, rfl⟩ : ∃ k, fuel = k + 1 := ⟨fuel - 1, by omega⟩
              rw [show fuel + 1 + extra = (fuel + extra) + 1 by omega]
              simp [advanceLoop, hdone]
      · rfl

/-- How a schedule is written: a prompt or a program. -/
inductive ScheduleKind
  | markdown
  | module
  deriving DecidableEq, Repr

/-- A schedule as a Release defines it. -/
structure ScheduleDefinition where
  key : String
  kind : ScheduleKind
  cron : String
  sourcePath : String
  definitionHash : String
  deriving DecidableEq, Repr

/-- A path whose segments are non-empty and none of them `.` or `..`. -/
def hasPlainSegments (cs : List Char) : Bool :=
  (JsString.splitAt '/' cs).all fun segment =>
    !(segment == [] || segment == ['.'] || segment == ['.', '.'])

/-- `validateReleaseRelativePath`. -/
def validateReleaseRelativePath (value label : String) : Except String Unit :=
  let cs := value.toList
  if cs == [] || cs.head? == some '/' || cs.contains '\\' || !hasPlainSegments cs then
    .error s!"Schedule definition {label} must be a normalized Release-relative path."
  else .ok ()

/-- `/^[a-f0-9]{64}$/i`. -/
def isSha256Digest (value : String) : Bool :=
  value.toList.length == 64 && value.toList.all fun c =>
    (48 ≤ c.toNat && c.toNat ≤ 57) || (97 ≤ c.toNat && c.toNat ≤ 102) ||
      (65 ≤ c.toNat && c.toNat ≤ 70)

/-- `validateScheduleDefinitionFields`. -/
def validateScheduleDefinitionFields (lib : CronLibrary) (input : ScheduleDefinition) :
    Except String Unit := do
  let key := input.key.toList
  if key == [] || JsString.trim key != key || key.contains '\\' || !hasPlainSegments key then
    throw "Schedule definition key must be a normalized non-empty key."
  validateFiveFieldCron lib input.cron
  validateReleaseRelativePath input.sourcePath "source path"
  if !("agent/schedules/".toList.isPrefixOf input.sourcePath.toList) &&
      !("agent/extensions/".toList.isPrefixOf input.sourcePath.toList) then
    throw "Schedule definition source path must identify a platform schedule slot."
  if !isSha256Digest input.definitionHash then
    throw "Schedule definition hash must be a SHA-256 digest."

end Eveland
