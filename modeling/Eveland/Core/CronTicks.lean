/-
# The advance counts every tick

The cron library knows the ticks of an expression by the least one after an instant. The advance
walks from tick to tick until it is past `now`, so it stops at the least tick after `now` and has
passed each tick in between once.
-/

import Mathlib.Data.Int.Interval
import Mathlib.Data.Set.Card
import Mathlib.Order.Bounds.Basic
import Mathlib.Order.Interval.Finset.Defs
import Eveland.Core.Schedules

namespace Eveland

/-- The instants at which an expression ticks: the library answers with the least tick after an
instant, and throws where there is none. -/
structure IsTicks (lib : CronLibrary) (cron : String) (ticks : Set ℤ) : Prop where
  least : ∀ {now tick : ℤ}, lib.next cron now = some tick → IsLeast {t | t ∈ ticks ∧ now < t} tick
  none_later : ∀ {now : ℤ}, lib.next cron now = none → ∀ t ∈ ticks, t ≤ now

/-- The ticks after one instant up to another. -/
def ticksBetween (ticks : Set ℤ) (after upTo : ℤ) : Set ℤ := {t | t ∈ ticks ∧ after < t ∧ t ≤ upTo}

variable {lib : CronLibrary} {cron : String} {ticks : Set ℤ} {after upTo start now : ℤ}

theorem ticksBetween_finite : (ticksBetween ticks after upTo).Finite :=
  (Set.finite_Ioc after upTo).subset fun _ ht => ht.2

/-- Where the least tick after an instant is late, there is none before it. -/
theorem ticksBetween_of_late (hleast : IsLeast {t | t ∈ ticks ∧ after < t} start)
    (hlate : upTo < start) : ticksBetween ticks after upTo = ∅ := by
  ext t
  simp only [ticksBetween, Set.mem_ofPred_eq, Set.mem_empty_iff_false, iff_false]
  rintro ⟨htick, hafter, hupTo⟩
  have hstart := hleast.2 ⟨htick, hafter⟩
  omega

/-- The least tick after an instant, and those after it. -/
theorem ticksBetween_of_due (hleast : IsLeast {t | t ∈ ticks ∧ after < t} start)
    (hdue : start ≤ upTo) :
    ticksBetween ticks after upTo = insert start (ticksBetween ticks start upTo) := by
  obtain ⟨⟨hstart, hafter⟩, hleast⟩ := hleast
  ext t
  simp only [ticksBetween, Set.mem_ofPred_eq, Set.mem_insert_iff]
  constructor
  · rintro ⟨htick, hlater, hupTo⟩
    have hle := hleast ⟨htick, hlater⟩
    rcases hle.eq_or_lt with hsame | hlt
    · exact Or.inl hsame.symm
    · exact Or.inr ⟨htick, hlt, hupTo⟩
  · rintro (rfl | ⟨htick, hlater, hupTo⟩)
    · exact ⟨hstart, hafter, hdue⟩
    · exact ⟨htick, hafter.trans hlater, hupTo⟩

theorem ncard_ticksBetween_of_due (hleast : IsLeast {t | t ∈ ticks ∧ after < t} start)
    (hdue : start ≤ upTo) :
    (ticksBetween ticks after upTo).ncard = (ticksBetween ticks start upTo).ncard + 1 := by
  rw [ticksBetween_of_due hleast hdue, Set.ncard_insert_of_notMem _ ticksBetween_finite]
  intro hmem
  exact absurd hmem.2.1 (lt_irrefl start)

/-- A tick that is late is the least one after `now` too. -/
theorem isLeast_of_late (hleast : IsLeast {t | t ∈ ticks ∧ after < t} start) (hafter : after ≤ now)
    (hlate : now < start) : IsLeast {t | t ∈ ticks ∧ now < t} start :=
  ⟨⟨hleast.1.1, hlate⟩, fun _ ht => hleast.2 ⟨ht.1, hafter.trans_lt ht.2⟩⟩

/-- What an advance past `now` from an instant has to be. -/
structure IsAdvance (ticks : Set ℤ) (after now : ℤ) (advance : ScheduleAdvance) : Prop where
  nextRunAt : IsLeast {t | t ∈ ticks ∧ now < t} advance.nextRunAt
  missedTicks : (ticksBetween ticks after now).ncard = advance.missedTicks

/-- The library's answer, for an expression that it accepts. -/
theorem getNextRunAt_of_valid (hvalid : validateFiveFieldCron lib cron = .ok ()) :
    getNextRunAt lib cron now = lib.next cron now := by
  rw [getNextRunAt, hvalid]

/-- The loop, from the least tick after an instant: by induction over the turns that are left. -/
theorem advanceLoop_exact (hticks : IsTicks lib cron ticks)
    (hvalid : validateFiveFieldCron lib cron = .ok ()) (fuel missed : ℕ)
    (hfuel : (now + 1 - start).toNat < fuel)
    (hleast : IsLeast {t | t ∈ ticks ∧ after < t} start) (hafter : after ≤ now) :
    match advanceLoop lib cron now fuel start missed with
    | some advance => IsLeast {t | t ∈ ticks ∧ now < t} advance.nextRunAt ∧
        missed + (ticksBetween ticks after now).ncard = advance.missedTicks
    | none => ∀ t ∈ ticks, t ≤ now := by
  induction fuel generalizing start after missed with
  | zero => omega
  | succ fuel ih =>
      rw [advanceLoop]
      by_cases hdue : start ≤ now
      · rw [if_pos hdue, getNextRunAt_of_valid hvalid]
        cases hnext : lib.next cron start with
        | none => exact fun t ht => (hticks.none_later hnext t ht).trans hdue
        | some tick =>
            have hgt := lib.next_gt hnext
            have hrest := ih (missed + 1) (by omega) (hticks.least hnext) hdue
            dsimp only
            rw [ncard_ticksBetween_of_due hleast hdue]
            cases hloop : advanceLoop lib cron now fuel tick (missed + 1) with
            | none =>
                rw [hloop] at hrest
                exact hrest
            | some advance =>
                rw [hloop] at hrest
                exact ⟨hrest.1, by have hcount := hrest.2; omega⟩
      · rw [if_neg hdue, ticksBetween_of_late hleast (not_le.mp hdue)]
        exact ⟨isLeast_of_late hleast hafter (not_le.mp hdue), by simp⟩

/-- **The advance is exact.** From an instant that is not after `now`, the advance ends at the least
tick after `now` and has counted the ticks in between. Nothing is returned only where the
expression is refused or no tick is left. -/
theorem calculateScheduleAdvance_exact (lib : CronLibrary) (cron : String) (ticks : Set ℤ)
    (hticks : IsTicks lib cron ticks) (dueAt now : ℤ) (hdue : dueAt ≤ now) :
    match calculateScheduleAdvance lib cron dueAt now with
    | some advance => IsAdvance ticks dueAt now advance
    | none => validateFiveFieldCron lib cron ≠ .ok () ∨ ∀ t ∈ ticks, t ≤ now := by
  rw [calculateScheduleAdvance]
  cases hvalid : validateFiveFieldCron lib cron with
  | error message =>
      rw [getNextRunAt, hvalid]
      exact Or.inl (by simp)
  | ok accepted =>
      rw [getNextRunAt_of_valid hvalid]
      cases hnext : lib.next cron dueAt with
      | none => exact Or.inr fun t ht => (hticks.none_later hnext t ht).trans hdue
      | some tick =>
          have hloop := advanceLoop_exact hticks hvalid ((now - tick).toNat + 2) 0 (by omega)
            (hticks.least hnext) hdue
          dsimp only
          cases hresult : advanceLoop lib cron now ((now - tick).toNat + 2) tick 0 with
          | none =>
              rw [hresult] at hloop
              exact Or.inr hloop
          | some advance =>
              rw [hresult] at hloop
              exact ⟨hloop.1, by have hcount := hloop.2; omega⟩

/-- A library that knows one expression, which ticks every minute. -/
def everyMinute : CronLibrary where
  parses cron := cron = "* * * * *"
  next _ now := some ((now / 60000 + 1) * 60000)
  next_gt := by
    intro cron now tick hnext
    cases hnext
    omega

theorem everyMinute_isTicks : IsTicks everyMinute "* * * * *" {t | 60000 ∣ t} where
  least := by
    intro now tick hnext
    cases hnext
    refine ⟨⟨Dvd.intro_left _ rfl, by omega⟩, ?_⟩
    rintro t ⟨⟨k, rfl⟩, hlater⟩
    omega
  none_later hnext := by cases hnext

/-- Three minutes late, the tick at `now` included. -/
theorem calculateScheduleAdvance_exact_everyMinute :
    calculateScheduleAdvance everyMinute "* * * * *" 0 180000 = some ⟨240000, 3⟩ ∧
      IsAdvance {t | 60000 ∣ t} 0 180000 ⟨240000, 3⟩ := by
  have hresult : calculateScheduleAdvance everyMinute "* * * * *" 0 180000 =
      some ⟨240000, 3⟩ := by
    decide +kernel
  have hexact := calculateScheduleAdvance_exact everyMinute "* * * * *" _ everyMinute_isTicks 0
    180000 (by decide)
  rw [hresult] at hexact
  exact ⟨hresult, hexact⟩

end Eveland
