/-
# Slots whose contents carry a counter

A slot holds one value at a time, and a counter that every write of the slot is meant to raise:
a writer that reads the slot and comes back later writes only if the counter is still the one it
has read. That identifies the value it has read as long as the counter never starts again; a
write that restarts it makes an old reading current again. The module keeps the history that the
counter forgets, and says what a counter that is found unchanged does prove.
-/

import Mathlib.Data.Nat.Notation
import Mathlib.Tactic.Common

namespace Slots

/-- A value that was put into a slot: the number of the write that put it there, the number of
the last write that had restarted the counter, and the counter. -/
@[ext]
structure Version where
  stamp : ℕ
  epoch : ℕ
  counter : ℕ
  deriving DecidableEq

/-- A slot: how often it was written, and what it holds. -/
@[ext]
structure Slot where
  writes : ℕ
  current : Option Version
  deriving DecidableEq

namespace Slot

/-- A slot that was never written. -/
def empty : Slot := ⟨0, none⟩

/-- A write that restarts the counter. -/
def restart (slot : Slot) : Slot :=
  ⟨slot.writes + 1, some ⟨slot.writes + 1, slot.writes + 1, 0⟩⟩

/-- A write that raises the counter of what the slot holds. -/
def raise (slot : Slot) : Slot :=
  ⟨slot.writes + 1, slot.current.map fun held => ⟨slot.writes + 1, held.epoch, held.counter + 1⟩⟩

/-- What the slot holds is removed. -/
def clear (slot : Slot) : Slot := { slot with current := none }

@[simp]
theorem restart_current (slot : Slot) :
    slot.restart.current = some ⟨slot.writes + 1, slot.writes + 1, 0⟩ := rfl

@[simp]
theorem raise_current (slot : Slot) : slot.raise.current =
    slot.current.map fun held => ⟨slot.writes + 1, held.epoch, held.counter + 1⟩ := rfl

@[simp]
theorem clear_current (slot : Slot) : slot.clear.current = none := rfl

/-- A version that the slot holds or has held: it is not from the future, and what the slot holds
now continues its count or belongs to another epoch. -/
structure Knows (slot : Slot) (version : Version) : Prop where
  stamp_le : version.stamp ≤ slot.writes
  epoch_le : version.epoch ≤ slot.writes
  continued : ∀ held ∈ slot.current, held.epoch = version.epoch →
    held = version ∨ version.counter < held.counter

/-- What the slot holds is one of the versions it knows. -/
def Sound (slot : Slot) : Prop := ∀ held ∈ slot.current, slot.Knows held

theorem empty_sound : empty.Sound := by
  intro held hheld
  cases hheld

theorem Sound.restart {slot : Slot} : slot.restart.Sound := by
  intro held hheld
  cases hheld
  refine ⟨Nat.le_refl _, Nat.le_refl _, ?_⟩
  intro other hother _
  cases hother
  exact Or.inl rfl

theorem Sound.raise {slot : Slot} (hsound : slot.Sound) : slot.raise.Sound := by
  intro held hheld
  rw [raise_current, Option.mem_def, Option.map_eq_some_iff] at hheld
  obtain ⟨before, hbefore, rfl⟩ := hheld
  refine ⟨Nat.le_refl _, Nat.le_succ_of_le (hsound before hbefore).epoch_le, ?_⟩
  intro other hother _
  rw [raise_current, hbefore] at hother
  cases hother
  exact Or.inl rfl

theorem Sound.clear {slot : Slot} : slot.clear.Sound := by
  intro held hheld
  cases hheld

namespace Knows

variable {slot : Slot} {version : Version}

theorem restart (hknows : slot.Knows version) : slot.restart.Knows version where
  stamp_le := Nat.le_succ_of_le hknows.stamp_le
  epoch_le := Nat.le_succ_of_le hknows.epoch_le
  continued := by
    intro held hheld hepoch
    cases hheld
    have hold : version.epoch ≤ slot.writes := hknows.epoch_le
    have hnew : slot.writes + 1 = version.epoch := hepoch
    omega

theorem raise (hknows : slot.Knows version) : slot.raise.Knows version where
  stamp_le := Nat.le_succ_of_le hknows.stamp_le
  epoch_le := Nat.le_succ_of_le hknows.epoch_le
  continued := by
    intro held hheld hepoch
    rw [raise_current, Option.mem_def, Option.map_eq_some_iff] at hheld
    obtain ⟨before, hbefore, rfl⟩ := hheld
    right
    rcases hknows.continued before hbefore hepoch with rfl | hlt
    · exact Nat.lt_succ_self _
    · exact Nat.lt_succ_of_lt hlt

theorem clear (hknows : slot.Knows version) : slot.clear.Knows version where
  stamp_le := hknows.stamp_le
  epoch_le := hknows.epoch_le
  continued := by
    intro held hheld
    cases hheld

/-- **An unchanged counter.** In one epoch a counter that is found unchanged proves that the
value is unchanged. -/
theorem eq_of_counter {held : Version} (hknows : slot.Knows version) (hheld : slot.current = some held)
    (hepoch : held.epoch = version.epoch) (hcounter : held.counter = version.counter) :
    held = version := by
  rcases hknows.continued held hheld hepoch with heq | hlt
  · exact heq
  · omega

end Knows

end Slot

end Slots
