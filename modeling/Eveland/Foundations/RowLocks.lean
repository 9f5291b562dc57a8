/-
# Row locks held by sessions

A session is a transaction or a statement in progress, and `holds` says which rows it has
locked. A row is locked by one session at most: a session that comes to a locked row waits. The
module has the rules by which sessions that begin, move on, lock a row or end keep the locks
exclusive.
-/

import Mathlib.Data.List.Basic

universe u v

namespace RowLocks

variable {σ : Type u} {κ : Type v}

/-- No two sessions hold one row. -/
def Exclusive (holds : σ → κ → Prop) (sessions : List σ) : Prop :=
  ∀ (i j : ℕ) (first second : σ) (key : κ), sessions[i]? = some first →
    sessions[j]? = some second → holds first key → holds second key → i = j

/-- No session holds the row. -/
def Free (holds : σ → κ → Prop) (sessions : List σ) (key : κ) : Prop :=
  ∀ session ∈ sessions, ¬holds session key

/-- A session after one of them was replaced: the new one, or another one as it was. -/
theorem getElem?_set_cases {sessions : List σ} {i j : ℕ} {new other : σ}
    (hother : (sessions.set i new)[j]? = some other) :
    (i = j ∧ other = new) ∨ (i ≠ j ∧ sessions[j]? = some other) := by
  rw [List.getElem?_set] at hother
  split at hother
  · next hij =>
      split at hother
      · exact Or.inl ⟨hij, (Option.some.inj hother).symm⟩
      · cases hother
  · next hij => exact Or.inr ⟨hij, hother⟩

/-- A session after a new one has begun. -/
theorem getElem?_append_cases {sessions : List σ} {j : ℕ} {new other : σ}
    (hother : (sessions ++ [new])[j]? = some other) :
    sessions[j]? = some other ∨ (j = sessions.length ∧ other = new) := by
  rw [List.getElem?_append] at hother
  split at hother
  · exact Or.inl hother
  · next hlt =>
      have hmem := List.mem_of_getElem? hother
      have hlength := (List.getElem?_eq_some_iff.mp hother).1
      rw [List.length_singleton] at hlength
      exact Or.inr ⟨by omega, List.mem_singleton.mp hmem⟩

variable {holds : σ → κ → Prop} {sessions : List σ} {i : ℕ} {old new : σ}

theorem Exclusive.nil : Exclusive holds [] := by
  intro i j first second key hi
  cases hi

/-- A session that begins holds nothing. -/
theorem Exclusive.append (hexclusive : Exclusive holds sessions) (hnew : ∀ key, ¬holds new key) :
    Exclusive holds (sessions ++ [new]) := by
  intro i j first second key hi hj hfirst hsecond
  obtain hi | ⟨-, rfl⟩ := getElem?_append_cases hi
  · obtain hj | ⟨-, rfl⟩ := getElem?_append_cases hj
    · exact hexclusive i j first second key hi hj hfirst hsecond
    · exact absurd hsecond (hnew key)
  · exact absurd hfirst (hnew key)

/-- A session moves on. What it comes to hold, no other session holds. -/
theorem Exclusive.set (hexclusive : Exclusive holds sessions)
    (hnew : ∀ key, holds new key →
      ∀ j other, sessions[j]? = some other → holds other key → i = j) :
    Exclusive holds (sessions.set i new) := by
  intro j k first second key hj hk hfirst hsecond
  obtain ⟨hij, rfl⟩ | ⟨-, hfirstAt⟩ := getElem?_set_cases hj
  · obtain ⟨hik, rfl⟩ | ⟨-, hsecondAt⟩ := getElem?_set_cases hk
    · exact hij.symm.trans hik
    · exact hij.symm.trans (hnew key hfirst k second hsecondAt hsecond)
  · obtain ⟨hik, rfl⟩ | ⟨-, hsecondAt⟩ := getElem?_set_cases hk
    · exact (hnew key hsecond j first hfirstAt hfirst).symm.trans hik
    · exact hexclusive j k first second key hfirstAt hsecondAt hfirst hsecond

/-- A session that comes to hold nothing more keeps the locks exclusive. -/
theorem Exclusive.set_of_holds (hexclusive : Exclusive holds sessions)
    (hi : sessions[i]? = some old) (hholds : ∀ key, holds new key → holds old key) :
    Exclusive holds (sessions.set i new) :=
  hexclusive.set fun key hkey j other hj hother =>
    hexclusive i j old other key hi hj (hholds key hkey) hother

/-- A session may lock a free row. -/
theorem Exclusive.set_of_free (hexclusive : Exclusive holds sessions)
    (hi : sessions[i]? = some old) {locked : κ} (hfree : Free holds sessions locked)
    (hholds : ∀ key, holds new key → holds old key ∨ key = locked) :
    Exclusive holds (sessions.set i new) := by
  apply hexclusive.set
  intro key hkey j other hj hother
  obtain hold | rfl := hholds key hkey
  · exact hexclusive i j old other key hi hj hold hother
  · exact absurd hother (hfree other (List.mem_of_getElem? hj))

end RowLocks
