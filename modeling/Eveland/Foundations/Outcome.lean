/-
# Computations that may throw

A call that throws is an `Except` computation, and a call inside a transaction
that throws has no effect. The lemmas take such a computation apart: where it
ends without throwing, each of its parts did.
-/

import Mathlib.Tactic.Common

universe u v w

namespace Outcome

variable {ε : Type u} {α β : Type v} {γ : Type w}

/-- A sequence of two computations ends without throwing exactly when both do. -/
theorem bind_eq_ok {x : Except ε α} {f : α → Except ε β} {b : β} :
    (x >>= f) = .ok b ↔ ∃ a, x = .ok a ∧ f a = .ok b := by
  cases x with
  | error e => simp [bind, Except.bind]
  | ok a => simp [bind, Except.bind]

theorem map_eq_ok {x : Except ε α} {f : α → β} {b : β} :
    x.map f = .ok b ↔ ∃ a, x = .ok a ∧ f a = b := by
  cases x with
  | error e => simp [Except.map]
  | ok a => simp [Except.map]

theorem toOption_eq_some {x : Except ε α} {a : α} : x.toOption = some a ↔ x = .ok a := by
  cases x with
  | error e => simp [Except.toOption]
  | ok a => simp [Except.toOption]

/-- `if (!c) throw e`. -/
def ensure (c : Bool) (e : ε) : Except ε Unit := if c then .ok () else .error e

/-- The row a query found, or `throw e` where it found none. -/
def require (x : Option α) (e : ε) : Except ε α :=
  match x with
  | some a => .ok a
  | none => .error e

@[simp]
theorem ensure_eq_ok {c : Bool} {e : ε} {u : Unit} : ensure c e = .ok u ↔ c = true := by
  cases c <;> simp [ensure]

@[simp]
theorem require_eq_ok {x : Option α} {e : ε} {a : α} : require x e = .ok a ↔ x = some a := by
  cases x <;> simp [require]

/-- `for (const x of xs) check(x)`. -/
def each (check : γ → Except ε Unit) : List γ → Except ε Unit
  | [] => .ok ()
  | x :: xs =>
      match check x with
      | .ok () => each check xs
      | .error e => .error e

theorem each_eq_ok {check : γ → Except ε Unit} {xs : List γ} {u : Unit} :
    each check xs = .ok u ↔ ∀ x ∈ xs, check x = .ok () := by
  induction xs with
  | nil => simp [each]
  | cons x xs ih =>
      cases hx : check x with
      | ok value => simp [each, hx, ih]
      | error e => simp [each, hx]

/-- A guard that throws leaves its condition false. -/
theorem guard_eq_ok {c : Prop} [Decidable c] {e : ε} {x : Except ε α} {a : α} :
    (if c then Except.error e else x) = .ok a ↔ ¬c ∧ x = .ok a := by
  by_cases hc : c <;> simp [hc]

end Outcome
