/-
# Initial segments of the natural numbers

A property of numbers is filled to `n` when the numbers below `n` have it and no others. Indices
that are handed out one after the other are filled to their number; what is put on top of them, as
a block of its own, keeps them so. The second half is about the greatest of a list of numbers,
which is how the next index is read off a table.
-/

import Mathlib.Data.List.Basic

namespace Segments

/-! ## Filled properties -/

/-- The numbers below `n`, and no others, have the property. -/
def FilledTo (p : ℕ → Prop) (n : ℕ) : Prop := ∀ i, p i ↔ i < n

theorem FilledTo.unique {p : ℕ → Prop} {m n : ℕ} (hm : FilledTo p m) (hn : FilledTo p n) :
    m = n := by
  apply Nat.le_antisymm
  · by_contra hlt
    exact absurd ((hn n).mp ((hm n).mpr (by omega))) (by omega)
  · by_contra hlt
    exact absurd ((hm m).mp ((hn m).mpr (by omega))) (by omega)

theorem FilledTo.congr {p q : ℕ → Prop} {n : ℕ} (h : FilledTo p n) (hpq : ∀ i, q i ↔ p i) :
    FilledTo q n := fun i => (hpq i).trans (h i)

theorem FilledTo.mono {p q : ℕ → Prop} {m n : ℕ} (hp : FilledTo p m) (hq : FilledTo q n)
    (hpq : ∀ i, p i → q i) : m ≤ n := by
  by_contra hlt
  exact absurd ((hq n).mp (hpq n ((hp n).mpr (by omega)))) (by omega)

theorem filledTo_zero {p : ℕ → Prop} (hp : ∀ i, ¬p i) : FilledTo p 0 :=
  fun i => ⟨fun h => absurd h (hp i), fun h => absurd h (Nat.not_lt_zero i)⟩

/-- The property that is put on top. -/
theorem FilledTo.append {p q : ℕ → Prop} {m n : ℕ} (hp : FilledTo p m) (hq : FilledTo q n) :
    FilledTo (fun i => p i ∨ ∃ j, q j ∧ i = j + m) (m + n) := by
  intro i
  constructor
  · rintro (hi | ⟨j, hj, rfl⟩)
    · have hlt := (hp i).mp hi
      omega
    · have hlt := (hq j).mp hj
      omega
  · intro hlt
    by_cases him : i < m
    · exact Or.inl ((hp i).mpr him)
    · exact Or.inr ⟨i - m, (hq (i - m)).mpr (by omega), by omega⟩

/-! ## The greatest number of a list -/

theorem foldl_max_le {values : List ℕ} {start bound : ℕ} (hstart : start ≤ bound)
    (hvalues : ∀ v ∈ values, v ≤ bound) : values.foldl max start ≤ bound := by
  induction values generalizing start with
  | nil => exact hstart
  | cons v rest ih =>
      apply ih
      · exact Nat.max_le.mpr ⟨hstart, hvalues v List.mem_cons_self⟩
      · exact fun w hw => hvalues w (List.mem_cons_of_mem v hw)

theorem start_le_foldl_max (values : List ℕ) (start : ℕ) : start ≤ values.foldl max start := by
  induction values generalizing start with
  | nil => exact Nat.le_refl start
  | cons v rest ih => exact Nat.le_trans (Nat.le_max_left start v) (ih _)

theorem le_foldl_max {values : List ℕ} {v : ℕ} (hv : v ∈ values) (start : ℕ) :
    v ≤ values.foldl max start := by
  induction values generalizing start with
  | nil => cases hv
  | cons w rest ih =>
      rcases List.mem_cons.mp hv with rfl | hrest
      · exact Nat.le_trans (Nat.le_max_right start v) (start_le_foldl_max rest _)
      · exact ih hrest _

end Segments
