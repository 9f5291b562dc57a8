/-
# Walking a path step by step

A place in a tree is the list of the names that lead to it, innermost first. A path is a list of
steps: into a name, up, or nowhere. What a path does from every place alike is read off its
reduced form, the number of steps up it comes to and the names it goes into after them.
-/

import Mathlib.Data.Nat.Notation
import Mathlib.Logic.Nontrivial.Basic

universe u

/-- One step of a path. -/
inductive PathStep (ν : Type u) where
  | here
  | up
  | into (name : ν)
  deriving DecidableEq, Repr

namespace PathStep

variable {ν : Type u}

/-- Where a step leads. There is nothing above the top. -/
def move (place : List ν) : PathStep ν → List ν
  | .here => place
  | .up => place.tail
  | .into name => name :: place

/-- Where a path leads. -/
def walk (place : List ν) (steps : List (PathStep ν)) : List ν := steps.foldl move place

/-- One place is strictly below another. -/
def StrictlyBelow (root place : List ν) : Prop := ∃ names, names ≠ [] ∧ place = names ++ root

/-! ## The reduced form -/

/-- A step after so many steps up and these names. -/
def reduceStep : ℕ × List ν → PathStep ν → ℕ × List ν
  | (ups, names), .here => (ups, names)
  | (ups, []), .up => (ups + 1, [])
  | (ups, _ :: names), .up => (ups, names)
  | (ups, names), .into name => (ups, name :: names)

/-- A path from a reduced form on. -/
def reduceFrom (form : ℕ × List ν) (steps : List (PathStep ν)) : ℕ × List ν :=
  steps.foldl reduceStep form

def reduce (steps : List (PathStep ν)) : ℕ × List ν := reduceFrom (0, []) steps

@[simp]
theorem reduceFrom_nil (form : ℕ × List ν) : reduceFrom form [] = form := rfl

@[simp]
theorem reduceFrom_cons (form : ℕ × List ν) (step : PathStep ν) (steps : List (PathStep ν)) :
    reduceFrom form (step :: steps) = reduceFrom (reduceStep form step) steps := rfl

theorem reduceFrom_append (form : ℕ × List ν) (first second : List (PathStep ν)) :
    reduceFrom form (first ++ second) = reduceFrom (reduceFrom form first) second :=
  List.foldl_append

theorem move_reduceStep (root : List ν) (form : ℕ × List ν) (step : PathStep ν) :
    move (form.2 ++ root.drop form.1) step =
      (reduceStep form step).2 ++ root.drop (reduceStep form step).1 := by
  obtain ⟨ups, names⟩ := form
  cases step with
  | here => rfl
  | into name => rfl
  | up =>
      cases names with
      | nil => simp [move, reduceStep]
      | cons name names => rfl

/-- A path of names comes to these names. -/
theorem reduceFrom_map_into (ups : ℕ) (names places : List ν) :
    reduceFrom (ups, places) (names.map .into) = (ups, names.reverse ++ places) := by
  induction names generalizing places with
  | nil => rfl
  | cons name names ih =>
      rw [List.map_cons, reduceFrom_cons, List.reverse_cons, List.append_assoc]
      exact ih (name :: places)

/-- A path does what its reduced form says. -/
theorem walk_reduceFrom (root : List ν) (form : ℕ × List ν) (steps : List (PathStep ν)) :
    walk (form.2 ++ root.drop form.1) steps =
      (reduceFrom form steps).2 ++ root.drop (reduceFrom form steps).1 := by
  induction steps generalizing form with
  | nil => rfl
  | cons step steps ih =>
      rw [reduceFrom_cons, ← ih, ← move_reduceStep]
      rfl

theorem walk_eq (root : List ν) (steps : List (PathStep ν)) :
    walk root steps = (reduce steps).2 ++ root.drop (reduce steps).1 :=
  walk_reduceFrom root (0, []) steps

/-- Steps up are not taken back. -/
theorem le_reduceFrom (form : ℕ × List ν) (steps : List (PathStep ν)) :
    form.1 ≤ (reduceFrom form steps).1 := by
  induction steps generalizing form with
  | nil => exact Nat.le_refl _
  | cons step steps ih =>
      rw [reduceFrom_cons]
      apply Nat.le_trans _ (ih _)
      obtain ⟨ups, names⟩ := form
      cases step with
      | here => exact Nat.le_refl _
      | into name => exact Nat.le_refl _
      | up => cases names <;> simp [reduceStep]

/-- A path that does not leave the place it starts from does not leave a deeper one, and stays as
much deeper. -/
theorem exists_reduceFrom_of_le {names deeper last : List ν} {steps : List (PathStep ν)}
    (hle : names.length ≤ deeper.length) (h : reduceFrom (0, names) steps = (0, last)) :
    ∃ lastDeeper, reduceFrom (0, deeper) steps = (0, lastDeeper) ∧
      lastDeeper.length + names.length = last.length + deeper.length := by
  induction steps generalizing names deeper with
  | nil =>
      cases h
      exact ⟨deeper, rfl, Nat.add_comm _ _⟩
  | cons step steps ih =>
      rw [reduceFrom_cons] at h
      cases step with
      | here => exact ih hle h
      | into name =>
          have hcons : (name :: names).length ≤ (name :: deeper).length := Nat.succ_le_succ hle
          obtain ⟨lastDeeper, hlast, hlength⟩ := ih hcons h
          refine ⟨lastDeeper, hlast, ?_⟩
          simp only [List.length_cons] at hlength
          omega
      | up =>
          cases names with
          | nil =>
              have hup := le_reduceFrom (1, ([] : List ν)) steps
              rw [show reduceFrom (1, []) steps = (0, last) from h] at hup
              simp at hup
          | cons name names =>
              cases deeper with
              | nil => simp at hle
              | cons other deeper =>
                  obtain ⟨lastDeeper, hlast, hlength⟩ := ih (Nat.le_of_succ_le_succ hle) h
                  refine ⟨lastDeeper, hlast, ?_⟩
                  simp only [List.length_cons]
                  omega

/-! ## From every place -/

/-- A path leads strictly below every place it starts from exactly when it comes to no steps up and
some names. -/
theorem forall_strictlyBelow_iff [Nontrivial ν] (steps : List (PathStep ν)) :
    (∀ root, StrictlyBelow root (walk root steps)) ↔
      (reduce steps).1 = 0 ∧ (reduce steps).2 ≠ [] := by
  constructor
  · intro hall
    have hups : (reduce steps).1 = 0 := by
      by_contra hups
      -- From a place no deeper than the steps up, only the names are left.
      have hnames : ∀ name : ν, name ∈ (reduce steps).2 ∧
          (reduce steps).2.getLast? = some name := by
        intro name
        obtain ⟨rest, -, hrest⟩ := hall (List.replicate (reduce steps).1 name)
        rw [walk_eq, List.drop_of_length_le (by simp), List.append_nil] at hrest
        obtain ⟨ups, hups⟩ := Nat.exists_eq_succ_of_ne_zero hups
        rw [hrest, hups, List.replicate_succ']
        simp
      obtain ⟨first, second, hne⟩ := exists_pair_ne ν
      have hfirst := (hnames first).2
      rw [(hnames second).2] at hfirst
      exact hne (Option.some.inj hfirst).symm
    refine ⟨hups, ?_⟩
    obtain ⟨rest, hne, hrest⟩ := hall []
    rw [walk_eq, List.drop_nil, List.append_nil, List.append_nil] at hrest
    rwa [hrest]
  · rintro ⟨hups, hnames⟩ root
    refine ⟨(reduce steps).2, hnames, ?_⟩
    rw [walk_eq, hups, List.drop_zero]

/-- A path leads nowhere from every place exactly when it comes to nothing. -/
theorem forall_walk_eq_iff [Nonempty ν] (steps : List (PathStep ν)) :
    (∀ root, walk root steps = root) ↔ reduce steps = (0, []) := by
  constructor
  · intro hall
    have hnames : (reduce steps).2 = [] := by
      have h := hall []
      rwa [walk_eq, List.drop_nil, List.append_nil] at h
    have hups : (reduce steps).1 = 0 := by
      have h := congrArg List.length
        (hall (List.replicate (reduce steps).1 (Classical.arbitrary ν)))
      rw [walk_eq, hnames, List.nil_append, List.length_drop, List.length_replicate] at h
      omega
    exact Prod.ext hups hnames
  · intro h root
    rw [walk_eq, h]
    rfl

end PathStep
