/-
# Semantic versions and ranges

Versions of three numbers and a pre-release tag, their precedence, and the ranges a
list of comparators describes. The upper bounds of such ranges end in the tag `-0`:
nothing ranks below it, so a bound just under the next minor number keeps that
number's own pre-releases out as well.
-/

import Mathlib.Tactic.Common

namespace Eveland.SemanticVersions

/-! ## Precedence -/

/-- One dot-separated part of a pre-release tag. -/
inductive Identifier
  | numeric (value : ℕ)
  | alphanumeric (text : String)
  deriving DecidableEq, Repr

/-- Numbers rank by value and below every text; texts rank by their characters. -/
def Identifier.below : Identifier → Identifier → Bool
  | .numeric a, .numeric b => a < b
  | .numeric _, .alphanumeric _ => true
  | .alphanumeric _, .numeric _ => false
  | .alphanumeric a, .alphanumeric b => a < b

/-- Tags rank by their first difference; of two that agree, the shorter is lower. -/
def tagBelow : List Identifier → List Identifier → Bool
  | _, [] => false
  | [], _ :: _ => true
  | a :: as, b :: bs => a.below b || (a = b && tagBelow as bs)

/-- A pre-release ranks below its release, which carries the empty tag. -/
def prereleaseBelow : List Identifier → List Identifier → Bool
  | [], _ => false
  | _ :: _, [] => true
  | a :: as, b :: bs => tagBelow (a :: as) (b :: bs)

/-- A version; build metadata has no precedence and is left out. -/
structure Version where
  major : ℕ
  minor : ℕ
  patch : ℕ
  prerelease : List Identifier
  deriving DecidableEq, Repr

namespace Version

/-- `v` has lower precedence than `w`. -/
def below (v w : Version) : Bool :=
  if v.major ≠ w.major then v.major < w.major
  else if v.minor ≠ w.minor then v.minor < w.minor
  else if v.patch ≠ w.patch then v.patch < w.patch
  else prereleaseBelow v.prerelease w.prerelease

/-- Precedence is lexicographic in the three numbers and the tag. -/
theorem below_iff (v w : Version) :
    v.below w = true ↔ v.major < w.major ∨ (v.major = w.major ∧ (v.minor < w.minor ∨
      (v.minor = w.minor ∧ (v.patch < w.patch ∨
        (v.patch = w.patch ∧ prereleaseBelow v.prerelease w.prerelease = true))))) := by
  unfold below
  by_cases hmajor : v.major = w.major
  · by_cases hminor : v.minor = w.minor
    · by_cases hpatch : v.patch = w.patch <;> simp [hmajor, hminor, hpatch]
    · simp [hmajor, hminor]
  · simp [hmajor]

/-- The two versions share their major and their minor number. -/
def SameLine (v w : Version) : Prop := v.major = w.major ∧ v.minor = w.minor

end Version

/-- Nothing ranks below the tag `-0`. -/
theorem not_prereleaseBelow_zero (tag : List Identifier) :
    prereleaseBelow tag [.numeric 0] = false := by
  cases tag with
  | nil => rfl
  | cons first rest =>
      cases first with
      | numeric value => cases rest <;> simp [prereleaseBelow, tagBelow, Identifier.below]
      | alphanumeric text => simp [prereleaseBelow, tagBelow, Identifier.below]

/-! ## Ranges -/

/-- A comparison a version has to meet. -/
inductive Comparator
  | exactly (bound : Version)
  | atLeast (bound : Version)
  | lessThan (bound : Version)

namespace Comparator

/-- The version a comparator compares with. -/
def bound : Comparator → Version
  | .exactly bound => bound
  | .atLeast bound => bound
  | .lessThan bound => bound

/-- The comparison itself. -/
def test : Comparator → Version → Bool
  | .exactly bound, v => v = bound
  | .atLeast bound, v => !v.below bound
  | .lessThan bound, v => v.below bound

/-- The comparator names a pre-release of the version's own three numbers. -/
def opensPrerelease (comparator : Comparator) (v : Version) : Bool :=
  let bound := comparator.bound
  !bound.prerelease.isEmpty && bound.major = v.major && bound.minor = v.minor &&
    bound.patch = v.patch

end Comparator

/-- The comparators of a range admit a version that passes each of them. A pre-release
also needs one that names a pre-release of the same three numbers. -/
def admits (range : List Comparator) (v : Version) : Bool :=
  range.all (fun comparator => comparator.test v) &&
    (v.prerelease.isEmpty || range.any fun comparator => comparator.opensPrerelease v)

/-- From one version on and below another. -/
def between (low high : Version) : List Comparator := [.atLeast low, .lessThan high]

/-- The bound just below a version number, its pre-releases included. -/
def justBelow (major minor patch : ℕ) : Version := ⟨major, minor, patch, [.numeric 0]⟩

/-! ## Ranges within one line -/

/-- A range of one exact version admits only that one. -/
theorem eq_of_admits_exactly {bound v : Version}
    (hadmits : admits [.exactly bound] v = true) : v = bound := by
  simp only [admits, List.all_cons, List.all_nil, Comparator.test, Bool.and_true,
    Bool.and_eq_true, decide_eq_true_eq] at hadmits
  exact hadmits.1

/-- What a half-open range admits lies between its bounds. -/
theorem bounds_of_admits_between {low high v : Version}
    (hadmits : admits (between low high) v = true) :
    ¬ v.below low = true ∧ v.below high = true := by
  simp only [admits, between, List.all_cons, List.all_nil, Comparator.test, Bool.and_true,
    Bool.and_eq_true, Bool.not_eq_true'] at hadmits
  simpa using hadmits.1

/-- Between a version and the next minor number there is only the version's own line:
the bound `-0` leaves no room for pre-releases of that next number. -/
theorem sameLine_of_between_nextMinor {low v : Version}
    (hadmits : admits (between low (justBelow low.major (low.minor + 1) 0)) v = true) :
    v.SameLine low := by
  have hbounds := bounds_of_admits_between hadmits
  have hleast := not_prereleaseBelow_zero v.prerelease
  rw [Version.below_iff, Version.below_iff] at hbounds
  simp only [justBelow, hleast, Bool.false_eq_true, and_false, or_false] at hbounds
  constructor <;> omega

/-- Between two patches of one line there is only that line. -/
theorem sameLine_of_between_patches {low v : Version} {patch : ℕ}
    (hadmits : admits (between low (justBelow low.major low.minor patch)) v = true) :
    v.SameLine low := by
  have hbounds := bounds_of_admits_between hadmits
  rw [Version.below_iff, Version.below_iff] at hbounds
  simp only [justBelow] at hbounds
  constructor <;> omega

end Eveland.SemanticVersions
