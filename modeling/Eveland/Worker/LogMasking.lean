/-
# Secrets in the logs

What a build or a failed start prints goes into the project's log, and the values
of its secrets are taken out of it first: every value of eight characters or more
is replaced by three stars. The values are replaced one after another, so a later
replacement must not put an earlier value together again; and the diagnostics of
a failed start are cut in the middle afterwards, so the cut must not either.

A value with a star in it may survive, for a replacement beside it writes stars.
-/

import Eveland.Core.Stringify
import Eveland.Foundations.Substitution

namespace Eveland.LogMasking

open Eveland.Js

def star : UInt16 := 42

def newline : UInt16 := 10

/-- What stands for a secret. -/
def stars : Text := [star, star, star]

/-- The values that are masked: the long ones, once each. -/
def uniqueValues (values : List Text) : List Text :=
  (values.filter fun value => 8 ≤ value.length).eraseDups

def maskKnownSecrets (input : Text) (values : List Text) : Text :=
  (uniqueValues values).foldl
    (fun output value => Substitution.replaceAll value stars output) input

def runtimeDiagnosticMaxCharacters : ℕ := 32000

/-- The words between the two parts of a cut text. -/
def markerWords : Text := units "… runtime diagnostics truncated …".toList

def marker : Text := newline :: markerWords ++ [newline]

def prefixLength : ℕ := 2000

def suffixLength : ℕ := runtimeDiagnosticMaxCharacters - prefixLength - marker.length

def limitRuntimeDiagnostic (input : Text) : Text :=
  if input.length ≤ runtimeDiagnosticMaxCharacters then input
  else input.take prefixLength ++ marker ++ input.drop (input.length - suffixLength)

/-- The line that the log of a failed start gets. -/
def diagnosticsLine (raw : Text) (secretValues : List Text) : Text :=
  limitRuntimeDiagnostic (maskKnownSecrets raw secretValues)

/-! ## Masking -/

theorem mem_uniqueValues {values : List Text} {value : Text} :
    value ∈ uniqueValues values ↔ value ∈ values ∧ 8 ≤ value.length := by
  simp [uniqueValues, List.mem_eraseDups]

theorem stars_ne_nil : stars ≠ [] := List.cons_ne_nil _ _

theorem not_mem_of_star {value : Text} (hstar : star ∉ value) : ∀ c ∈ stars, c ∉ value := by
  intro c hc
  have hsame : c = star := by simpa [stars] using hc
  rw [hsame]
  exact hstar

/-- Masking further values brings none in. -/
theorem infix_of_infix_masked {word : Text} (hword : word ≠ []) (hstar : star ∉ word)
    (values : List Text) {input : Text}
    (h : word <:+: values.foldl
      (fun output value => Substitution.replaceAll value stars output) input) :
    word <:+: input := by
  induction values generalizing input with
  | nil => exact h
  | cons value values ih =>
      exact Substitution.infix_of_infix_replaceAll hword stars_ne_nil (not_mem_of_star hstar) (ih h)

/-- No masked value is left, in whatever order they are masked. -/
theorem not_infix_masked {secret : Text} (hsecret : secret ≠ []) (hstar : star ∉ secret)
    {values : List Text} (hmem : secret ∈ values) (input : Text) :
    ¬secret <:+: values.foldl
      (fun output value => Substitution.replaceAll value stars output) input := by
  induction values generalizing input with
  | nil => cases hmem
  | cons value values ih =>
      rcases List.mem_cons.mp hmem with rfl | hrest
      · intro h
        have hbefore := infix_of_infix_masked hsecret hstar values h
        exact Substitution.not_infix_replaceAll hsecret stars_ne_nil (not_mem_of_star hstar) input
          hbefore
      · exact ih hrest _

theorem not_infix_maskKnownSecrets {secret : Text} {values : List Text} (hmem : secret ∈ values)
    (hlong : 8 ≤ secret.length) (hstar : star ∉ secret) (input : Text) :
    ¬secret <:+: maskKnownSecrets input values := by
  have hsecret : secret ≠ [] := by
    rintro rfl
    cases hlong
  exact not_infix_masked hsecret hstar (mem_uniqueValues.mpr ⟨hmem, hlong⟩) input

/-- A text without secrets is logged as it is. -/
theorem maskKnownSecrets_eq_self {values : List Text} {input : Text}
    (h : ∀ value ∈ values, 8 ≤ value.length → ¬value <:+: input) :
    maskKnownSecrets input values = input := by
  have hnone : ∀ value ∈ uniqueValues values, ¬value <:+: input := by
    intro value hvalue
    obtain ⟨hmem, hlong⟩ := mem_uniqueValues.mp hvalue
    exact h value hmem hlong
  unfold maskKnownSecrets
  generalize uniqueValues values = masked at hnone ⊢
  induction masked with
  | nil => rfl
  | cons value rest ih =>
      have hself : Substitution.replaceAll value stars input = input :=
        Substitution.replaceAll_eq_self (hnone value List.mem_cons_self)
      rw [List.foldl_cons, hself]
      exact ih fun other hother => hnone other (List.mem_cons_of_mem _ hother)

/-! ## The cut -/

theorem marker_length_le : prefixLength + marker.length ≤ runtimeDiagnosticMaxCharacters := by
  decide +kernel

theorem length_limitRuntimeDiagnostic (input : Text) :
    (limitRuntimeDiagnostic input).length ≤ runtimeDiagnosticMaxCharacters := by
  have hmarker := marker_length_le
  unfold limitRuntimeDiagnostic
  split
  · assumption
  next hlong =>
    simp only [List.length_append, List.length_take, List.length_drop, suffixLength]
    omega

/-- A word of one line that is not among the marker's is in the cut text only where
it was in the text. -/
theorem infix_of_infix_limited {word input : Text} (hline : newline ∉ word)
    (hmarker : ¬word <:+: markerWords) (h : word <:+: limitRuntimeDiagnostic input) :
    word <:+: input := by
  unfold limitRuntimeDiagnostic at h
  split at h
  · exact h
  · simp only [marker, List.append_assoc, List.cons_append, List.nil_append] at h
    rcases Substitution.infix_append_cons hline h with hbefore | hrest
    · exact hbefore.trans (List.take_prefix _ _).isInfix
    · rcases Substitution.infix_append_cons hline hrest with hwords | hafter
      · exact absurd hwords hmarker
      · exact hafter.trans (List.drop_suffix _ _).isInfix

end Eveland.LogMasking
