/-
# Replacing a word throughout a text

A text is split at the occurrences of a word, leftmost first and without overlap,
and joined again with a mark in their place. The word may be any but the empty
one. No piece holds the word, and every piece is a part of the text; a word that
shares no character with the mark is therefore in the joined text only if it is
in one of the pieces. So the word itself is gone, and a word that was not in the
text is not in it afterwards either.
-/

import Mathlib.Data.List.Infix
import Mathlib.Data.List.Basic

universe u

namespace Substitution

variable {α : Type u}

/-! ## Words across a boundary -/

/-- A word without the separating character ends before it. -/
theorem prefix_of_prefix_append_cons {word : List α} (before : List α) {after : List α} {c : α}
    (hc : c ∉ word) (h : word <+: before ++ c :: after) : word <+: before := by
  induction before generalizing word with
  | nil =>
      cases word with
      | nil => exact List.nil_prefix
      | cons first word =>
          obtain ⟨rfl, _⟩ := List.cons_prefix_cons.mp h
          exact absurd List.mem_cons_self hc
  | cons first before ih =>
      cases word with
      | nil => exact List.nil_prefix
      | cons head word =>
          obtain ⟨rfl, hrest⟩ := List.cons_prefix_cons.mp h
          have hword : c ∉ word := fun hmem => hc (List.mem_cons_of_mem _ hmem)
          exact List.cons_prefix_cons.mpr ⟨rfl, ih hword hrest⟩

/-- A word without the separating character is on one side of it. -/
theorem infix_append_cons {word before after : List α} {c : α} (hc : c ∉ word)
    (h : word <:+: before ++ c :: after) : word <:+: before ∨ word <:+: after := by
  induction before with
  | nil =>
      rcases List.infix_cons_iff.mp h with hprefix | hinfix
      · left
        exact (prefix_of_prefix_append_cons [] hc hprefix).isInfix
      · exact Or.inr hinfix
  | cons first before ih =>
      rcases List.infix_cons_iff.mp h with hprefix | hinfix
      · left
        have hword : word <+: first :: before :=
          prefix_of_prefix_append_cons (first :: before) hc hprefix
        exact hword.isInfix
      · rcases ih hinfix with hbefore | hafter
        · exact Or.inl (List.infix_cons hbefore)
        · exact Or.inr hafter

/-- A word that shares nothing with a mark is on one side of it. -/
theorem infix_append_mark {word mark : List α} (before : List α) {after : List α}
    (hmark : mark ≠ [])
    (hdisjoint : ∀ c ∈ mark, c ∉ word) (h : word <:+: before ++ mark ++ after) :
    word <:+: before ∨ word <:+: after := by
  induction mark generalizing before with
  | nil => exact absurd rfl hmark
  | cons c mark ih =>
      rw [List.append_assoc, List.cons_append] at h
      rcases infix_append_cons (hdisjoint c List.mem_cons_self) h with hbefore | hrest
      · exact Or.inl hbefore
      · cases mark with
        | nil => exact Or.inr hrest
        | cons d mark =>
            have hothers : ∀ e ∈ d :: mark, e ∉ word :=
              fun e he => hdisjoint e (List.mem_cons_of_mem _ he)
            rcases ih [] (List.cons_ne_nil _ _) hothers hrest with hnil | hafter
            · exact Or.inl (hnil.trans List.nil_infix)
            · exact Or.inr hafter

/-! ## Splitting -/

section Splitting

variable [DecidableEq α] (sep : List α)

/-- The pieces of a text of which the first characters are skipped: they belong to
an occurrence that was found. -/
def splitFrom : ℕ → List α → List (List α)
  | _, [] => [[]]
  | skip + 1, _ :: rest => splitFrom skip rest
  | 0, c :: rest =>
      if sep <+: c :: rest then [] :: splitFrom (sep.length - 1) rest
      else (splitFrom 0 rest).modifyHead (c :: ·)

/-- The pieces between the occurrences of a word. -/
def split (text : List α) : List (List α) := splitFrom sep 0 text

/-- The text with a mark for every occurrence. -/
def replaceAll (mark text : List α) : List α := mark.intercalate (split sep text)

theorem splitFrom_ne_nil (skip : ℕ) (text : List α) : splitFrom sep skip text ≠ [] := by
  induction text generalizing skip with
  | nil => cases skip <;> simp [splitFrom]
  | cons c rest ih =>
      cases skip with
      | succ skip => exact ih skip
      | zero =>
          rw [splitFrom]
          split
          · exact List.cons_ne_nil _ _
          · obtain ⟨piece, pieces, heq⟩ := List.exists_cons_of_ne_nil (ih 0)
            rw [heq]
            exact List.cons_ne_nil _ _

/-- The first piece begins where the text does. -/
theorem head_splitFrom_prefix {text piece : List α} {pieces : List (List α)}
    (h : splitFrom sep 0 text = piece :: pieces) : piece <+: text := by
  induction text generalizing piece pieces with
  | nil =>
      simp only [splitFrom, List.cons.injEq] at h
      rw [← h.1]
  | cons c rest ih =>
      rw [splitFrom] at h
      split at h
      · rw [← (List.cons.inj h).1]
        exact List.nil_prefix
      · obtain ⟨first, others, heq⟩ := List.exists_cons_of_ne_nil (splitFrom_ne_nil sep 0 rest)
        rw [heq, List.modifyHead_cons] at h
        rw [← (List.cons.inj h).1]
        exact List.cons_prefix_cons.mpr ⟨rfl, ih heq⟩

/-- Every piece is a part of the text. -/
theorem infix_of_mem_splitFrom {skip : ℕ} {text piece : List α}
    (h : piece ∈ splitFrom sep skip text) : piece <:+: text := by
  induction text generalizing skip piece with
  | nil =>
      cases skip <;> simp only [splitFrom, List.mem_singleton] at h <;> rw [h]
  | cons c rest ih =>
      cases skip with
      | succ skip => exact List.infix_cons (ih h)
      | zero =>
          rw [splitFrom] at h
          split at h
          · rcases List.mem_cons.mp h with rfl | hrest
            · exact List.nil_infix
            · exact List.infix_cons (ih hrest)
          · obtain ⟨first, others, heq⟩ :=
              List.exists_cons_of_ne_nil (splitFrom_ne_nil sep 0 rest)
            rw [heq, List.modifyHead_cons] at h
            rcases List.mem_cons.mp h with rfl | hrest
            · have hprefix := head_splitFrom_prefix sep heq
              exact (List.cons_prefix_cons.mpr ⟨rfl, hprefix⟩).isInfix
            · exact List.infix_cons (ih (heq ▸ List.mem_cons_of_mem _ hrest))

/-- No piece holds the word. -/
theorem not_infix_of_mem_splitFrom (hsep : sep ≠ []) {skip : ℕ} {text piece : List α}
    (h : piece ∈ splitFrom sep skip text) : ¬sep <:+: piece := by
  have hempty : ¬sep <:+: [] := fun hinfix => hsep (List.eq_nil_of_infix_nil hinfix)
  induction text generalizing skip piece with
  | nil =>
      cases skip <;> simp only [splitFrom, List.mem_singleton] at h <;> rw [h] <;> exact hempty
  | cons c rest ih =>
      cases skip with
      | succ skip => exact ih h
      | zero =>
          rw [splitFrom] at h
          split at h
          · rcases List.mem_cons.mp h with rfl | hrest
            · exact hempty
            · exact ih hrest
          next hnone =>
            obtain ⟨first, others, heq⟩ :=
              List.exists_cons_of_ne_nil (splitFrom_ne_nil sep 0 rest)
            rw [heq, List.modifyHead_cons] at h
            rcases List.mem_cons.mp h with rfl | hrest
            · intro hinfix
              rcases List.infix_cons_iff.mp hinfix with hprefix | hinfix
              · apply hnone
                have hfirst := head_splitFrom_prefix sep heq
                exact hprefix.trans (List.cons_prefix_cons.mpr ⟨rfl, hfirst⟩)
              · exact ih (heq ▸ List.mem_cons_self) hinfix
            · exact ih (heq ▸ List.mem_cons_of_mem _ hrest)

end Splitting

/-! ## Joining -/

/-- A word that shares nothing with the mark is in the joined text only if it is in
one of the pieces. -/
theorem infix_intercalate {word mark : List α} (hword : word ≠ []) (hmark : mark ≠ [])
    (hdisjoint : ∀ c ∈ mark, c ∉ word) {pieces : List (List α)}
    (h : word <:+: mark.intercalate pieces) : ∃ piece ∈ pieces, word <:+: piece := by
  induction pieces with
  | nil => exact absurd (List.eq_nil_of_infix_nil (by simpa using h)) hword
  | cons piece pieces ih =>
      cases pieces with
      | nil => exact ⟨piece, List.mem_cons_self, by simpa using h⟩
      | cons next pieces =>
          rw [List.intercalate_cons_cons] at h
          rcases infix_append_mark piece hmark hdisjoint h with hpiece | hrest
          · exact ⟨piece, List.mem_cons_self, hpiece⟩
          · obtain ⟨other, hother, hinfix⟩ := ih hrest
            exact ⟨other, List.mem_cons_of_mem _ hother, hinfix⟩

section Replacing

variable [DecidableEq α] {sep mark word : List α}

/-- The word is gone. -/
theorem not_infix_replaceAll (hsep : sep ≠ []) (hmark : mark ≠ [])
    (hdisjoint : ∀ c ∈ mark, c ∉ sep) (text : List α) : ¬sep <:+: replaceAll sep mark text := by
  intro h
  obtain ⟨piece, hpiece, hinfix⟩ := infix_intercalate hsep hmark hdisjoint h
  exact not_infix_of_mem_splitFrom sep hsep hpiece hinfix

/-- Replacing one word brings no other in. -/
theorem infix_of_infix_replaceAll (hword : word ≠ []) (hmark : mark ≠ [])
    (hdisjoint : ∀ c ∈ mark, c ∉ word) {text : List α}
    (h : word <:+: replaceAll sep mark text) : word <:+: text := by
  obtain ⟨piece, hpiece, hinfix⟩ := infix_intercalate hword hmark hdisjoint h
  exact hinfix.trans (infix_of_mem_splitFrom sep hpiece)

/-- Where the word does not occur, nothing changes. -/
theorem replaceAll_eq_self {text : List α} (h : ¬sep <:+: text) :
    replaceAll sep mark text = text := by
  have hsplit : split sep text = [text] := by
    unfold split
    induction text with
    | nil => rfl
    | cons c rest ih =>
        have hprefix : ¬sep <+: c :: rest := fun hp => h hp.isInfix
        rw [splitFrom, if_neg hprefix, ih fun hinfix => h (List.infix_cons hinfix)]
        rfl
  rw [replaceAll, hsplit, List.intercalate_singleton]

end Replacing

end Substitution
