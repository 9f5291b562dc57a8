/-
# Records of a text

A text is a list of symbols in which one symbol separates lines. Its records are the lines that are
not blank. A separator that is inserted into a text leaves the records as they are where it falls
between two lines, and otherwise cuts one of them in two.
-/

import Mathlib.Data.List.Flatten

namespace TextRecords

variable {α : Type*} [DecidableEq α] {sep : α} {before after text source : List α}

/-! ## Pieces -/

/-- The lines of a text that are not empty. -/
def pieces (sep : α) (text : List α) : List (List α) :=
  (text.splitOn sep).filter fun line => decide (line ≠ [])

@[simp]
theorem pieces_nil : pieces sep [] = [] := by
  simp [pieces, List.splitOn, List.splitOnP_nil]

/-- A separator ends one line and starts the next. -/
theorem pieces_append_cons (before after : List α) :
    pieces sep (before ++ sep :: after) = pieces sep before ++ pieces sep after := by
  rw [pieces, List.splitOn_append_cons_self, List.filter_append]
  rfl

@[simp]
theorem pieces_cons_self (after : List α) : pieces sep (sep :: after) = pieces sep after := by
  have hcons : pieces sep ([] ++ sep :: after) = pieces sep [] ++ pieces sep after :=
    pieces_append_cons [] after
  simpa using hcons

@[simp]
theorem pieces_append_self (before : List α) : pieces sep (before ++ [sep]) = pieces sep before := by
  have hcons : pieces sep (before ++ sep :: []) = pieces sep before ++ pieces sep [] :=
    pieces_append_cons before []
  simpa using hcons

/-- One more symbol at the front of a text starts a line of its own unless the text starts within
one. -/
theorem length_pieces_cons {c : α} (hc : c ≠ sep) (rest : List α) :
    (pieces sep (c :: rest)).length =
      (pieces sep rest).length + if rest.head?.all (· == sep) then 1 else 0 := by
  rw [pieces, List.splitOn_cons_eq_if_modifyHead, if_neg (by simpa using hc), pieces]
  cases rest with
  | nil => simp [List.splitOn, List.splitOnP_nil]
  | cons d tail =>
      rw [List.splitOn_cons_eq_if_modifyHead]
      obtain ⟨line, lines, hlines⟩ := List.exists_cons_of_ne_nil (List.splitOn_ne_nil sep tail)
      by_cases hd : d = sep
      · simp [hd]
      · simp [hd, hlines]

/-! ## Boundaries -/

/-- A cut of a text between two lines. -/
def atBoundary (sep : α) (before after : List α) : Bool :=
  before.getLast?.all (· == sep) || after.head?.all (· == sep)

/-- A cut between two lines leaves the lines as they are. -/
theorem pieces_append_of_atBoundary (hcut : atBoundary sep before after = true) :
    pieces sep (before ++ after) = pieces sep before ++ pieces sep after := by
  rcases Bool.or_eq_true_iff.mp hcut with hbefore | hafter
  · rcases List.eq_nil_or_concat before with rfl | ⟨init, last, rfl⟩
    · simp
    · obtain rfl : last = sep := by simpa using hbefore
      rw [List.concat_eq_append, List.append_assoc, List.singleton_append, pieces_append_cons,
        pieces_append_self]
  · cases after with
    | nil => simp
    | cons first rest =>
        obtain rfl : first = sep := by simpa using hafter
        rw [pieces_append_cons, pieces_cons_self]

/-- A cut within a line makes two of it. -/
theorem length_pieces_append_of_not_atBoundary (hcut : atBoundary sep before after = false) :
    (pieces sep before).length + (pieces sep after).length =
      (pieces sep (before ++ after)).length + 1 := by
  obtain ⟨hbefore, hafter⟩ := Bool.or_eq_false_iff.mp hcut
  induction before with
  | nil => simp at hbefore
  | cons c rest ih =>
      cases rest with
      | nil =>
          have hc : c ≠ sep := by simpa using hbefore
          rw [List.singleton_append, length_pieces_cons hc, length_pieces_cons hc, hafter]
          simp
          omega
      | cons d tail =>
          have hrest : ((d :: tail).getLast?.all (· == sep)) = false := by
            simpa [List.getLast?_cons_cons] using hbefore
          have ih := ih (by rw [atBoundary, hrest, hafter]; rfl) hrest
          by_cases hc : c = sep
          · rw [hc, List.cons_append, pieces_cons_self, pieces_cons_self]
            exact ih
          · rw [List.cons_append, length_pieces_cons hc, length_pieces_cons hc]
            simp only [List.cons_append, List.head?_cons] at ih ⊢
            by_cases hd : d = sep
            · simp only [hd, Option.all_some, beq_self_eq_true, if_true] at ih ⊢
              omega
            · simp only [Option.all_some, beq_eq_false_iff_ne.mpr hd, Bool.false_eq_true, if_false]
                at ih ⊢
              omega

/-- A separator that is inserted never makes fewer lines, and as many only between two lines. -/
theorem length_pieces_insert (before after : List α) :
    (pieces sep (before ++ sep :: after)).length =
      (pieces sep (before ++ after)).length + if atBoundary sep before after then 0 else 1 := by
  rw [pieces_append_cons, List.length_append]
  cases hcut : atBoundary sep before after with
  | true => simp [pieces_append_of_atBoundary hcut]
  | false => simp [length_pieces_append_of_not_atBoundary hcut]

/-! ## Records -/

/-- The lines of a text that are not blank. -/
def records (sep : α) (blank : List α → Bool) (text : List α) : List (List α) :=
  (text.splitOn sep).filter fun line => !blank line

/-- No line of a text is blank unless it is empty. -/
def NoBlankLines (sep : α) (blank : List α → Bool) (text : List α) : Prop :=
  ∀ line ∈ text.splitOn sep, blank line = true → line = []

theorem records_eq_filter_pieces {blank : List α → Bool} (hempty : blank [] = true)
    (text : List α) : records sep blank text = (pieces sep text).filter fun line => !blank line := by
  rw [records, pieces, List.filter_filter]
  apply List.filter_congr
  intro line _
  by_cases hline : line = [] <;> simp [hline, hempty]

theorem records_eq_pieces {blank : List α → Bool} (hempty : blank [] = true)
    (hnoBlank : NoBlankLines sep blank text) : records sep blank text = pieces sep text := by
  apply List.filter_congr
  intro line hline
  by_cases hne : line = []
  · simp [hne, hempty]
  · have hblank : blank line = false := by
      rw [← Bool.not_eq_true]
      exact fun hblank => hne (hnoBlank line hline hblank)
    simp [hne, hblank]

/-- The lines hold every symbol but the separators. -/
theorem flatten_pieces (text : List α) : (pieces sep text).flatten = text.filter (· ≠ sep) := by
  have hempty : ∀ lines : List (List α),
      (lines.filter fun line => decide (line ≠ [])).flatten = lines.flatten := by
    intro lines
    induction lines with
    | nil => rfl
    | cons line lines ih =>
        by_cases hline : line = []
        · simpa [hline] using ih
        · simpa [hline] using ih
  rw [pieces, hempty]
  induction text with
  | nil => simp [List.splitOn, List.splitOnP_nil]
  | cons c rest ih =>
      obtain ⟨line, lines, hlines⟩ := List.exists_cons_of_ne_nil (List.splitOn_ne_nil sep rest)
      rw [List.splitOn_cons_eq_if_modifyHead]
      rw [hlines] at ih ⊢
      by_cases hc : c = sep
      · simpa [hc] using ih
      · simpa [hc] using ih

/-- Lines of which none is empty and whose symbols are all kept are all kept. -/
theorem filter_eq_self_of_flatten {lines : List (List α)} {p : List α → Bool}
    (hne : ∀ line ∈ lines, line ≠ [])
    (hflatten : (lines.filter p).flatten.length = lines.flatten.length) :
    lines.filter p = lines := by
  induction lines with
  | nil => rfl
  | cons line lines ih =>
      have hshorter : (lines.filter p).flatten.length ≤ lines.flatten.length :=
        (List.filter_sublist (l := lines)).flatten.length_le
      have hpos := List.length_pos_iff.mpr (hne line List.mem_cons_self)
      cases hkeep : p line with
      | true =>
          simp only [List.filter_cons, hkeep, if_true, List.flatten_cons, List.length_append]
            at hflatten ⊢
          rw [ih (fun other hother => hne other (List.mem_cons_of_mem _ hother)) (by omega)]
      | false =>
          simp only [List.filter_cons, hkeep, Bool.false_eq_true, if_false, List.flatten_cons,
            List.length_append] at hflatten
          omega

/-- A text with the symbols of one without blank lines has its records exactly where it has its
lines. -/
theorem records_eq_iff {blank : List α → Bool} (hempty : blank [] = true)
    (hnoBlank : NoBlankLines sep blank source)
    (hsymbols : text.filter (· ≠ sep) = source.filter (· ≠ sep)) :
    records sep blank text = records sep blank source ↔ pieces sep text = pieces sep source := by
  rw [records_eq_pieces hempty hnoBlank, records_eq_filter_pieces hempty]
  have hkept : (pieces sep source).filter (fun line => !blank line) = pieces sep source := by
    rw [← records_eq_filter_pieces hempty, records_eq_pieces hempty hnoBlank]
  constructor
  · intro hrecords
    have hne : ∀ line ∈ pieces sep text, line ≠ [] := fun line hline => by
      simpa using (List.mem_filter.mp hline).2
    have hall := filter_eq_self_of_flatten (p := fun line => !blank line) hne
      (by rw [hrecords, flatten_pieces, flatten_pieces, hsymbols])
    rw [← hall, hrecords]
  · intro hpieces
    rw [hpieces, hkept]

end TextRecords
