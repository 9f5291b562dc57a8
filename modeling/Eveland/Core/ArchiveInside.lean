/-
# What the archive checks let through

A relative path is accepted when it comes to no steps up and some names, and then the result is
these names. White space around an entry's name only makes its first and its last segment names,
so that what the extractor is given leads as deep as what was checked, or deeper.
-/

import Eveland.Core.ArchivePaths
import Mathlib.Data.List.DropRight

namespace Eveland.ArchivePaths

open JsString (isWhitespace trim stripEnds)
open PathStep (reduce reduceFrom reduceStep walk StrictlyBelow)

/-! ## Segments -/

theorem isAbsolute_cons (path : List Char) : isAbsolute ('/' :: path) = true := rfl

theorem exists_cons_of_isAbsolute {path : List Char} (h : isAbsolute path = true) :
    ∃ rest, path = '/' :: rest := by
  cases path with
  | nil => cases h
  | cons c rest =>
      refine ⟨rest, ?_⟩
      simpa [isAbsolute] using h

theorem exists_concat_of_endsWithSlash {path : List Char} (h : endsWithSlash path = true) :
    ∃ front, path = front ++ ['/'] := by
  have hlast : path.getLast? = some '/' := by simpa [endsWithSlash] using h
  exact List.getLast?_eq_some_iff.mp hlast

theorem slash_not_mem_of_mem_splitOn {path segment : List Char}
    (h : segment ∈ path.splitOn '/') : '/' ∉ segment := by
  induction path generalizing segment with
  | nil =>
      rw [List.splitOn_nil, List.mem_singleton] at h
      simp [h]
  | cons c rest ih =>
      rw [List.splitOn_cons_eq_if_modifyHead] at h
      obtain ⟨first, others, hsplit⟩ :=
        List.exists_cons_of_ne_nil (List.splitOn_ne_nil '/' rest)
      by_cases hc : c = '/'
      · rw [if_pos (by simpa using hc), List.mem_cons] at h
        rcases h with rfl | h
        · simp
        · exact ih h
      · rw [if_neg (by simpa using hc), hsplit, List.modifyHead_cons, List.mem_cons] at h
        rcases h with rfl | h
        · have hfirst : '/' ∉ first := ih (by rw [hsplit]; exact List.mem_cons_self)
          simp [Ne.symm hc, hfirst]
        · exact ih (by rw [hsplit]; exact List.mem_cons_of_mem _ h)

/-- What stands before a path without a slash of its own becomes part of the first segment. -/
theorem splitOn_append_left {front path first : List Char} {others : List (List Char)}
    (hfront : '/' ∉ front) (hsplit : path.splitOn '/' = first :: others) :
    (front ++ path).splitOn '/' = (front ++ first) :: others := by
  induction front with
  | nil => exact hsplit
  | cons c front ih =>
      rw [List.mem_cons, not_or] at hfront
      rw [List.cons_append, List.splitOn_cons_eq_if_modifyHead, ih hfront.2,
        if_neg (by simpa using Ne.symm hfront.1), List.modifyHead_cons, List.cons_append]

/-- What stands after it becomes part of the last one. -/
theorem splitOn_append_right (path : List Char) :
    ∃ front last, path.splitOn '/' = front ++ [last] ∧
      ∀ back, '/' ∉ back → (path ++ back).splitOn '/' = front ++ [last ++ back] := by
  induction path with
  | nil => exact ⟨[], [], rfl, fun back hback => List.splitOn_eq_singleton hback⟩
  | cons c path ih =>
      obtain ⟨front, last, hsplit, happend⟩ := ih
      by_cases hc : c = '/'
      · refine ⟨[] :: front, last, ?_, ?_⟩
        · rw [List.splitOn_cons_eq_if_modifyHead, if_pos (by simpa using hc), hsplit]
          rfl
        · intro back hback
          rw [List.cons_append, List.splitOn_cons_eq_if_modifyHead, if_pos (by simpa using hc),
            happend back hback]
          rfl
      · cases front with
        | nil =>
            refine ⟨[], c :: last, ?_, ?_⟩
            · rw [List.splitOn_cons_eq_if_modifyHead, if_neg (by simpa using hc), hsplit]
              rfl
            · intro back hback
              rw [List.cons_append, List.splitOn_cons_eq_if_modifyHead,
                if_neg (by simpa using hc), happend back hback]
              rfl
        | cons first front =>
            refine ⟨(c :: first) :: front, last, ?_, ?_⟩
            · rw [List.splitOn_cons_eq_if_modifyHead, if_neg (by simpa using hc), hsplit]
              rfl
            · intro back hback
              rw [List.cons_append, List.splitOn_cons_eq_if_modifyHead,
                if_neg (by simpa using hc), happend back hback]
              rfl

/-! ## Steps -/

theorem toStep_text (name : Name) : toStep name.text = .into name := by
  simp [toStep, name.nonempty, name.not_dot, name.not_dots]

theorem toStep_nil : toStep [] = .here := by simp [toStep]

theorem toStep_dots : toStep ['.', '.'] = .up := by simp [toStep]

theorem text_of_toStep {segment : List Char} {name : Name} (h : toStep segment = .into name) :
    name.text = segment := by
  rw [toStep] at h
  split_ifs at h with hhere hup
  cases h
  rfl

theorem eq_dots_of_toStep {segment : List Char} (h : toStep segment = .up) :
    segment = ['.', '.'] := by
  rw [toStep] at h
  split_ifs at h with hhere hup
  exact hup

theorem here_of_toStep {segment : List Char} (h : toStep segment = .here) :
    segment = [] ∨ segment = ['.'] := by
  rw [toStep] at h
  split_ifs at h with hhere hup
  exact hhere

instance : Nontrivial Name where
  exists_pair_ne := ⟨⟨['a'], by simp, by simp, by simp⟩, ⟨['b'], by simp, by simp, by simp⟩,
    by simp⟩

/-- A path from a root comes to no steps up. -/
def Within (path : List Char) : Prop := (reduce (steps path)).1 = 0

/-- It comes to some names besides. -/
def Inside (path : List Char) : Prop := Within path ∧ (reduce (steps path)).2 ≠ []

theorem leadsInside_iff {path : List Char} (h : isAbsolute path = false) :
    LeadsInside path ↔ Inside path := by
  have hresolve : ∀ root, resolve root path = walk root (steps path) := by
    intro root
    rw [resolve, h]
    rfl
  simp only [LeadsInside, hresolve]
  exact PathStep.forall_strictlyBelow_iff (steps path)

/-- An absolute path leads to the same place from every root, so not inside every root. -/
theorem not_leadsInside {path : List Char} (h : isAbsolute path = true) : ¬LeadsInside path := by
  intro hinside
  obtain ⟨name⟩ : Nonempty Name := inferInstance
  obtain ⟨names, -, hnames⟩ := hinside
    (List.replicate ((walk ([] : List Name) (steps path)).length + 1) name)
  rw [resolve, h, if_pos rfl] at hnames
  have hlength := congrArg List.length hnames
  rw [List.length_append, List.length_replicate] at hlength
  omega

theorem steps_append_slash (path : List Char) :
    steps (path ++ ['/']) = steps path ++ [.here] := by
  rw [steps, List.splitOn_append_cons_self, List.splitOn_nil, List.map_append]
  simp [steps, toStep_nil]

/-- Slashes at the end lead nowhere. -/
theorem reduce_append_slashes (path : List Char) (n : ℕ) :
    reduce (steps (path ++ List.replicate n '/')) = reduce (steps path) := by
  induction n with
  | zero => rw [List.replicate_zero, List.append_nil]
  | succ n ih =>
      rw [List.replicate_succ', ← List.append_assoc, steps_append_slash, reduce,
        PathStep.reduceFrom_append, ← reduce, ih]
      rfl

/-! ## The normal form -/

/-- The segments of a reduced form, innermost first. -/
def kept (form : ℕ × List Name) : List (List Char) :=
  form.2.map Name.text ++ List.replicate form.1 ['.', '.']

theorem normalizeSegment_kept (form : ℕ × List Name) (segment : List Char) :
    normalizeSegment true (kept form) segment = kept (reduceStep form (toStep segment)) := by
  obtain ⟨ups, names⟩ := form
  cases hstep : toStep segment with
  | here =>
      unfold normalizeSegment
      rw [if_pos (here_of_toStep hstep)]
      rfl
  | up =>
      have hdots := eq_dots_of_toStep hstep
      unfold normalizeSegment
      rw [if_neg (by simp [hdots]), if_pos hdots]
      cases names with
      | nil => cases ups <;> simp [kept, reduceStep, hdots, List.replicate_succ]
      | cons name names => simp [kept, reduceStep, name.not_dots]
  | into name =>
      have htext := text_of_toStep hstep
      unfold normalizeSegment
      rw [← htext, if_neg (by simp [name.nonempty, name.not_dot]), if_neg name.not_dots]
      rfl

/-- Normalising the segments of a relative path is reducing its steps. -/
theorem normalizeString_eq (path : List Char) :
    normalizeString true (path.splitOn '/') = kept (reduce (steps path)) := by
  rw [normalizeString, steps, reduce]
  have hfrom : ∀ (segments : List (List Char)) (form : ℕ × List Name),
      segments.foldl (normalizeSegment true) (kept form) =
        kept (reduceFrom form (segments.map toStep)) := by
    intro segments
    induction segments with
    | nil => exact fun _ => rfl
    | cons segment segments ih =>
        intro form
        rw [List.foldl_cons, normalizeSegment_kept, ih]
        rfl
  exact hfrom _ (0, [])

theorem kept_eq_nil_iff (form : ℕ × List Name) : kept form = [] ↔ form = (0, []) := by
  obtain ⟨ups, names⟩ := form
  simp only [kept, List.append_eq_nil_iff, List.map_eq_nil_iff, List.replicate_eq_nil_iff,
    Prod.mk.injEq]
  exact and_comm

/-- Nothing that is kept is empty or a dot. -/
theorem of_mem_kept {form : ℕ × List Name} {segment : List Char} (h : segment ∈ kept form) :
    segment ≠ [] ∧ segment ≠ ['.'] ∧ (segment = ['.', '.'] → form.1 ≠ 0) := by
  rw [kept, List.mem_append] at h
  rcases h with hname | hdots
  · obtain ⟨name, -, rfl⟩ := List.mem_map.mp hname
    exact ⟨name.nonempty, name.not_dot, fun hdots => absurd hdots name.not_dots⟩
  · obtain ⟨hne, rfl⟩ := List.mem_replicate.mp hdots
    exact ⟨by simp, by simp, fun _ => hne⟩

theorem mem_normalizeSegment {kept : List (List Char)} {segment first : List Char}
    (h : segment ∈ normalizeSegment true kept first) : segment ∈ kept ∨ segment = first := by
  unfold normalizeSegment at h
  by_cases hhere : first = [] ∨ first = ['.']
  · rw [if_pos hhere] at h
    exact Or.inl h
  · rw [if_neg hhere] at h
    by_cases hup : first = ['.', '.']
    · rw [if_pos hup] at h
      cases kept with
      | nil => exact Or.inr (List.mem_singleton.mp h)
      | cons last rest =>
          by_cases hlast : last = ['.', '.']
          · simp only [hlast, if_true] at h
            rw [hlast]
            exact (List.mem_cons.mp h).symm
          · simp only [hlast, if_false] at h
            exact Or.inl (List.mem_cons_of_mem _ h)
    · rw [if_neg hup] at h
      exact (List.mem_cons.mp h).symm

/-- What is kept of a path's segments are segments of it. -/
theorem mem_normalizeString {segments : List (List Char)} {segment : List Char}
    (h : segment ∈ normalizeString true segments) : segment ∈ segments := by
  have hfrom : ∀ (segments kept : List (List Char)),
      segment ∈ segments.foldl (normalizeSegment true) kept →
        segment ∈ kept ∨ segment ∈ segments := by
    intro segments
    induction segments with
    | nil => exact fun _ => Or.inl
    | cons first segments ih =>
        intro kept hmem
        rcases ih _ hmem with hkept | hrest
        · rcases mem_normalizeSegment hkept with hold | rfl
          · exact Or.inl hold
          · exact Or.inr List.mem_cons_self
        · exact Or.inr (List.mem_cons_of_mem _ hrest)
  rcases hfrom segments [] h with hnil | hmem
  · cases hnil
  · exact hmem

/-- The segments of the normalised path. -/
def normalSegments (path : List Char) : List (List Char) :=
  (kept (reduce (steps path))).reverse ++ if endsWithSlash path then [[]] else []

theorem of_mem_normalSegments {path segment : List Char} (h : segment ∈ normalSegments path) :
    '/' ∉ segment ∧ segment ≠ ['.'] ∧
      (segment = ['.', '.'] → (reduce (steps path)).1 ≠ 0) := by
  rw [normalSegments, List.mem_append, List.mem_reverse] at h
  rcases h with hkept | hend
  · obtain ⟨-, hdot, hdots⟩ := of_mem_kept hkept
    rw [← normalizeString_eq] at hkept
    exact ⟨slash_not_mem_of_mem_splitOn (mem_normalizeString hkept), hdot, hdots⟩
  · have hnil : segment = [] := by
      split_ifs at hend
      · exact List.mem_singleton.mp hend
      · cases hend
    rw [hnil]
    simp

/-- The first of them is not empty, where there is one. -/
theorem exists_normalSegments_cons {path : List Char} (h : reduce (steps path) ≠ (0, [])) :
    ∃ first others, normalSegments path = first :: others ∧ first ≠ [] := by
  have hne : (kept (reduce (steps path))).reverse ≠ [] := by
    intro hnil
    exact h ((kept_eq_nil_iff _).mp (List.reverse_eq_nil_iff.mp hnil))
  obtain ⟨first, others, hsplit⟩ := List.exists_cons_of_ne_nil hne
  refine ⟨first, _, by rw [normalSegments, hsplit, List.cons_append], ?_⟩
  have hmem : first ∈ kept (reduce (steps path)) := by
    rw [← List.mem_reverse, hsplit]
    exact List.mem_cons_self
  exact (of_mem_kept hmem).1

theorem splitOn_normalSegments {path : List Char} (h : reduce (steps path) ≠ (0, [])) :
    (['/'].intercalate (normalSegments path)).splitOn '/' = normalSegments path := by
  apply List.splitOn_intercalate
  · intro segment hmem
    exact (of_mem_normalSegments hmem).1
  · obtain ⟨first, others, hsplit, -⟩ := exists_normalSegments_cons h
    rw [hsplit]
    exact List.cons_ne_nil _ _

theorem intercalate_concat_nil {segments : List (List Char)} (h : segments ≠ []) :
    ['/'].intercalate segments ++ ['/'] = ['/'].intercalate (segments ++ [[]]) := by
  induction segments with
  | nil => exact absurd rfl h
  | cons first segments ih =>
      cases segments with
      | nil => simp
      | cons second segments =>
          rw [List.intercalate_cons_cons, List.append_assoc, ih (List.cons_ne_nil _ _)]
          simp [List.intercalate_cons_cons]

theorem intercalate_ne_nil {first : List Char} {others : List (List Char)} (h : first ≠ []) :
    ['/'].intercalate (first :: others) ≠ [] := by
  cases others with
  | nil => simpa using h
  | cons second others => simp [List.intercalate_cons_cons]

theorem normalize_relative {path : List Char} (hne : path ≠ []) (hrel : isAbsolute path = false) :
    normalize path =
      if reduce (steps path) = (0, []) then
        if endsWithSlash path then ['.', '/'] else ['.']
      else ['/'].intercalate (normalSegments path) := by
  rw [normalize, if_neg hne]
  simp only [hrel, Bool.not_false, normalizeString_eq]
  by_cases hform : reduce (steps path) = (0, [])
  · rw [if_pos hform, hform]
    simp [kept]
  · have hkept : (kept (reduce (steps path))).reverse ≠ [] := by
      intro hnil
      exact hform ((kept_eq_nil_iff _).mp (List.reverse_eq_nil_iff.mp hnil))
    obtain ⟨first, others, hsplit⟩ := List.exists_cons_of_ne_nil hkept
    have hfirst : first ≠ [] := by
      have hmem : first ∈ kept (reduce (steps path)) := by
        rw [← List.mem_reverse, hsplit]
        exact List.mem_cons_self
      exact (of_mem_kept hmem).1
    have hjoined : ['/'].intercalate (kept (reduce (steps path))).reverse ≠ [] := by
      rw [hsplit]
      exact intercalate_ne_nil hfirst
    rw [if_neg hform, if_neg hjoined, normalSegments]
    simp only [Bool.false_eq_true, if_false]
    split
    · exact intercalate_concat_nil hkept
    · rw [List.append_nil]

/-! ## The first check -/

theorem not_isAbsolute_of_splitOn {path first : List Char} {others : List (List Char)}
    (hsplit : path.splitOn '/' = first :: others) (hfirst : first ≠ []) :
    isAbsolute path = false := by
  rw [← Bool.not_eq_true]
  intro habsolute
  obtain ⟨rest, rfl⟩ := exists_cons_of_isAbsolute habsolute
  rw [List.splitOn_cons_eq_if_modifyHead, if_pos (by simp)] at hsplit
  exact hfirst (List.cons.inj hsplit).1.symm

theorem dropDotSlashes_eq_self {path : List Char} (h : ['.'] ∉ path.splitOn '/') :
    dropDotSlashes path = path := by
  unfold dropDotSlashes
  split
  case h_2 => rfl
  case h_1 rest =>
      apply absurd _ h
      rw [show '.' :: '/' :: rest = ['.'] ++ '/' :: rest from rfl,
        List.splitOn_append_cons_self_of_not_mem (by simp)]
      exact List.mem_cons_self

theorem dropDotSlashes_slash (path : List Char) :
    dropDotSlashes ('/' :: path) = '/' :: path := by
  unfold dropDotSlashes
  rfl

theorem map_slashes_eq_self {path : List Char} (h : isPlain path = true) :
    path.map (fun c => if c = '\\' then '/' else c) = path := by
  have hplain : path.any (fun c => c = '\\') = false := by
    simp only [isPlain, Bool.and_eq_true, Bool.not_eq_true'] at h
    exact h.1.2
  conv_rhs => rw [← List.map_id path]
  apply List.map_congr_left
  intro c hc
  have hne : c ≠ '\\' := by simpa using List.any_eq_false.mp hplain c hc
  rw [if_neg hne]
  rfl

/-- What the check makes of an absolute path is absolute. -/
theorem isAbsolute_normalizeArchivePath {path : List Char} (hplain : isPlain path = true)
    (h : isAbsolute path = true) : ['/'].isPrefixOf (normalizeArchivePath path) = true := by
  obtain ⟨rest, rfl⟩ := exists_cons_of_isAbsolute h
  rw [normalizeArchivePath, map_slashes_eq_self hplain, normalize, if_neg (List.cons_ne_nil _ _)]
  simp only [h, if_true]
  split
  · rfl
  · rw [dropDotSlashes_slash]
    rfl

/-- The check of a relative path whose steps do not cancel. -/
theorem assertSafeArchivePath_of_ne {path : List Char} (hne : path ≠ [])
    (hplain : isPlain path = true) (hrel : isAbsolute path = false)
    (hform : reduce (steps path) ≠ (0, [])) :
    assertSafeArchivePath path =
      if (reduce (steps path)).1 = 0 then .ok (['/'].intercalate (normalSegments path))
      else .error (unsafeMessage path) := by
  have hsplit := splitOn_normalSegments hform
  obtain ⟨first, others, hcons, hfirst⟩ := exists_normalSegments_cons hform
  have hdot : ['.'] ∉ (['/'].intercalate (normalSegments path)).splitOn '/' := by
    rw [hsplit]
    intro hmem
    exact (of_mem_normalSegments hmem).2.1 rfl
  have hnormalized : normalizeArchivePath path = ['/'].intercalate (normalSegments path) := by
    rw [normalizeArchivePath, map_slashes_eq_self hplain, normalize_relative hne hrel,
      if_neg hform, dropDotSlashes_eq_self hdot]
  rw [assertSafeArchivePath, if_neg (by simp [hne, hplain])]
  simp only [hnormalized]
  by_cases hwithin : Within path
  · have hdots : ['.', '.'] ∉ (['/'].intercalate (normalSegments path)).splitOn '/' := by
      rw [hsplit]
      intro hmem
      exact (of_mem_normalSegments hmem).2.2 rfl hwithin
    have hrelative := not_isAbsolute_of_splitOn (hsplit.trans hcons) hfirst
    generalize ['/'].intercalate (normalSegments path) = text at *
    rw [if_neg, if_pos (show (reduce (steps path)).1 = 0 from hwithin)]
    rintro (rfl | hslash | rfl | hup | hmem)
    · exact hdot (by decide)
    · obtain ⟨rest, rfl⟩ := List.isPrefixOf_iff_prefix.mp hslash
      cases hrelative
    · exact hdots (by decide)
    · obtain ⟨rest, rfl⟩ := List.isPrefixOf_iff_prefix.mp hup
      apply hdots
      rw [show ['.', '.', '/'] ++ rest = ['.', '.'] ++ '/' :: rest from rfl,
        List.splitOn_append_cons_self_of_not_mem (by simp)]
      exact List.mem_cons_self
    · exact hdots hmem
  · have hmem : ['.', '.'] ∈ normalSegments path := by
      rw [normalSegments, List.mem_append, List.mem_reverse, kept, List.mem_append]
      exact Or.inl (Or.inr (List.mem_replicate.mpr ⟨hwithin, rfl⟩))
    rw [if_neg (show ¬(reduce (steps path)).1 = 0 from hwithin), if_pos]
    rw [hsplit]
    simp [hmem]

/-- The check of one whose steps do. -/
theorem assertSafeArchivePath_of_eq {path : List Char} (hne : path ≠ [])
    (hplain : isPlain path = true) (hrel : isAbsolute path = false)
    (hform : reduce (steps path) = (0, [])) :
    assertSafeArchivePath path =
      if endsWithSlash path then .ok [] else .error (unsafeMessage path) := by
  have hnormalized : normalizeArchivePath path = if endsWithSlash path then [] else ['.'] := by
    rw [normalizeArchivePath, map_slashes_eq_self hplain, normalize_relative hne hrel,
      if_pos hform]
    split <;> rfl
  rw [assertSafeArchivePath, if_neg (by simp [hne, hplain])]
  simp only [hnormalized]
  split
  · rfl
  · rfl

/-- What the check accepts. -/
theorem assertSafeArchivePath_eq_ok {path result : List Char}
    (h : assertSafeArchivePath path = .ok result) :
    isPlain path = true ∧ isAbsolute path = false ∧
      (Inside path ∧ result = ['/'].intercalate (normalSegments path) ∨
        LeadsNowhere path ∧ result = []) := by
  by_cases hgiven : path = [] ∨ isPlain path = false
  · rw [assertSafeArchivePath, if_pos hgiven] at h
    cases h
  · rw [not_or, Bool.not_eq_false] at hgiven
    obtain ⟨hne, hplain⟩ := hgiven
    by_cases habsolute : isAbsolute path = true
    · have hslash := isAbsolute_normalizeArchivePath hplain habsolute
      rw [assertSafeArchivePath, if_neg (by simp [hne, hplain]), if_pos (by simp [hslash])] at h
      cases h
    · have hrel : isAbsolute path = false := by simpa using habsolute
      refine ⟨hplain, hrel, ?_⟩
      by_cases hform : reduce (steps path) = (0, [])
      · rw [assertSafeArchivePath_of_eq hne hplain hrel hform] at h
        split at h
        case isFalse => cases h
        case isTrue hslash =>
            cases h
            refine Or.inr ⟨⟨hplain, hrel, hslash, ?_⟩, rfl⟩
            intro root
            rw [resolve, hrel]
            exact (PathStep.forall_walk_eq_iff _).mpr hform root
      · rw [assertSafeArchivePath_of_ne hne hplain hrel hform] at h
        split at h
        case isFalse => cases h
        case isTrue hwithin =>
            cases h
            refine Or.inl ⟨⟨hwithin, ?_⟩, rfl⟩
            intro hnames
            exact hform (Prod.ext hwithin hnames)

theorem exists_eq_ok {path : List Char} (hplain : isPlain path = true)
    (hrel : isAbsolute path = false) (hinside : Inside path) :
    ∃ result, assertSafeArchivePath path = .ok result := by
  have hform : reduce (steps path) ≠ (0, []) := by
    intro hform
    exact hinside.2 (by rw [hform])
  have hne : path ≠ [] := by
    rintro rfl
    exact hform (by decide)
  refine ⟨['/'].intercalate (normalSegments path), ?_⟩
  rw [assertSafeArchivePath_of_ne hne hplain hrel hform]
  exact if_pos hinside.1

/-- What the normal form of a path reduces to. -/
theorem reduce_normalSegments {path : List Char} (h : Within path) :
    reduce ((normalSegments path).map toStep) = (0, (reduce (steps path)).2) := by
  have hend : (if endsWithSlash path then [([] : List Char)] else []).map toStep =
      if endsWithSlash path then [.here] else [] := by
    split
    · simp [toStep_nil]
    · rfl
  have hnames : (kept (reduce (steps path))).reverse.map toStep =
      (reduce (steps path)).2.reverse.map .into := by
    rw [kept, show (reduce (steps path)).1 = 0 from h]
    simp [Function.comp_def, toStep_text]
  rw [normalSegments, List.map_append, hnames, hend, reduce, PathStep.reduceFrom_append,
    PathStep.reduceFrom_map_into, List.reverse_reverse, List.append_nil]
  split <;> rfl

/-- A path that leads inside and its normal form denote the same place. -/
theorem resolve_normalSegments {path : List Char} (hrel : isAbsolute path = false)
    (h : Inside path) (root : List Name) :
    isAbsolute (['/'].intercalate (normalSegments path)) = false ∧
      resolve root path = resolve root (['/'].intercalate (normalSegments path)) := by
  have hform : reduce (steps path) ≠ (0, []) := by
    intro hform
    exact h.2 (by rw [hform])
  have hsplit := splitOn_normalSegments hform
  obtain ⟨first, others, hcons, hfirst⟩ := exists_normalSegments_cons hform
  have hrelative := not_isAbsolute_of_splitOn (hsplit.trans hcons) hfirst
  refine ⟨hrelative, ?_⟩
  rw [resolve, resolve, hrel, hrelative, if_neg (by decide), if_neg (by decide),
    PathStep.walk_eq, PathStep.walk_eq, steps.eq_def (['/'].intercalate _), hsplit,
    reduce_normalSegments h.1, show (reduce (steps path)).1 = 0 from h.1]

/-! ## White space around a name -/

/-- A segment with white space in it is a name. -/
theorem exists_toStep_of_blank {segment : List Char} {c : Char} (hc : c ∈ segment)
    (hblank : isWhitespace c = true) : ∃ name, toStep segment = .into name := by
  have hdot : c ≠ '.' := by
    rintro rfl
    revert hblank
    decide
  cases hstep : toStep segment with
  | into name => exact ⟨name, rfl⟩
  | here => rcases here_of_toStep hstep with rfl | rfl <;> simp_all
  | up =>
      rw [eq_dots_of_toStep hstep] at hc
      simp [hdot] at hc

theorem slash_not_mem_of_blank {blank : List Char} (h : ∀ c ∈ blank, isWhitespace c = true) :
    '/' ∉ blank := by
  intro hmem
  have hslash := h '/' hmem
  revert hslash
  decide

/-- White space after a path leads no step up. -/
theorem within_append_blank {path blank : List Char} (h : Within path)
    (hblank : ∀ c ∈ blank, isWhitespace c = true) :
    Within (path ++ blank) ∧ (Inside path → Inside (path ++ blank)) := by
  cases blank with
  | nil =>
      rw [List.append_nil]
      exact ⟨h, id⟩
  | cons c blank =>
      obtain ⟨front, last, hsplit, happend⟩ := splitOn_append_right path
      obtain ⟨name, hname⟩ := exists_toStep_of_blank
        (List.mem_append_right last (List.mem_cons_self (a := c) (l := blank)))
        (hblank c List.mem_cons_self)
      have hfront : (reduceFrom (0, []) (front.map toStep)).1 = 0 := by
        have hle := PathStep.le_reduceFrom (reduceFrom (0, []) (front.map toStep)) [toStep last]
        rw [← PathStep.reduceFrom_append, ← List.map_singleton, ← List.map_append, ← hsplit] at hle
        exact Nat.le_zero.mp (Nat.le_trans hle (Nat.le_of_eq h))
      obtain ⟨names, hnames⟩ : ∃ names, reduceFrom (0, []) (front.map toStep) = (0, names) :=
        ⟨_, Prod.ext hfront rfl⟩
      have hreduce : reduce (steps (path ++ c :: blank)) = (0, name :: names) := by
        rw [steps, happend _ (slash_not_mem_of_blank hblank), List.map_append, List.map_singleton,
          hname, reduce, PathStep.reduceFrom_append, hnames]
        rfl
      refine ⟨congrArg Prod.fst hreduce, fun _ => ⟨congrArg Prod.fst hreduce, ?_⟩⟩
      rw [hreduce]
      exact List.cons_ne_nil _ _

/-- White space before a path leads into a name, so that it goes as deep as it went, and deeper
where it began with a slash. -/
theorem inside_blank_append {path blank : List Char} (h : Within path) (hne : blank ≠ [])
    (hblank : ∀ c ∈ blank, isWhitespace c = true)
    (hinside : Inside path ∨ isAbsolute path = true) : Inside (blank ++ path) := by
  obtain ⟨first, others, hsplit⟩ := List.exists_cons_of_ne_nil (List.splitOn_ne_nil '/' path)
  obtain ⟨c, hc⟩ := List.exists_mem_of_ne_nil blank hne
  obtain ⟨name, hname⟩ := exists_toStep_of_blank (List.mem_append_left first hc) (hblank c hc)
  have hpath : reduceFrom (reduceStep (0, []) (toStep first)) (others.map toStep) =
      (0, (reduce (steps path)).2) := by
    have hreduce : reduce (steps path) =
        reduceFrom (reduceStep (0, []) (toStep first)) (others.map toStep) := by
      rw [steps, hsplit]
      rfl
    rw [← hreduce]
    exact Prod.ext h rfl
  have hgoal : reduce (steps (blank ++ path)) = reduceFrom (0, [name]) (others.map toStep) := by
    rw [steps, splitOn_append_left (slash_not_mem_of_blank hblank) hsplit, List.map_cons, hname]
    rfl
  have hdeeper : ∃ last, reduceFrom (0, [name]) (others.map toStep) = (0, last) ∧
      last ≠ [] := by
    cases hstep : toStep first with
    | here =>
        rw [hstep] at hpath
        have hle : ([] : List Name).length ≤ [name].length := Nat.zero_le _
        obtain ⟨last, hlast, hlength⟩ := PathStep.exists_reduceFrom_of_le hle hpath
        refine ⟨last, hlast, ?_⟩
        rintro rfl
        simp at hlength
    | up =>
        rw [hstep] at hpath
        have hle := PathStep.le_reduceFrom (1, ([] : List Name)) (others.map toStep)
        rw [show reduceFrom (1, []) (others.map toStep) = _ from hpath] at hle
        simp at hle
    | into other =>
        rw [hstep] at hpath
        have hlength : [other].length ≤ [name].length := Nat.le_refl 1
        obtain ⟨last, hlast, hlength⟩ := PathStep.exists_reduceFrom_of_le hlength hpath
        refine ⟨last, hlast, ?_⟩
        have hnames : (reduce (steps path)).2 ≠ [] := by
          rcases hinside with hinside | habsolute
          · exact hinside.2
          · obtain ⟨rest, rfl⟩ := exists_cons_of_isAbsolute habsolute
            rw [List.splitOn_cons_eq_if_modifyHead, if_pos (by simp)] at hsplit
            rw [← (List.cons.inj hsplit).1, toStep_nil] at hstep
            cases hstep
        rintro rfl
        simp at hlength
        exact hnames hlength
  obtain ⟨last, hlast, hnonempty⟩ := hdeeper
  rw [hlast] at hgoal
  refine ⟨congrArg Prod.fst hgoal, ?_⟩
  rw [hgoal]
  exact hnonempty

/-- Trimming takes white space away, at both ends. -/
theorem exists_trim (entry : List Char) :
    ∃ front back, entry = front ++ trim entry ++ back ∧
      (∀ c ∈ front, isWhitespace c = true) ∧ ∀ c ∈ back, isWhitespace c = true := by
  refine ⟨entry.takeWhile isWhitespace,
    (entry.dropWhile isWhitespace).rtakeWhile isWhitespace, ?_, ?_, ?_⟩
  · have hsplit : trim entry ++ (entry.dropWhile isWhitespace).rtakeWhile isWhitespace =
        entry.dropWhile isWhitespace := List.rdropWhile_append_rtakeWhile
    rw [List.append_assoc, hsplit, List.takeWhile_append_dropWhile]
  · intro c hc
    exact List.mem_takeWhile_imp hc
  · intro c hc
    exact List.mem_rtakeWhile_imp hc

/-- Only slashes are dropped from the end. -/
theorem exists_dropTrailingSlashes (path : List Char) :
    ∃ n, path = dropTrailingSlashes path ++ List.replicate n '/' := by
  have hsplit : dropTrailingSlashes path ++ path.rtakeWhile (· = '/') = path :=
    List.rdropWhile_append_rtakeWhile
  have hall : ∀ c ∈ path.rtakeWhile (· = '/'), c = '/' := by
    intro c hc
    simpa using List.mem_rtakeWhile_imp hc
  refine ⟨(path.rtakeWhile (· = '/')).length, ?_⟩
  rw [← List.eq_replicate_of_mem hall]
  exact hsplit.symm

theorem within_slashes (n : ℕ) : Within (List.replicate n '/') := by
  have h := reduce_append_slashes [] n
  rw [List.nil_append] at h
  rw [Within, h]
  decide

theorem isAbsolute_append {path back : List Char} (hne : path ≠ []) :
    isAbsolute (path ++ back) = isAbsolute path := by
  cases path with
  | nil => exact absurd rfl hne
  | cons c path => rfl

theorem not_isAbsolute_of_blank {blank path : List Char} (hne : blank ≠ [])
    (hblank : ∀ c ∈ blank, isWhitespace c = true) : isAbsolute (blank ++ path) = false := by
  cases blank with
  | nil => exact absurd rfl hne
  | cons c blank =>
      have hc := hblank c List.mem_cons_self
      rw [← Bool.not_eq_true]
      intro habsolute
      obtain ⟨rest, hrest⟩ := exists_cons_of_isAbsolute habsolute
      rw [List.cons_append] at hrest
      rw [(List.cons.inj hrest).1] at hc
      revert hc
      decide

theorem isSlashes_append {n : ℕ} {back : List Char}
    (hback : ∀ c ∈ back, isWhitespace c = true) :
    isSlashes (List.replicate (n + 1) '/' ++ back) = true := by
  have hdrop : (List.replicate (n + 1) '/' ++ back).dropWhile (· = '/') =
      back.dropWhile (· = '/') := by
    apply List.dropWhile_append_of_pos
    intro c hc
    simp [List.eq_of_mem_replicate hc]
  rw [isSlashes, hdrop, Bool.and_eq_true]
  refine ⟨rfl, List.all_eq_true.mpr ?_⟩
  intro c hc
  exact hback c ((List.dropWhile_sublist _).subset hc)

/-! ## The second check -/

/-- A name that the second check accepts leads inside, with its white space, unless it consists of
slashes. -/
theorem inside_of_entry {entry : List Char} (haccepted : assertSafeZipEntry entry = .ok ())
    (htrim : trim entry ≠ []) (hslashes : isSlashes entry = false) :
    isAbsolute entry = false ∧ Inside entry := by
  obtain ⟨front, back, hentry, hfront, hback⟩ := exists_trim entry
  obtain ⟨n, htail⟩ := exists_dropTrailingSlashes (trim entry)
  rw [assertSafeZipEntry] at haccepted
  by_cases hnil : dropTrailingSlashes (trim entry) = []
  · rw [hnil, List.nil_append] at htail
    rw [htail] at hentry htrim
    have hwithin := (within_append_blank (within_slashes n) hback).1
    obtain ⟨m, rfl⟩ : ∃ m, n = m + 1 := by
      cases n with
      | zero => exact absurd rfl htrim
      | succ m => exact ⟨m, rfl⟩
    have hne : front ≠ [] := by
      rintro rfl
      rw [List.nil_append] at hentry
      rw [hentry, isSlashes_append hback] at hslashes
      cases hslashes
    rw [hentry, List.append_assoc]
    exact ⟨not_isAbsolute_of_blank hne hfront,
      inside_blank_append hwithin hne hfront (Or.inr rfl)⟩
  · simp only [hnil, if_false] at haccepted
    cases hresult : assertSafeArchivePath (dropTrailingSlashes (trim entry)) with
    | error message =>
        rw [hresult] at haccepted
        cases haccepted
    | ok result =>
        obtain ⟨-, hrel, hkind⟩ := assertSafeArchivePath_eq_ok hresult
        have hchecked : Inside (dropTrailingSlashes (trim entry)) := by
          rcases hkind with ⟨hinside, -⟩ | ⟨hnowhere, -⟩
          · exact hinside
          · obtain ⟨path, hpath⟩ := exists_concat_of_endsWithSlash hnowhere.slash
            have hlast := List.rdropWhile_last_not (· = '/') (trim entry) hnil
            apply absurd _ hlast
            have hslash : (dropTrailingSlashes (trim entry)).getLast? = some '/' := by
              rw [hpath, List.getLast?_concat]
            rw [List.getLast?_eq_getLast_of_ne_nil hnil, Option.some_inj] at hslash
            exact decide_eq_true hslash
        have htrimmed : Inside (trim entry) := by
          rw [htail, Inside, Within, reduce_append_slashes]
          exact hchecked
        have hback' := (within_append_blank htrimmed.1 hback).2 htrimmed
        have hrel' : isAbsolute (trim entry ++ back) = false := by
          rw [htail, List.append_assoc, isAbsolute_append hnil]
          exact hrel
        rw [List.append_assoc] at hentry
        by_cases hne : front = []
        · rw [hne, List.nil_append] at hentry
          rw [hentry]
          exact ⟨hrel', hback'⟩
        · rw [hentry]
          exact ⟨not_isAbsolute_of_blank hne hfront,
            inside_blank_append hback'.1 hne hfront (Or.inl hback')⟩

theorem exists_of_isSlashes {entry : List Char} (h : isSlashes entry = true) :
    ∃ n back, entry = List.replicate (n + 1) '/' ++ back ∧
      ∀ c ∈ back, isWhitespace c = true := by
  rw [isSlashes, Bool.and_eq_true] at h
  obtain ⟨habsolute, hback⟩ := h
  obtain ⟨rest, rfl⟩ := exists_cons_of_isAbsolute habsolute
  rw [List.dropWhile_cons_of_pos (by simp)] at hback
  refine ⟨(rest.takeWhile (· = '/')).length, rest.dropWhile (· = '/'), ?_,
    List.all_eq_true.mp hback⟩
  have hall : ∀ c ∈ rest.takeWhile (· = '/'), c = '/' := by
    intro c hc
    simpa using List.mem_takeWhile_imp hc
  rw [List.replicate_succ, ← List.eq_replicate_of_mem hall, List.cons_append,
    List.takeWhile_append_dropWhile]

/-- Slashes pass the second check. -/
theorem accepts_slashes {entry : List Char} (h : isSlashes entry = true) :
    assertSafeZipEntry entry = .ok () ∧ trim entry ≠ [] := by
  obtain ⟨n, back, rfl, hback⟩ := exists_of_isSlashes h
  have hslash : ¬isWhitespace '/' = true := by decide
  have htrim : trim (List.replicate (n + 1) '/' ++ back) = List.replicate (n + 1) '/' := by
    rw [trim, stripEnds, List.replicate_succ, List.cons_append,
      List.dropWhile_cons_of_neg hslash, ← List.cons_append, ← List.replicate_succ,
      List.reverse_append, List.dropWhile_append_of_pos, List.reverse_replicate,
      List.replicate_succ, List.dropWhile_cons_of_neg hslash, ← List.replicate_succ,
      List.reverse_replicate]
    intro c hc
    exact hback c (List.mem_reverse.mp hc)
  have hdrop : dropTrailingSlashes (List.replicate (n + 1) '/') = [] := by
    simp [dropTrailingSlashes]
  rw [htrim]
  refine ⟨?_, by simp⟩
  rw [assertSafeZipEntry, htrim]
  simp only [hdrop, if_true]

/-! ## The promise -/

/-- **Accepted entries stay inside the root**, for every path but those that end with a slash and
lead nowhere, and those that are slashes only. -/
theorem staysInside_iff (path : List Char) :
    StaysInside path ↔ ¬LeadsNowhere path ∧ isSlashes path = false := by
  constructor
  · intro h
    constructor
    · intro hnowhere
      have hne : path ≠ [] := by
        rintro rfl
        exact absurd hnowhere.slash (by decide)
      have hform : reduce (steps path) = (0, []) := by
        rw [← PathStep.forall_walk_eq_iff]
        intro root
        have hroot := hnowhere.nowhere root
        rwa [resolve, hnowhere.relative] at hroot
      have hok := assertSafeArchivePath_of_eq hne hnowhere.plain hnowhere.relative hform
      rw [hnowhere.slash] at hok
      exact (h.accepted [] hok).1 rfl
    · rw [← Bool.not_eq_true]
      intro hslashes
      obtain ⟨hok, htrim⟩ := accepts_slashes hslashes
      rw [isSlashes, Bool.and_eq_true] at hslashes
      exact not_leadsInside hslashes.1 (h.extracted hok htrim)
  · rintro ⟨hnowhere, hslashes⟩
    constructor
    · intro result hok
      obtain ⟨-, hrel, hkind⟩ := assertSafeArchivePath_eq_ok hok
      rcases hkind with ⟨hinside, rfl⟩ | ⟨hnowhere', -⟩
      · have hform : reduce (steps path) ≠ (0, []) := by
          intro hform
          exact hinside.2 (by rw [hform])
        obtain ⟨first, others, hcons, hfirst⟩ := exists_normalSegments_cons hform
        refine ⟨?_, ?_, (leadsInside_iff hrel).mpr hinside, ?_⟩
        · rw [hcons]
          exact intercalate_ne_nil hfirst
        · exact (resolve_normalSegments hrel hinside []).1
        · intro root
          exact (resolve_normalSegments hrel hinside root).2
      · exact absurd hnowhere' hnowhere
    · intro hok htrim
      obtain ⟨hrel, hinside⟩ := inside_of_entry hok htrim hslashes
      exact (leadsInside_iff hrel).mpr hinside
    · intro hplain hrel hinside
      exact exists_eq_ok hplain hrel ((leadsInside_iff hrel).mp hinside)

/-- `./` is accepted as the empty path, and `/` as an entry. -/
theorem not_staysInside_slash :
    ¬StaysInside "./".toList ∧ assertSafeArchivePath "./".toList = .ok [] ∧
      ¬StaysInside "/".toList ∧ assertSafeZipEntry "/".toList = .ok () := by
  have hdot : assertSafeArchivePath "./".toList = .ok [] := by decide
  have hslash : assertSafeZipEntry "/".toList = .ok () := by decide
  refine ⟨?_, hdot, ?_, hslash⟩
  · intro h
    exact (h.accepted [] hdot).1 rfl
  · intro h
    obtain ⟨names, hne, hnames⟩ := h.extracted hslash (by decide) []
    rw [List.append_nil] at hnames
    apply hne
    rw [← hnames]
    decide

end Eveland.ArchivePaths
