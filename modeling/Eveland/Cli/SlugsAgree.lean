/-
# When the two slugs agree

Both rules end alike, so they differ only in a hyphen: the command line keeps one where the
platform takes it into a run. They agree on a slug exactly when no two of its hyphens are adjacent,
and what is left is to read this off the name the slug was derived from.
-/

import Eveland.Cli.ProjectSlugs
import Mathlib.Data.List.Chain
import Mathlib.Data.List.DropRight

namespace Eveland.ProjectSlugs

open JsString (isLowerAlphaNum stripEnds lowerChar)

/-- The characters of a slug. -/
def isSlugChar (c : Char) : Bool := isLowerAlphaNum c || c = '-'

/-- No two hyphens are adjacent. -/
def SingleHyphens (cs : List Char) : Prop := cs.IsChain fun a b => ¬(a = '-' ∧ b = '-')

theorem isLowerAlphaNum_hyphen : isLowerAlphaNum '-' = false := by decide

theorem ne_hyphen {c : Char} (h : isLowerAlphaNum c = true) : c ≠ '-' := by
  intro heq
  rw [heq, isLowerAlphaNum_hyphen] at h
  cases h

/-! ## Dropping hyphens at the end -/

@[simp]
theorem stripTrailing_nil : stripTrailing [] = [] := rfl

theorem stripTrailing_eq_rdropWhile (cs : List Char) :
    stripTrailing cs = cs.rdropWhile (· = '-') := rfl

theorem prefix_stripTrailing (cs : List Char) : stripTrailing cs <+: cs := by
  rw [stripTrailing_eq_rdropWhile]
  apply List.rdropWhile_prefix

theorem stripTrailing_cons {c : Char} (hc : c ≠ '-') (cs : List Char) :
    stripTrailing (c :: cs) = c :: stripTrailing cs := by
  rw [stripTrailing, stripTrailing, List.reverse_cons, List.dropWhile_append]
  split
  case isTrue hall => simp [List.isEmpty_iff.mp hall, hc]
  case isFalse => simp

theorem stripTrailing_append_replicate (cs : List Char) (k : ℕ) :
    stripTrailing (cs ++ List.replicate k '-') = stripTrailing cs := by
  rw [stripTrailing, List.reverse_append, List.dropWhile_append_of_pos, ← stripTrailing]
  intro c hc
  rw [List.mem_reverse] at hc
  simp [List.eq_of_mem_replicate hc]

theorem stripTrailing_replicate (k : ℕ) : stripTrailing (List.replicate k '-') = [] := by
  have h := stripTrailing_append_replicate [] k
  rw [List.nil_append] at h
  exact h

/-- Only hyphens are dropped. -/
theorem stripTrailing_append_hyphens (cs : List Char) :
    ∃ k, stripTrailing cs ++ List.replicate k '-' = cs := by
  have hsplit := List.rdropWhile_append_rtakeWhile (p := (· = '-')) (l := cs)
  have hall : ∀ c ∈ cs.rtakeWhile (· = '-'), c = '-' := by
    intro c hc
    simpa using List.mem_rtakeWhile_imp hc
  refine ⟨(cs.rtakeWhile (· = '-')).length, ?_⟩
  rw [← List.eq_replicate_of_mem hall]
  exact hsplit

/-- Hyphens dropped before a cut need not be: the ones after the cut drop them. -/
theorem stripTrailing_take_stripTrailing (n : ℕ) (cs : List Char) :
    stripTrailing ((stripTrailing cs).take n) = stripTrailing (cs.take n) := by
  obtain ⟨k, hk⟩ := stripTrailing_append_hyphens cs
  conv_rhs => rw [← hk, List.take_append, List.take_replicate, stripTrailing_append_replicate]

theorem stripTrailing_eq_self {cs : List Char} (h : cs.getLast?.any isLowerAlphaNum = true) :
    stripTrailing cs = cs := by
  rw [stripTrailing_eq_rdropWhile, List.rdropWhile_eq_self_iff]
  intro hne
  rw [List.getLast?_eq_getLast_of_ne_nil hne, Option.any_some] at h
  simpa using ne_hyphen h

theorem getLast?_stripTrailing {cs : List Char} {c : Char}
    (h : (stripTrailing cs).getLast? = some c) : c ≠ '-' := by
  have hne : stripTrailing cs ≠ [] := by
    intro hnil
    rw [hnil] at h
    cases h
  have hnot := List.rdropWhile_last_not (· = '-') cs hne
  rw [List.getLast?_eq_getLast_of_ne_nil hne, Option.some_inj] at h
  intro heq
  apply hnot
  simpa [← stripTrailing_eq_rdropWhile, h] using heq

/-- What both rules end with, as one cut. -/
theorem trimSlug_eq (cs : List Char) :
    trimSlug cs = stripTrailing ((cs.dropWhile (· = '-')).take projectSlugMaxLength) := by
  rw [trimSlug, stripEnds]
  exact stripTrailing_take_stripTrailing _ _

/-! ## Adjacent hyphens -/

theorem SingleHyphens.stripTrailing {cs : List Char} (h : SingleHyphens cs) :
    SingleHyphens (stripTrailing cs) :=
  List.IsChain.prefix h (prefix_stripTrailing cs)

theorem SingleHyphens.trimSlug {cs : List Char} (h : SingleHyphens cs) :
    SingleHyphens (trimSlug cs) := by
  rw [trimSlug_eq]
  apply SingleHyphens.stripTrailing
  apply List.IsChain.take
  exact List.IsChain.suffix h (List.dropWhile_suffix _)

theorem singleHyphens_cons_of_ne {c : Char} (hc : c ≠ '-') (cs : List Char) :
    SingleHyphens (c :: cs) ↔ SingleHyphens cs := by
  rw [SingleHyphens, List.isChain_cons]
  simp [hc, SingleHyphens]

theorem singleHyphens_hyphen (cs : List Char) :
    SingleHyphens ('-' :: cs) ↔ cs.head? ≠ some '-' ∧ SingleHyphens cs := by
  rw [SingleHyphens, List.isChain_cons]
  cases cs <;> simp [SingleHyphens]

/-- Within a run no hyphen comes first. -/
theorem head?_replaceRuns_inRun (cs : List Char) :
    (replaceRuns isLowerAlphaNum true cs).head? ≠ some '-' := by
  induction cs with
  | nil => simp [replaceRuns]
  | cons c cs ih =>
      rw [replaceRuns]
      by_cases hc : isLowerAlphaNum c = true
      · simp [hc, ne_hyphen hc]
      · simpa [hc] using ih

/-- The platform's rule leaves no adjacent hyphens. -/
theorem singleHyphens_replaceRuns (inRun : Bool) (cs : List Char) :
    SingleHyphens (replaceRuns isLowerAlphaNum inRun cs) := by
  induction cs generalizing inRun with
  | nil => exact List.isChain_nil
  | cons c cs ih =>
      rw [replaceRuns]
      by_cases hc : isLowerAlphaNum c = true
      · rw [if_pos hc, singleHyphens_cons_of_ne (ne_hyphen hc)]
        exact ih false
      · rw [if_neg hc]
        cases inRun with
        | true => exact ih true
        | false =>
            rw [if_neg (by decide), singleHyphens_hyphen]
            exact ⟨head?_replaceRuns_inRun cs, ih true⟩

theorem replaceRuns_inRun {cs : List Char} (h : cs.head? ≠ some '-')
    (hchars : ∀ c ∈ cs, isSlugChar c = true) :
    replaceRuns isLowerAlphaNum true cs = replaceRuns isLowerAlphaNum false cs := by
  cases cs with
  | nil => rfl
  | cons c cs =>
      have hc : isLowerAlphaNum c = true := by
        have := hchars c List.mem_cons_self
        rw [List.head?_cons, Ne, Option.some_inj] at h
        simpa [isSlugChar, h] using this
      simp [replaceRuns, hc]

/-- The platform's rule finds nothing to do where no hyphens are adjacent. -/
theorem replaceRuns_eq_self {cs : List Char} (hchars : ∀ c ∈ cs, isSlugChar c = true)
    (h : SingleHyphens cs) : replaceRuns isLowerAlphaNum false cs = cs := by
  induction cs with
  | nil => rfl
  | cons c cs ih =>
      have hrest : ∀ d ∈ cs, isSlugChar d = true :=
        fun d hd => hchars d (List.mem_cons_of_mem _ hd)
      by_cases hc : isLowerAlphaNum c = true
      · rw [singleHyphens_cons_of_ne (ne_hyphen hc)] at h
        rw [replaceRuns, if_pos hc, ih hrest h]
      · have hhyphen : c = '-' := by
          simpa [isSlugChar, hc] using hchars c List.mem_cons_self
        subst hhyphen
        rw [singleHyphens_hyphen] at h
        rw [replaceRuns, if_neg hc, if_neg (by decide), replaceRuns_inRun h.1 hrest,
          ih hrest h.2]

/-! ## The slug of the command line -/

/-- What the command line's rule makes of a text, before the cut. -/
def image (inRun : Bool) (cs : List Char) : List Char :=
  replaceRuns (fun c => isLowerAlphaNum c || c = '-') inRun cs

theorem image_cons (inRun : Bool) (c : Char) (cs : List Char) :
    image inRun (c :: cs) =
      if isLowerAlphaNum c then c :: image false cs
      else if c = '-' then '-' :: image false cs
      else if inRun then image true cs
      else '-' :: image true cs := by
  rw [image, replaceRuns]
  by_cases hc : isLowerAlphaNum c = true
  · simp [hc, image]
  · by_cases hhyphen : c = '-'
    · simp [hhyphen, image]
    · simp [hc, hhyphen, image]

theorem image_chars (inRun : Bool) (cs : List Char) :
    ∀ c ∈ image inRun cs, isSlugChar c = true := by
  induction cs generalizing inRun with
  | nil => simp [image, replaceRuns]
  | cons c cs ih =>
      intro d hd
      rw [image_cons] at hd
      split_ifs at hd with hc hhyphen hrun
      · rcases List.mem_cons.mp hd with rfl | hd
        · simp [isSlugChar, hc]
        · exact ih false d hd
      · rcases List.mem_cons.mp hd with rfl | hd
        · decide
        · exact ih false d hd
      · exact ih true d hd
      · rcases List.mem_cons.mp hd with rfl | hd
        · decide
        · exact ih true d hd

theorem head?_dropWhile_alphaNum (cs : List Char) {c : Char}
    (h : (cs.dropWhile fun c => !isLowerAlphaNum c).head? = some c) :
    isLowerAlphaNum c = true := by
  have hnot := List.head?_dropWhile_not (fun c => !isLowerAlphaNum c) cs
  rw [h] at hnot
  simpa using hnot

/-- Before a letter or a digit it does not matter whether a run goes on. -/
theorem image_dropWhile (inRun : Bool) (cs : List Char) :
    image inRun (cs.dropWhile fun c => !isLowerAlphaNum c) =
      image false (cs.dropWhile fun c => !isLowerAlphaNum c) := by
  cases hcs : cs.dropWhile fun c => !isLowerAlphaNum c with
  | nil => rfl
  | cons c rest =>
      have hc : isLowerAlphaNum c = true := by
        apply head?_dropWhile_alphaNum cs
        rw [hcs, List.head?_cons]
      rw [image_cons, image_cons, if_pos hc, if_pos hc]

/-- The hyphens that come first stem from what precedes the first letter or digit. -/
theorem dropWhile_image (inRun : Bool) (cs : List Char) :
    (image inRun cs).dropWhile (· = '-') =
      image false (cs.dropWhile fun c => !isLowerAlphaNum c) := by
  induction cs generalizing inRun with
  | nil => rfl
  | cons c cs ih =>
      rw [image_cons]
      by_cases hc : isLowerAlphaNum c = true
      · rw [if_pos hc, List.dropWhile_cons_of_neg (by simpa using ne_hyphen hc),
          List.dropWhile_cons_of_neg (by simp [hc]), image_cons, if_pos hc]
      · rw [if_neg hc, List.dropWhile_cons_of_pos (p := fun c => !isLowerAlphaNum c)
          (by simpa using hc)]
        split_ifs with hhyphen hrun
        · rw [List.dropWhile_cons_of_pos (by simp)]
          exact ih false
        · exact ih true
        · rw [List.dropWhile_cons_of_pos (by simp)]
          exact ih true

/-- What the command line looks for. -/
def derivedSlug (cs : List Char) : List Char :=
  stripTrailing ((image false (cs.dropWhile fun c => !isLowerAlphaNum c)).take
    projectSlugMaxLength)

theorem projectSlugFrom_eq (U : Unicode) (explicit : Option String) (fallback : String) :
    projectSlugFrom U explicit fallback =
      if derivedSlug (U.toLowerCase (explicit.getD fallback).toList) = [] then
        .error ("Cannot derive a project slug from '" ++ explicit.getD fallback ++ "'.")
      else .ok (derivedSlug (U.toLowerCase (explicit.getD fallback).toList)) := by
  have htrim : ∀ cs, trimSlug
      (replaceRuns (fun c => isLowerAlphaNum c || c = '-') false cs) = derivedSlug cs := by
    intro cs
    rw [trimSlug_eq, derivedSlug, ← dropWhile_image false, image]
  rw [projectSlugFrom]
  simp only [htrim]

theorem projectSlugFrom_eq_ok {U : Unicode} {explicit : Option String} {fallback : String}
    {slug : List Char} (h : projectSlugFrom U explicit fallback = .ok slug) :
    slug = derivedSlug (U.toLowerCase (explicit.getD fallback).toList) ∧ slug ≠ [] := by
  rw [projectSlugFrom_eq] at h
  split at h
  case isTrue => cases h
  case isFalse hne =>
      cases h
      exact ⟨rfl, hne⟩

/-! ## A slug is a project's name -/

/-- A slug starts and ends with a letter or a digit and fits the limit. -/
structure IsSlug (slug : List Char) : Prop where
  nonempty : slug ≠ []
  chars : ∀ c ∈ slug, isSlugChar c = true
  first : slug.head?.any isLowerAlphaNum = true
  last : slug.getLast?.any isLowerAlphaNum = true
  short : slug.length ≤ projectSlugMaxLength

theorem alphaNum_of_ne {c : Char} (h : isSlugChar c = true) (hc : c ≠ '-') :
    isLowerAlphaNum c = true := by
  simpa [isSlugChar, hc] using h

theorem derivedSlug_chars (cs : List Char) : ∀ c ∈ derivedSlug cs, isSlugChar c = true := by
  intro c hc
  apply image_chars false (cs.dropWhile fun c => !isLowerAlphaNum c)
  exact List.mem_of_mem_take ((prefix_stripTrailing _).subset hc)

theorem derivedSlug_head? {cs : List Char} {c : Char} (h : (derivedSlug cs).head? = some c) :
    isLowerAlphaNum c = true := by
  have hprefix : derivedSlug cs <+: image false (cs.dropWhile fun c => !isLowerAlphaNum c) :=
    (prefix_stripTrailing _).trans (List.take_prefix _ _)
  have himage : (image false (cs.dropWhile fun c => !isLowerAlphaNum c)).head? = some c := by
    obtain ⟨rest, hrest⟩ := hprefix
    rw [← hrest, List.head?_append, h, Option.some_or]
  cases hcs : cs.dropWhile fun c => !isLowerAlphaNum c with
  | nil =>
      rw [hcs] at himage
      cases himage
  | cons d rest =>
      have hd : isLowerAlphaNum d = true := by
        apply head?_dropWhile_alphaNum cs
        rw [hcs, List.head?_cons]
      rw [hcs, image_cons, if_pos hd, List.head?_cons, Option.some_inj] at himage
      rwa [← himage]

theorem isSlug_derivedSlug {cs : List Char} (hne : derivedSlug cs ≠ []) :
    IsSlug (derivedSlug cs) where
  nonempty := hne
  chars := derivedSlug_chars cs
  first := by
    rw [List.head?_eq_some_head hne, Option.any_some]
    exact derivedSlug_head? (List.head?_eq_some_head hne)
  last := by
    have hlast := List.getLast?_eq_getLast_of_ne_nil hne
    rw [hlast, Option.any_some]
    apply alphaNum_of_ne
    · exact derivedSlug_chars cs _ (List.getLast_mem hne)
    · exact getLast?_stripTrailing hlast
  short := by
    calc (derivedSlug cs).length
        ≤ _ := (prefix_stripTrailing _).length_le
      _ ≤ projectSlugMaxLength := List.length_take_le _ _

/-- The platform accepts every slug that the command line derives. -/
theorem IsSlug.isProjectName {slug : List Char} (h : IsSlug slug) : isProjectName slug = true := by
  have hchars : slug.all (fun c => isLowerAlphaNum c || c = '-') = true :=
    List.all_eq_true.mpr h.chars
  simp [ProjectSlugs.isProjectName, h.nonempty, h.short, h.first, h.last, hchars]

theorem IsSlug.trimSlug {slug : List Char} (h : IsSlug slug) : trimSlug slug = slug := by
  have hfirst : slug.dropWhile (· = '-') = slug := by
    cases slug with
    | nil => rfl
    | cons c cs =>
        have hc : isLowerAlphaNum c = true := by simpa using h.first
        exact List.dropWhile_cons_of_neg (by simpa using ne_hyphen hc)
  rw [trimSlug_eq, hfirst, List.take_of_length_le h.short, stripTrailing_eq_self h.last]

/-! ## The platform's slug of a slug -/

theorem isSlugChar_ascii {c : Char} (h : isSlugChar c = true) :
    c.toNat < 128 ∧ c.toNat ≠ 94 ∧ c.toNat ≠ 96 ∧ lowerChar c = c := by
  by_cases hc : c = '-'
  · subst hc
    decide
  · have halnum := alphaNum_of_ne h hc
    simp only [isLowerAlphaNum, Bool.or_eq_true, Bool.and_eq_true, decide_eq_true_eq] at halnum
    refine ⟨by omega, by omega, by omega, ?_⟩
    rw [lowerChar, if_neg (by omega), if_neg (by omega)]

theorem slugifyProjectName_slug (U : Unicode) {slug : List Char} (h : IsSlug slug) :
    slugifyProjectName U slug =
      if trimSlug (replaceRuns isLowerAlphaNum false slug) = [] then
        .error "Project name must contain at least one ASCII letter or number."
      else .ok (trimSlug (replaceRuns isLowerAlphaNum false slug)) := by
  have hascii : ∀ c ∈ slug, c.toNat < 128 := fun c hc => (isSlugChar_ascii (h.chars c hc)).1
  have hfilter : slug.filter (fun c => !U.isDiacritic c) = slug := by
    rw [List.filter_eq_self]
    intro c hc
    obtain ⟨hlt, h94, h96, -⟩ := isSlugChar_ascii (h.chars c hc)
    rw [Bool.not_eq_true', ← Bool.not_eq_true]
    intro hdiacritic
    rcases U.isDiacritic_ascii c hlt hdiacritic with heq | heq
    · exact h94 heq
    · exact h96 heq
  have hlower : slug.map lowerChar = slug := by
    conv_rhs => rw [← List.map_id slug]
    apply List.map_congr_left
    intro c hc
    exact (isSlugChar_ascii (h.chars c hc)).2.2.2
  rw [slugifyProjectName]
  simp only [U.normalizeNFKD_ascii slug hascii, hfilter, U.toLowerCase_ascii slug hascii, hlower]

/-- The platform leaves a slug unchanged exactly when no two of its hyphens are adjacent. -/
theorem slugifyProjectName_eq_self (U : Unicode) {slug : List Char} (h : IsSlug slug) :
    slugifyProjectName U slug = .ok slug ↔ SingleHyphens slug := by
  rw [slugifyProjectName_slug U h]
  constructor
  · intro heq
    split at heq
    case isTrue => cases heq
    case isFalse =>
        have hslug : trimSlug (replaceRuns isLowerAlphaNum false slug) = slug := by
          simpa using heq
        rw [← hslug]
        exact (singleHyphens_replaceRuns false slug).trimSlug
  · intro hsingle
    rw [replaceRuns_eq_self h.chars hsingle, h.trimSlug, if_neg h.nonempty]

/-! ## The slug and the name -/

/-- `separatesOnce`, read off what the command line makes of the name. -/
def tidy (room pending : ℕ) : List Char → Bool
  | [] => true
  | c :: cs =>
      if c = '-' then tidy room (pending + 1) cs
      else room ≤ pending || (pending ≤ 1 && tidy (room - pending - 1) 0 cs)

theorem separatesOnce_eq_tidy (room pending : ℕ) (inRun : Bool) (cs : List Char) :
    separatesOnce room pending inRun cs = tidy room pending (image inRun cs) := by
  induction cs generalizing room pending inRun with
  | nil => rfl
  | cons c cs ih =>
      rw [separatesOnce, image_cons]
      split_ifs with hc hhyphen hrun
      · rw [tidy, if_neg (ne_hyphen hc), ih]
      · rw [tidy, if_pos rfl, ih]
      · exact ih room pending true
      · rw [tidy, if_pos rfl, ih]

theorem singleHyphens_replicate_cons {c : Char} (hc : c ≠ '-') (pending : ℕ) (cs : List Char) :
    SingleHyphens (List.replicate pending '-' ++ c :: cs) ↔ pending ≤ 1 ∧ SingleHyphens cs := by
  match pending with
  | 0 => simp [singleHyphens_cons_of_ne hc]
  | 1 => simp [singleHyphens_hyphen, singleHyphens_cons_of_ne hc, hc]
  | pending + 2 => simp [List.replicate_succ, singleHyphens_hyphen]

theorem stripTrailing_replicate_cons {c : Char} (hc : c ≠ '-') (pending : ℕ) (cs : List Char) :
    stripTrailing (List.replicate pending '-' ++ c :: cs) =
      List.replicate pending '-' ++ c :: stripTrailing cs := by
  rw [stripTrailing, List.reverse_append, List.dropWhile_append]
  have hrest : ((c :: cs).reverse.dropWhile (· = '-')).reverse = c :: stripTrailing cs :=
    stripTrailing_cons hc cs
  have hne : ((c :: cs).reverse.dropWhile (· = '-')).isEmpty = false := by
    rw [← List.isEmpty_reverse, hrest]
    rfl
  rw [hne, if_neg (by decide), List.reverse_append, List.reverse_reverse, hrest]

/-- What fits in `room` after `pending` hyphens has no adjacent ones. -/
theorem tidy_iff (room pending : ℕ) (cs : List Char) :
    tidy room pending cs = true ↔
      SingleHyphens (stripTrailing ((List.replicate pending '-' ++ cs).take room)) := by
  induction cs generalizing room pending with
  | nil =>
      rw [List.append_nil, List.take_replicate, stripTrailing_replicate]
      exact ⟨fun _ => List.isChain_nil, fun _ => rfl⟩
  | cons c cs ih =>
      rw [tidy]
      by_cases hc : c = '-'
      · rw [if_pos hc, ih, hc, List.replicate_succ', List.append_assoc, List.singleton_append]
      · rw [if_neg hc]
        by_cases hroom : room ≤ pending
        · have hcut : (List.replicate pending '-' ++ c :: cs).take room =
              List.replicate room '-' := by
            rw [List.take_append_of_le_length (by simpa using hroom), List.take_replicate,
              Nat.min_eq_left hroom]
          rw [hcut, stripTrailing_replicate]
          simp [hroom, SingleHyphens]
        · have hcut : (List.replicate pending '-' ++ c :: cs).take room =
              List.replicate pending '-' ++ c :: cs.take (room - pending - 1) := by
            rw [List.take_append, List.length_replicate, List.take_replicate,
              Nat.min_eq_right (by omega)]
            obtain ⟨k, hk⟩ : ∃ k, room - pending = k + 1 := ⟨room - pending - 1, by omega⟩
            rw [hk, List.take_succ_cons, Nat.add_sub_cancel]
          rw [hcut, stripTrailing_replicate_cons hc, singleHyphens_replicate_cons hc]
          have hih := ih (room - pending - 1) 0
          rw [List.replicate_zero, List.nil_append] at hih
          rw [← hih]
          simp [hroom]

/-- The condition on the name is the one on the slug. -/
theorem nameSeparatesOnce_iff (U : Unicode) (explicit : Option String) (fallback : String) :
    NameSeparatesOnce U explicit fallback ↔
      SingleHyphens (derivedSlug (U.toLowerCase (explicit.getD fallback).toList)) := by
  rw [NameSeparatesOnce, separatesOnce_eq_tidy, tidy_iff, List.replicate_zero, List.nil_append,
    derivedSlug]

/-! ## The projects -/

theorem createProject_eq_some {U : Unicode} {s t : State} {name : List Char} {id : String}
    {project : Project} (h : createProject U s name id = some (t, project)) :
    ∃ slug, slugifyProjectName U name = .ok slug ∧ project = ⟨id, slug⟩ ∧
      t.projects = s.projects ++ [project] ∧
      (∀ row ∈ s.projects, row.id ≠ id) ∧ ∀ row ∈ s.projects, row.slug ≠ slug := by
  rw [createProject] at h
  split at h
  case isFalse => cases h
  case isTrue hname =>
      split at h
      case h_1 => cases h
      case h_2 slug hslug =>
          split at h
          case isTrue => cases h
          case isFalse hfree =>
              cases h
              refine ⟨slug, hslug, rfl, rfl, ?_, ?_⟩
              · simpa using hname.2
              · simpa using hfree

theorem UniqueSlugs.createProject {U : Unicode} {s t : State} {name : List Char} {id : String}
    {project : Project} (hs : UniqueSlugs s)
    (h : createProject U s name id = some (t, project)) : UniqueSlugs t := by
  obtain ⟨slug, -, rfl, hrows, hid, hslug⟩ := createProject_eq_some h
  rw [UniqueSlugs, hrows]
  exact ⟨hs.1.append hslug, hs.2.append hid⟩

theorem UniqueSlugs.step {U : Unicode} {s t : State} {a : Action} (hs : UniqueSlugs s)
    (h : step U s a = some t) : UniqueSlugs t := by
  cases a with
  | create name id =>
      obtain ⟨⟨u, project⟩, hcreate, rfl⟩ := Option.map_eq_some_iff.mp h
      exact hs.createProject hcreate
  | remove id =>
      cases h
      have hsub : (s.projects.filter fun project => project.id ≠ id).Sublist s.projects :=
        List.filter_sublist
      exact ⟨hs.1.sublist (hsub.map _), hs.2.sublist (hsub.map _)⟩

theorem UniqueSlugs.exec {U : Unicode} {s t : State} {actions : List Action}
    (hs : UniqueSlugs s) (h : (machine U).exec s actions = some t) : UniqueSlugs t := by
  induction actions generalizing s with
  | nil =>
      cases h
      exact hs
  | cons a actions ih =>
      obtain ⟨m, hstep, hrest⟩ := (machine U).exec_cons_eq_some.mp h
      exact ih (hs.step hstep) hrest

theorem runDeploy_created {U : Unicode} {s t : State} {explicit : Option String}
    {fallback id : String} {project : Project}
    (h : runDeploy U s explicit fallback id = .created project t) :
    ∃ slug, projectSlugFrom U explicit fallback = .ok slug ∧
      createProject U s slug id = some (t, project) := by
  rw [runDeploy] at h
  split at h
  case h_1 => cases h
  case h_2 slug hslug =>
      split at h
      case h_1 => cases h
      case h_2 =>
          split at h
          case h_1 => cases h
          case h_2 hcreate =>
              cases h
              exact ⟨slug, hslug, hcreate⟩

/-- The command line finds the project that has the slug it looks for. -/
theorem finds_project {U : Unicode} {s : State} {explicit : Option String} {fallback : String}
    {slug : List Char} {project : Project} (hs : UniqueSlugs s)
    (hslug : projectSlugFrom U explicit fallback = .ok slug) (hmem : project ∈ s.projects)
    (hproject : project.slug = slug) :
    resolveProject U s explicit fallback = some project ∧
      ∀ other, runDeploy U s explicit fallback other = .found project := by
  have hfind : findProject s slug = some project := by
    rw [findProject, ← hproject]
    exact hs.1.find?_eq_some hmem
  constructor
  · rw [resolveProject, hslug]
    exact hfind
  · intro other
    rw [runDeploy, hslug]
    simp only [hfind]

/-! ## Agreement -/

theorem unchanged_iff (U : Unicode) (explicit : Option String) (fallback : String) :
    (∀ slug, projectSlugFrom U explicit fallback = .ok slug →
        slugifyProjectName U slug = .ok slug) ↔
      NameSeparatesOnce U explicit fallback := by
  rw [nameSeparatesOnce_iff]
  constructor
  · intro hunchanged
    by_cases hne : derivedSlug (U.toLowerCase (explicit.getD fallback).toList) = []
    · rw [hne]
      exact List.isChain_nil
    · rw [← slugifyProjectName_eq_self U (isSlug_derivedSlug hne)]
      apply hunchanged
      rw [projectSlugFrom_eq, if_neg hne]
  · intro hsingle slug hslug
    obtain ⟨rfl, hne⟩ := projectSlugFrom_eq_ok hslug
    rw [slugifyProjectName_eq_self U (isSlug_derivedSlug hne)]
    exact hsingle

/-- The command line and the platform agree on a name exactly when its letters and digits are
separated once, as far as the slug has room. -/
theorem agrees_iff_nameSeparatesOnce (U : Unicode) (explicit : Option String) (fallback : String) :
    Agrees U explicit fallback ↔ NameSeparatesOnce U explicit fallback := by
  constructor
  · intro hagrees
    exact (unchanged_iff U explicit fallback).mp hagrees.unchanged
  · intro hname
    have hunchanged := (unchanged_iff U explicit fallback).mpr hname
    have hcarried : ∀ s t id project slug, projectSlugFrom U explicit fallback = .ok slug →
        runDeploy U s explicit fallback id = .created project t → project.slug = slug := by
      intro s t id project slug hslug hcreated
      obtain ⟨looked, hlooked, hcreate⟩ := runDeploy_created hcreated
      obtain ⟨given, hgiven, rfl, -⟩ := createProject_eq_some hcreate
      rw [hslug] at hlooked
      cases hlooked
      rw [hunchanged slug hslug] at hgiven
      cases hgiven
      rfl
    refine ⟨hunchanged, hcarried, ?_⟩
    intro s t id project hs hcreated actions u hrun hmem
    obtain ⟨slug, hslug, hcreate⟩ := runDeploy_created hcreated
    exact finds_project ((hs.createProject hcreate).exec hrun) hslug hmem
      (hcarried s t id project slug hslug hcreated)

/-- Unicode's tables for texts in ASCII. -/
def ascii : Unicode where
  normalizeNFKD cs := cs
  isDiacritic c := c.toNat = 94 || c.toNat = 96
  toLowerCase cs := cs.map lowerChar
  normalizeNFKD_ascii _ _ := rfl
  isDiacritic_ascii c _ h := by simpa using h
  toLowerCase_ascii _ _ := rfl

/-- A deploy as `my--app` creates `my-app`; the next one does not find it and cannot create it
either. -/
theorem not_agrees_double_hyphen :
    ¬Agrees ascii (some "my--app") "" ∧
      runDeploy ascii ⟨[]⟩ (some "my--app") "" "project_1" =
        .created ⟨"project_1", "my-app".toList⟩ ⟨[⟨"project_1", "my-app".toList⟩]⟩ ∧
      runDeploy ascii ⟨[⟨"project_1", "my-app".toList⟩]⟩ (some "my--app") "" "project_2" =
        .failed ∧
      resolveProject ascii ⟨[⟨"project_1", "my-app".toList⟩]⟩ (some "my--app") "" = none := by
  have hrun : runDeploy ascii ⟨[]⟩ (some "my--app") "" "project_1" =
      .created ⟨"project_1", "my-app".toList⟩ ⟨[⟨"project_1", "my-app".toList⟩]⟩ := by
    decide +kernel
  refine ⟨?_, hrun, by decide +kernel, by decide +kernel⟩
  intro hagrees
  have hslug : projectSlugFrom ascii (some "my--app") "" = .ok "my--app".toList := by rfl
  have hcarried := hagrees.carried _ _ _ _ _ hslug hrun
  revert hcarried
  decide

end Eveland.ProjectSlugs
