/-
# Slugs, keys, aliases and hostnames

Every agent route of every project lives in one namespace of hostnames, and a hostname is
a concatenation: `slug.domain`, `key--slug.domain` or `alias--slug.domain`. Aliases may
contain `--` and may look like deployment keys. What keeps the projects apart is that a
slug starts with a letter or a digit and has no two hyphens in a row, so that the last
`--` of a label is where its slug begins.
-/

import Mathlib.Data.List.Chain
import Mathlib.Data.List.DropRight
import Eveland.Core.JsString
import Eveland.Foundations.Outcome

namespace Eveland

open JsString

/-! ## Slugs -/

/-- Not two hyphens in a row. -/
def NoDoubleHyphen (cs : List Char) : Prop := cs.IsChain fun a b => a ≠ '-' ∨ b ≠ '-'

/-- The slugs of projects. -/
structure IsSlug (cs : List Char) : Prop where
  ne_nil : cs ≠ []
  chars : ∀ c ∈ cs, isLowerAlphaNum c = true ∨ c = '-'
  noDouble : NoDoubleHyphen cs
  head : cs.head? ≠ some '-'
  last : cs.getLast? ≠ some '-'

/-- A project slug. -/
structure Slug where
  value : String
  isSlug : IsSlug value.toList

theorem Slug.ext_value {first second : Slug} (h : first.value = second.value) :
    first = second := by
  cases first
  cases second
  cases h
  rfl

instance : DecidableEq Slug := fun first second =>
  decidable_of_iff (first.value = second.value) ⟨Slug.ext_value, fun h => h ▸ rfl⟩

/-- `PROJECT_SLUG_MAX_LENGTH`. -/
def projectSlugMaxLength : ℕ := 53

/-- `replace(/[^a-z0-9]+/g, "-")`: every run of other characters becomes one hyphen. -/
def hyphenate : List Char → List Char
  | [] => []
  | c :: cs =>
      if isLowerAlphaNum c then c :: hyphenate cs
      else if (hyphenate cs).head? = some '-' then hyphenate cs
      else '-' :: hyphenate cs

/-- The replacement of the trailing hyphens by nothing. -/
def trimHyphens (cs : List Char) : List Char := cs.rdropWhile fun c => c = '-'

/-- The steps of `slugifyProjectName` after normalization. -/
def slugChars (cs : List Char) : List Char :=
  trimHyphens <| (stripEnds (fun c => c = '-') (hyphenate (toLowerCase cs))).take
    projectSlugMaxLength

theorem hyphenate_chars (cs : List Char) :
    ∀ c ∈ hyphenate cs, isLowerAlphaNum c = true ∨ c = '-' := by
  induction cs with
  | nil => simp [hyphenate]
  | cons c cs ih =>
      rw [hyphenate]
      split
      · next hkeep =>
          intro d hd
          rcases List.mem_cons.mp hd with rfl | hd
          · exact Or.inl hkeep
          · exact ih d hd
      · split
        · exact ih
        · intro d hd
          rcases List.mem_cons.mp hd with rfl | hd
          · exact Or.inr rfl
          · exact ih d hd

theorem isLowerAlphaNum_ne_hyphen {c : Char} (h : isLowerAlphaNum c = true) : c ≠ '-' := by
  rintro rfl
  revert h
  decide

theorem hyphenate_noDouble (cs : List Char) : NoDoubleHyphen (hyphenate cs) := by
  induction cs with
  | nil => simp [hyphenate, NoDoubleHyphen]
  | cons c cs ih =>
      rw [hyphenate]
      split
      · next hkeep =>
          exact ih.cons fun d _ => Or.inl (isLowerAlphaNum_ne_hyphen hkeep)
      · split
        · exact ih
        · next hhead =>
            refine ih.cons fun d hd => Or.inr ?_
            rintro rfl
            exact hhead hd

theorem trimHyphens_isStart (cs : List Char) : trimHyphens cs <+: cs :=
  List.rdropWhile_prefix _ _

theorem trimHyphens_last (cs : List Char) : (trimHyphens cs).getLast? ≠ some '-' := by
  intro hlast
  have hne : trimHyphens cs ≠ [] := by
    rintro hnil
    simp [hnil] at hlast
  have hnot := List.rdropWhile_last_not (fun c : Char => decide (c = '-')) cs hne
  rw [List.getLast?_eq_some_getLast hne] at hlast
  exact hnot (decide_eq_true (Option.some.inj hlast))

theorem stripEnds_isStart (drop : Char → Bool) (cs : List Char) :
    stripEnds drop cs <+: cs.dropWhile drop :=
  List.rdropWhile_prefix _ _

/-- The first character of a non-empty prefix is the first character. -/
theorem head?_of_isStart {cs ds : List Char} (hstart : cs <+: ds) (hne : cs ≠ []) :
    cs.head? = ds.head? := by
  obtain ⟨rest, rfl⟩ := hstart
  rw [List.head?_append_of_ne_nil _ hne]

/-- Whatever the steps of `slugifyProjectName` leave is a slug, unless it is nothing. -/
theorem slugChars_isSlug {cs : List Char} (hne : slugChars cs ≠ []) : IsSlug (slugChars cs) := by
  -- The result is a prefix of what is left once the leading hyphens are dropped.
  have hstart : slugChars cs <+: (hyphenate (toLowerCase cs)).dropWhile fun c => c = '-' :=
    (trimHyphens_isStart _).trans (( List.take_prefix _ _).trans (stripEnds_isStart _ _))
  have hinner : slugChars cs <:+: hyphenate (toLowerCase cs) :=
    hstart.isInfix.trans (List.dropWhile_suffix _).isInfix
  refine ⟨hne, fun c hc => hyphenate_chars _ c (hinner.mem hc),
    List.IsChain.infix (hyphenate_noDouble _) hinner, ?_, trimHyphens_last _⟩
  rw [head?_of_isStart hstart hne]
  intro hhead
  have hnot := List.head?_dropWhile_not (fun c : Char => decide (c = '-'))
    (hyphenate (toLowerCase cs))
  rw [hhead] at hnot
  simp at hnot

/-- `slugifyProjectName`. `fold` is `normalize("NFKD")` with the diacritics removed; no
result depends on what it does. -/
def slugifyProjectName (fold : List Char → List Char) (input : String) : Except String Slug :=
  if h : slugChars (fold input.toList) = [] then
    .error "Project name must contain at least one ASCII letter or number."
  else
    .ok ⟨String.ofList (slugChars (fold input.toList)), by
      rw [String.toList_ofList]
      exact slugChars_isSlug h⟩

/-! ## Claiming a slug -/

/-- The attempts `claimProjectSlug` makes. -/
def maxSlugAttempts : ℕ := 10000

/-- The suffix of an attempt: nothing, `-1`, `-2` and so on. -/
def attemptSuffix (attempt : ℕ) : List Char :=
  if attempt = 0 then [] else '-' :: Nat.toDigits 10 attempt

/-- The candidate of an attempt. -/
def slugCandidate (base : List Char) (attempt : ℕ) : List Char :=
  trimHyphens (base.take (projectSlugMaxLength - (attemptSuffix attempt).length)) ++
    attemptSuffix attempt

theorem isLowerAlphaNum_of_isDigit {c : Char} (h : c.isDigit = true) :
    isLowerAlphaNum c = true := by
  simp only [Char.isDigit, Bool.and_eq_true, decide_eq_true_eq, ge_iff_le,
    UInt32.le_iff_toNat_le] at h
  simp only [isLowerAlphaNum, Bool.or_eq_true, Bool.and_eq_true, decide_eq_true_eq]
  exact Or.inr h

theorem attemptSuffix_digits {attempt : ℕ} {c : Char} (hc : c ∈ Nat.toDigits 10 attempt) :
    isLowerAlphaNum c = true :=
  isLowerAlphaNum_of_isDigit (Nat.isDigit_of_mem_toDigits (by decide) (by decide) hc)

theorem attemptSuffix_length {attempt : ℕ} (hattempt : attempt < maxSlugAttempts) :
    (attemptSuffix attempt).length ≤ 5 := by
  unfold attemptSuffix
  split
  · simp
  · have hdigits : (Nat.toDigits 10 attempt).length ≤ 4 :=
      (Nat.length_toDigits_le_iff (by decide) (by decide)).mpr hattempt
    rw [List.length_cons]
    omega

theorem attemptSuffix_noDouble (attempt : ℕ) : NoDoubleHyphen (attemptSuffix attempt) := by
  have hdigits : NoDoubleHyphen (Nat.toDigits 10 attempt) := by
    apply List.Pairwise.isChain
    rw [List.pairwise_iff_forall_sublist]
    intro a b hab
    exact Or.inl (isLowerAlphaNum_ne_hyphen (attemptSuffix_digits (hab.subset List.mem_cons_self)))
  unfold attemptSuffix
  split
  · exact List.IsChain.nil
  · refine hdigits.cons fun d hd => Or.inr ?_
    exact isLowerAlphaNum_ne_hyphen (attemptSuffix_digits (List.mem_of_mem_head? hd))

/-- What is left of a slug before the suffix is not empty: its first character stays. -/
theorem trimmed_base_ne_nil {base : List Char} (hbase : IsSlug base) {attempt : ℕ}
    (hattempt : attempt < maxSlugAttempts) :
    trimHyphens (base.take (projectSlugMaxLength - (attemptSuffix attempt).length)) ≠ [] := by
  have hlength := attemptSuffix_length hattempt
  obtain ⟨c, cs, rfl⟩ := List.exists_cons_of_ne_nil hbase.ne_nil
  obtain ⟨k, hk⟩ : ∃ k, projectSlugMaxLength - (attemptSuffix attempt).length = k + 1 :=
    ⟨52 - (attemptSuffix attempt).length, by unfold projectSlugMaxLength; omega⟩
  rw [hk, List.take_succ_cons]
  intro hnil
  have hall := List.rdropWhile_eq_nil_iff.mp hnil c List.mem_cons_self
  exact hbase.head (by simpa using hall)

/-- Every candidate is a slug. -/
theorem slugCandidate_isSlug {base : List Char} (hbase : IsSlug base) {attempt : ℕ}
    (hattempt : attempt < maxSlugAttempts) : IsSlug (slugCandidate base attempt) := by
  have hne := trimmed_base_ne_nil hbase hattempt
  have hstart : trimHyphens (base.take (projectSlugMaxLength - (attemptSuffix attempt).length))
      <+: base := (trimHyphens_isStart _).trans ( List.take_prefix _ _)
  unfold slugCandidate
  refine ⟨by simp [hne], ?_, ?_, ?_, ?_⟩
  · intro c hc
    rcases List.mem_append.mp hc with hc | hc
    · exact hbase.chars c (hstart.subset hc)
    · unfold attemptSuffix at hc
      split at hc
      · cases hc
      · rcases List.mem_cons.mp hc with rfl | hc
        · exact Or.inr rfl
        · exact Or.inl (attemptSuffix_digits hc)
  · refine ( List.IsChain.prefix hbase.noDouble hstart).append (attemptSuffix_noDouble attempt) ?_
    intro a ha b _
    refine Or.inl ?_
    rintro rfl
    exact trimHyphens_last _ ha
  · rw [List.head?_append_of_ne_nil _ hne, head?_of_isStart hstart hne]
    exact hbase.head
  · unfold attemptSuffix
    split
    · simpa using trimHyphens_last _
    · rw [List.getLast?_append]
      obtain ⟨d, hd⟩ : ∃ d, ('-' :: Nat.toDigits 10 attempt).getLast? = some d :=
        ⟨_, List.getLast?_eq_some_getLast (by simp)⟩
      rw [hd, Option.some_or]
      rintro ⟨⟩
      have hlast : (Nat.toDigits 10 attempt).getLast? = some '-' := by
        rwa [List.getLast?_cons_of_ne_nil Nat.toDigits_ne_nil] at hd
      exact isLowerAlphaNum_ne_hyphen
        (attemptSuffix_digits (List.mem_of_getLast? hlast)) rfl

/-- The candidate of an attempt, as a slug. -/
def Slug.candidate (base : Slug) (attempt : ℕ) (hattempt : attempt < maxSlugAttempts) : Slug :=
  ⟨String.ofList (slugCandidate base.value.toList attempt), by
    rw [String.toList_ofList]
    exact slugCandidate_isSlug base.isSlug hattempt⟩

/-- The loop of `claimProjectSlug`, with the attempts that remain. -/
def claimSlugLoop (base : Slug) (taken : Slug → Bool) (maxAttempts : ℕ)
    (hmax : maxAttempts ≤ maxSlugAttempts) :
    (remaining : ℕ) → remaining ≤ maxAttempts → Except String Slug
  | 0, _ => .error s!"Failed to claim a unique project slug after {maxAttempts} attempts."
  | remaining + 1, hremaining =>
      let candidate := base.candidate (maxAttempts - (remaining + 1)) (by omega)
      if taken candidate then
        claimSlugLoop base taken maxAttempts hmax remaining ((Nat.le_succ _).trans hremaining)
      else .ok candidate

/-- `claimProjectSlug`: the first candidate that is not taken. A caller that requires the
exact slug allows one attempt, every other the default number of them. -/
def claimProjectSlug (fold : List Char → List Char) (requestedName : String)
    (requireExactSlug : Bool) (taken : Slug → Bool) : Except String Slug := do
  let base ← slugifyProjectName fold requestedName
  if requireExactSlug then claimSlugLoop base taken 1 (by decide) 1 le_rfl
  else claimSlugLoop base taken maxSlugAttempts le_rfl maxSlugAttempts le_rfl

theorem claimSlugLoop_free {base slug : Slug} {taken : Slug → Bool} {maxAttempts remaining : ℕ}
    {hmax : maxAttempts ≤ maxSlugAttempts} {hremaining : remaining ≤ maxAttempts}
    (hclaim : claimSlugLoop base taken maxAttempts hmax remaining hremaining = .ok slug) :
    taken slug = false := by
  induction remaining with
  | zero => cases hclaim
  | succ remaining ih =>
      rw [claimSlugLoop] at hclaim
      split at hclaim
      · exact ih hclaim
      · next hfree =>
          cases hclaim
          simpa using hfree

/-- A claimed slug was free. -/
theorem claimProjectSlug_free {fold : List Char → List Char} {requestedName : String}
    {requireExactSlug : Bool} {taken : Slug → Bool} {slug : Slug}
    (hclaim : claimProjectSlug fold requestedName requireExactSlug taken = .ok slug) :
    taken slug = false := by
  obtain ⟨base, _, hclaim⟩ := Outcome.bind_eq_ok.mp hclaim
  split at hclaim
  · exact claimSlugLoop_free hclaim
  · exact claimSlugLoop_free hclaim

/-! ## Deployment keys, aliases and hostnames -/

/-- `^[a-z0-9]{8}$`, what `createDeploymentKey` draws and the table checks. -/
def isDeploymentKey (key : String) : Bool :=
  key.toList.length == 8 && key.toList.all isLowerAlphaNum

/-- What `ensureAliasRoute` accepts as an alias: a DNS-safe label. -/
def isAlias (label : String) : Bool :=
  match label.toList with
  | [] => false
  | first :: rest =>
      isLowerAlphaNum first && rest.length ≤ 62 &&
        rest.all (fun c => isLowerAlphaNum c || c == '-') &&
        (match rest.getLast? with
          | some last => isLowerAlphaNum last
          | none => true)

/-- `normalizeBaseDomain`. -/
def normalizeBaseDomain (value : String) : Except String String :=
  let normalized := stripEnds (fun c => c = '.') (toLowerCase (trim value.toList))
  if normalized = [] || !normalized.all fun c => isLowerAlphaNum c || c == '.' || c == '-' then
    .error s!"Invalid Agent base domain: {value}"
  else .ok (String.ofList normalized)

/-- The hostname of a project's stable route. -/
def projectHostname (slug : Slug) (domain : String) : String := slug.value ++ "." ++ domain

/-- The hostname of a preview or of an alias: a deployment key or an alias before the slug. -/
def labelledHostname (label : String) (slug : Slug) (domain : String) : String :=
  label ++ "--" ++ slug.value ++ "." ++ domain

/-- The slug after the last `--` is determined by the whole. -/
theorem slug_eq_of_append_eq {a b s t : List Char} (hs : IsSlug s) (ht : IsSlug t)
    (h : a ++ '-' :: '-' :: s = b ++ '-' :: '-' :: t) : a = b ∧ s = t := by
  wlog hlength : a.length ≤ b.length generalizing a b s t
  · obtain ⟨hab, hst⟩ := this ht hs h.symm (Nat.le_of_not_le hlength)
    exact ⟨hab.symm, hst.symm⟩
  obtain ⟨gap, rfl⟩ : a <+: b :=
    List.prefix_of_prefix_length_le ( List.prefix_append a _) ⟨_, h.symm⟩ hlength
  rw [List.append_assoc, List.append_right_inj] at h
  -- A longer label would leave a hyphen in front of its slug, or two inside it.
  match gap with
  | [] =>
      simp only [List.nil_append, List.cons.injEq, true_and] at h
      exact ⟨by simp, h⟩
  | [x] =>
      simp only [List.cons_append, List.nil_append, List.cons.injEq] at h
      exact absurd (by rw [h.2.2]; rfl) hs.head
  | x :: y :: rest =>
      simp only [List.cons_append, List.cons.injEq] at h
      have hdouble := hs.noDouble
      rw [h.2.2] at hdouble
      have htail := (List.isChain_cons_cons.mp (List.IsChain.right_of_append hdouble)).1
      simp at htail

/-- A slug contains no `--`. -/
theorem append_ne_slug {a s t : List Char} (ht : IsSlug t) : a ++ '-' :: '-' :: s ≠ t := by
  rintro rfl
  have htail := (List.isChain_cons_cons.mp (List.IsChain.right_of_append ht.noDouble)).1
  simp at htail

theorem toList_labelledHostname (label : String) (slug : Slug) (domain : String) :
    (labelledHostname label slug domain).toList =
      (label.toList ++ '-' :: '-' :: slug.value.toList) ++ '.' :: domain.toList := by
  simp [labelledHostname, String.toList_append]

theorem toList_projectHostname (slug : Slug) (domain : String) :
    (projectHostname slug domain).toList = slug.value.toList ++ '.' :: domain.toList := by
  simp [projectHostname, String.toList_append]

/-- Under one domain, a preview or alias hostname determines its label and its slug. -/
theorem labelledHostname_inj {label label' : String} {slug slug' : Slug} {domain : String}
    (h : labelledHostname label slug domain = labelledHostname label' slug' domain) :
    label = label' ∧ slug = slug' := by
  have hchars := congrArg String.toList h
  rw [toList_labelledHostname, toList_labelledHostname] at hchars
  obtain ⟨hlabel, hslug⟩ :=
    slug_eq_of_append_eq slug.isSlug slug'.isSlug (List.append_cancel_right hchars)
  exact ⟨String.toList_inj.mp hlabel, Slug.ext_value (String.toList_inj.mp hslug)⟩

/-- Under one domain, no preview or alias has the hostname of a stable route. -/
theorem labelledHostname_ne_projectHostname (label : String) (slug slug' : Slug)
    (domain : String) : labelledHostname label slug domain ≠ projectHostname slug' domain := by
  intro h
  have hchars := congrArg String.toList h
  rw [toList_labelledHostname, toList_projectHostname] at hchars
  exact append_ne_slug slug'.isSlug (List.append_cancel_right hchars)

theorem projectHostname_inj {slug slug' : Slug} {domain : String}
    (h : projectHostname slug domain = projectHostname slug' domain) : slug = slug' := by
  have hchars := congrArg String.toList h
  rw [toList_projectHostname, toList_projectHostname] at hchars
  exact Slug.ext_value (String.toList_inj.mp (List.append_cancel_right hchars))

end Eveland
