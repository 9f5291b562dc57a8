/-
# What a supported Eve specifier admits

The recogniser accepts four kinds of specifiers: an exact version, a patch wildcard, a
tilde range and a caret range below major one. Read as npm documents them, each of these
is an interval within one minor line. How npm reads a specifier is a parameter here, held
to its documentation of those four kinds only.
-/

import Eveland.Core.EveCompatibility
import Eveland.Foundations.SemanticVersions

namespace Eveland.EveCompatibility

open JsString SemanticVersions

/-! ## The specifiers that pin a line -/

/-- The pre-release part of an exact version: nothing, or a dash and a tag. -/
def IsTagPart (part : List Char) : Prop :=
  part = [] ∨ ∃ tag, part = '-' :: tag ∧ isPrereleaseTag tag = true

/-- A specifier of one of the four kinds, with the digits of its line. -/
inductive PinsLine : List Char → List Char → List Char → Prop
  | exact (major minor patch part : List Char) (hmajor : isNumber major = true)
      (hminor : isNumber minor = true) (hpatch : isNumber patch = true)
      (hpart : IsTagPart part) :
      PinsLine (major ++ '.' :: (minor ++ '.' :: (patch ++ part))) major minor
  | wildcard (major minor wild : List Char) (hmajor : isNumber major = true)
      (hminor : isNumber minor = true) (hwild : wild ∈ [[], ['.', 'x'], ['.', '*']]) :
      PinsLine (major ++ '.' :: (minor ++ wild)) major minor
  | tilde (major minor patch part : List Char) (hmajor : isNumber major = true)
      (hminor : isNumber minor = true) (hpatch : isNumber patch = true)
      (hpart : IsTagPart part) :
      PinsLine ('~' :: (major ++ '.' :: (minor ++ '.' :: (patch ++ part)))) major minor
  | caret (minor patch part : List Char) (hminor : isNumber minor = true)
      (hpatch : isNumber patch = true) (hpart : IsTagPart part) :
      PinsLine ('^' :: '0' :: '.' :: (minor ++ '.' :: (patch ++ part))) ['0'] minor

/-! ## Reading from left to right -/

/-- What `readOperator` takes off the front. -/
theorem readOperator_eq {cs operator rest : List Char}
    (hread : readOperator cs = (operator, rest)) :
    cs = operator ++ rest ∧ (operator = [] ∨ operator = ['~'] ∨ operator = ['^']) := by
  unfold readOperator at hread
  split at hread <;> simp only [Prod.mk.injEq] at hread <;>
    simp [← hread.1, ← hread.2]

/-- What `readDigits` takes off the front is a number. -/
theorem readDigits_eq {cs digits rest : List Char}
    (hread : readDigits cs = some (digits, rest)) :
    cs = digits ++ rest ∧ isNumber digits = true := by
  unfold readDigits at hread
  split at hread
  · cases hread
  · rename_i hsome
    simp only [Option.some.injEq, Prod.mk.injEq] at hread
    rw [← hread.1, ← hread.2]
    refine ⟨(List.takeWhile_append_dropWhile).symm, ?_⟩
    simp only [isNumber, List.all_takeWhile, Bool.and_true, Bool.not_eq_true']
    simpa using hsome

/-- What `readPatch` takes off the front is a wildcard or a number. -/
theorem readPatch_eq {cs patch rest : List Char} (hread : readPatch cs = some (patch, rest)) :
    cs = patch ++ rest ∧ (patch = ['x'] ∨ patch = ['*'] ∨ isNumber patch = true) := by
  unfold readPatch at hread
  split at hread
  · simp only [Option.some.injEq, Prod.mk.injEq] at hread
    simp [← hread.1, ← hread.2]
  · simp only [Option.some.injEq, Prod.mk.injEq] at hread
    simp [← hread.1, ← hread.2]
  · have hdigits := readDigits_eq hread
    exact ⟨hdigits.1, Or.inr (Or.inr hdigits.2)⟩

/-- The text of a pre-release part. -/
def tagPart : Option (List Char) → List Char
  | none => []
  | some tag => '-' :: tag

/-- `readPrerelease` reads the whole rest. -/
theorem readPrerelease_eq {cs : List Char} {prerelease : Option (List Char)}
    (hread : readPrerelease cs = some prerelease) :
    cs = tagPart prerelease ∧ IsTagPart (tagPart prerelease) := by
  unfold readPrerelease at hread
  split at hread
  · cases hread
    exact ⟨rfl, Or.inl rfl⟩
  · rename_i tag
    split at hread
    · rename_i htag
      cases hread
      exact ⟨rfl, Or.inr ⟨tag, rfl, htag⟩⟩
    · cases hread
  · cases hread

/-- The text of the part after the minor number. -/
def tailText (groups : Groups) : List Char :=
  match groups.patch with
  | none => []
  | some patch => '.' :: (patch ++ tagPart groups.prerelease)

/-- What `readTail` reads is the tail of its groups. -/
theorem readTail_eq {operator major minor cs : List Char} {groups : Groups}
    (hread : readTail operator major minor cs = some groups) :
    cs = tailText groups ∧ groups.operator = operator ∧ groups.major = major ∧
      groups.minor = minor ∧ IsTagPart (tagPart groups.prerelease) ∧
      (groups.patch = none ∧ groups.prerelease = none ∨ groups.patch = some ['x'] ∨
        groups.patch = some ['*'] ∨ ∃ patch, groups.patch = some patch ∧
          isNumber patch = true) := by
  unfold readTail at hread
  split at hread
  · cases hread
    exact ⟨rfl, rfl, rfl, rfl, Or.inl rfl, Or.inl ⟨rfl, rfl⟩⟩
  · split at hread
    · cases hread
    · rename_i patch rest hpatch
      have htext := readPatch_eq hpatch
      cases hpre : readPrerelease rest with
      | none => simp [hpre] at hread
      | some prerelease =>
          have hpart := readPrerelease_eq hpre
          simp only [hpre, Option.map_some, Option.some.injEq] at hread
          subst hread
          refine ⟨?_, rfl, rfl, rfl, hpart.2, ?_⟩
          · rw [htext.1, hpart.1]
            rfl
          · rcases htext.2 with hx | hstar | hnumber
            · exact Or.inr (Or.inl (congrArg some hx))
            · exact Or.inr (Or.inr (Or.inl (congrArg some hstar)))
            · exact Or.inr (Or.inr (Or.inr ⟨patch, rfl, hnumber⟩))
  · cases hread

/-- A match reads the whole text. -/
theorem matchSpecifier_eq {cs : List Char} {groups : Groups}
    (hmatch : matchSpecifier cs = some groups) :
    cs = groups.operator ++ (groups.major ++ '.' :: (groups.minor ++ tailText groups)) ∧
      (groups.operator = [] ∨ groups.operator = ['~'] ∨ groups.operator = ['^']) ∧
      isNumber groups.major = true ∧ isNumber groups.minor = true ∧
      IsTagPart (tagPart groups.prerelease) ∧
      (groups.patch = none ∧ groups.prerelease = none ∨ groups.patch = some ['x'] ∨
        groups.patch = some ['*'] ∨ ∃ patch, groups.patch = some patch ∧
          isNumber patch = true) := by
  unfold matchSpecifier at hmatch
  cases hoperator : readOperator cs with
  | mk operator afterOperator =>
  simp only [hoperator] at hmatch
  split at hmatch
  · rename_i major afterMajor hmajor
    split at hmatch
    · rename_i minor afterMinor hminor
      obtain ⟨htail, hgroupsOperator, hgroupsMajor, hgroupsMinor, hpart, hpatch⟩ :=
        readTail_eq hmatch
      have hfront := readOperator_eq hoperator
      have hmajorText := readDigits_eq hmajor
      have hminorText := readDigits_eq hminor
      rw [hgroupsOperator, hgroupsMajor, hgroupsMinor]
      refine ⟨?_, hfront.2, hmajorText.2, hminorText.2, hpart, hpatch⟩
      rw [hfront.1, hmajorText.1, hminorText.1, htail]
    · cases hmatch
  · cases hmatch

/-- A specifier with a line is of one of the four kinds, and the line is that of its
digits. -/
theorem pinsLine_of_eveLineOfSpecifier {specifier line : String}
    (hline : eveLineOfSpecifier (some specifier) = some line) :
    ∃ major minor, PinsLine (trim specifier.toList) major minor ∧
      line = numberText (digitsValue major) ++ "." ++ numberText (digitsValue minor) := by
  obtain ⟨groups, hmatch, hgroups⟩ := Option.bind_eq_some_iff.mp hline
  obtain ⟨htext, hoperator, hmajor, hminor, hpart, hpatch⟩ := matchSpecifier_eq hmatch
  unfold lineOfGroups at hgroups
  split at hgroups
  · cases hgroups
  rename_i hplain
  split at hgroups
  · cases hgroups
  rename_i hpatched
  split at hgroups
  · cases hgroups
  rename_i hcaret
  refine ⟨groups.major, groups.minor, ?_, (Option.some.inj hgroups).symm⟩
  rw [htext]
  -- without a number for its patch a match has neither operator nor pre-release
  have hwild : ∀ wild, tailText groups = wild → wild ∈ [[], ['.', 'x'], ['.', '*']] →
      groups.operator = [] → PinsLine (groups.operator ++ (groups.major ++ '.' ::
        (groups.minor ++ tailText groups))) groups.major groups.minor := by
    intro wild htail hmem hnone
    rw [hnone, htail]
    exact PinsLine.wildcard groups.major groups.minor wild hmajor hminor hmem
  rcases hpatch with ⟨hnone, _⟩ | hx | hstar | ⟨patch, hpatch, hnumber⟩
  · refine hwild [] (by simp [tailText, hnone]) (by simp) ?_
    simpa [hnone] using hpatched
  · have hrelease : groups.prerelease = none := by
      simpa [hx, isNumber, isDigit] using hplain
    refine hwild ['.', 'x'] (by simp [tailText, hx, hrelease, tagPart]) (by simp) ?_
    simpa [hx] using hpatched
  · have hrelease : groups.prerelease = none := by
      simpa [hstar, isNumber, isDigit] using hplain
    refine hwild ['.', '*'] (by simp [tailText, hstar, hrelease, tagPart]) (by simp) ?_
    simpa [hstar] using hpatched
  · have htail : tailText groups = '.' :: (patch ++ tagPart groups.prerelease) := by
      simp [tailText, hpatch]
    rw [htail]
    rcases hoperator with hexact | htilde | hcaretOp
    · rw [hexact]
      exact PinsLine.exact _ _ _ _ hmajor hminor hnumber hpart
    · rw [htilde]
      exact PinsLine.tilde _ _ _ _ hmajor hminor hnumber hpart
    · have hzero : groups.major = ['0'] := by
        simpa [hcaretOp] using hcaret
      rw [hcaretOp, hzero]
      exact PinsLine.caret _ _ _ hminor hnumber hpart

/-! ## Npm's reading -/

/-- The line of a version, written as the code writes lines. -/
def versionLine (v : Version) : String := toString v.major ++ "." ++ toString v.minor

/-- A version on a line of the policy. -/
def isSupportedVersion (v : Version) : Bool :=
  supportedEveVersionRanges.contains (versionLine v ++ ".x")

/-- The components npm takes are safe integers; a range with a larger one is invalid. -/
def SafeLine (major minor : List Char) : Prop :=
  digitsValue major ≤ maxSafeInteger ∧ digitsValue minor ≤ maxSafeInteger

/-- A pre-release tag of the version grammar, or none. -/
def IsVersionTag (part : List Char) : Prop :=
  part = [] ∨ ∃ tag, part = '-' :: tag ∧
    ∀ identifier ∈ splitAt '.' tag, identifier ≠ [] ∧
      ∀ c ∈ identifier, isAlphaNum c = true ∨ c = '-'

/-- What npm documents of the versions that satisfy a specifier. White space around it is
ignored; an exact version admits itself; a patch left out or wild is the interval of its
minor; a tilde range, and a caret range below major one, run from their version to the
next minor, except that a caret below `0.1.0` stays within its patch. How the text of a
tag is split into identifiers is not fixed. -/
structure NpmRanges (satisfies : Version → String → Prop) : Prop where
  trims : ∀ v specifier, satisfies v specifier →
    satisfies v (String.ofList (trim specifier.toList))
  exact : ∀ v major minor patch part, isNumber major = true → isNumber minor = true →
    isNumber patch = true → IsVersionTag part →
    satisfies v (String.ofList (major ++ '.' :: (minor ++ '.' :: (patch ++ part)))) →
    SafeLine major minor ∧ ∃ tag, admits
      [.exactly ⟨digitsValue major, digitsValue minor, digitsValue patch, tag⟩] v = true
  wildcard : ∀ v major minor wild, isNumber major = true → isNumber minor = true →
    wild ∈ [[], ['.', 'x'], ['.', 'X'], ['.', '*']] →
    satisfies v (String.ofList (major ++ '.' :: (minor ++ wild))) →
    SafeLine major minor ∧ admits (between ⟨digitsValue major, digitsValue minor, 0, []⟩
      (justBelow (digitsValue major) (digitsValue minor + 1) 0)) v = true
  tilde : ∀ v major minor patch part, isNumber major = true → isNumber minor = true →
    isNumber patch = true → IsVersionTag part →
    satisfies v (String.ofList ('~' :: (major ++ '.' :: (minor ++ '.' :: (patch ++ part))))) →
    SafeLine major minor ∧ ∃ tag, admits
      (between ⟨digitsValue major, digitsValue minor, digitsValue patch, tag⟩
        (justBelow (digitsValue major) (digitsValue minor + 1) 0)) v = true
  caret : ∀ v minor patch part, isNumber minor = true → isNumber patch = true →
    IsVersionTag part →
    satisfies v (String.ofList ('^' :: '0' :: '.' :: (minor ++ '.' :: (patch ++ part)))) →
    SafeLine ['0'] minor ∧ ∃ tag, admits
      (between ⟨0, digitsValue minor, digitsValue patch, tag⟩
        (if minor = ['0'] then justBelow 0 0 (digitsValue patch + 1)
          else justBelow 0 (digitsValue minor + 1) 0)) v = true

/-- The recogniser's tags are tags of the version grammar. -/
theorem isVersionTag_of_isTagPart {part : List Char} (hpart : IsTagPart part) :
    IsVersionTag part := by
  rcases hpart with hnone | ⟨tag, hdash, htag⟩
  · exact Or.inl hnone
  · refine Or.inr ⟨tag, hdash, fun identifier hmem => ?_⟩
    simp only [isPrereleaseTag, List.all_eq_true, Bool.and_eq_true, Bool.not_eq_true',
      List.isEmpty_eq_false_iff] at htag
    exact ⟨(htag identifier hmem).1, fun c hc => Or.inl ((htag identifier hmem).2 c hc)⟩

/-- Whatever satisfies a specifier of the four kinds is on the line of its digits, and
these are safe integers. -/
theorem line_of_satisfies {satisfies : Version → String → Prop} (npm : NpmRanges satisfies)
    {text major minor : List Char} (hpins : PinsLine text major minor) {v : Version}
    (hsatisfies : satisfies v (String.ofList text)) :
    SafeLine major minor ∧ v.major = digitsValue major ∧ v.minor = digitsValue minor := by
  cases hpins with
  | exact _ _ patch part hmajor hminor hpatch hpart =>
      obtain ⟨hsafe, tag, hadmits⟩ := npm.exact v _ _ patch part hmajor hminor hpatch
        (isVersionTag_of_isTagPart hpart) hsatisfies
      rw [eq_of_admits_exactly hadmits]
      exact ⟨hsafe, rfl, rfl⟩
  | wildcard _ _ wild hmajor hminor hwild =>
      have hdocumented : wild ∈ [[], ['.', 'x'], ['.', 'X'], ['.', '*']] := by
        simp only [List.mem_cons, List.not_mem_nil, or_false] at hwild ⊢
        tauto
      obtain ⟨hsafe, hadmits⟩ := npm.wildcard v _ _ wild hmajor hminor hdocumented hsatisfies
      exact ⟨hsafe, sameLine_of_between_nextMinor hadmits⟩
  | tilde _ _ patch part hmajor hminor hpatch hpart =>
      obtain ⟨hsafe, tag, hadmits⟩ := npm.tilde v _ _ patch part hmajor hminor hpatch
        (isVersionTag_of_isTagPart hpart) hsatisfies
      exact ⟨hsafe, sameLine_of_between_nextMinor hadmits⟩
  | caret _ patch part hminor hpatch hpart =>
      obtain ⟨hsafe, tag, hadmits⟩ := npm.caret v _ patch part hminor hpatch
        (isVersionTag_of_isTagPart hpart) hsatisfies
      refine ⟨hsafe, ?_⟩
      split at hadmits
      · rename_i hzero
        subst hzero
        exact sameLine_of_between_patches hadmits
      · exact sameLine_of_between_nextMinor hadmits

/-- A safe integer prints as itself. -/
theorem numberText_safe {n : ℕ} (hsafe : n ≤ maxSafeInteger) : numberText n = toString n := by
  rw [numberText, if_pos hsafe]

/-- Every version a specifier with a line admits is on that line. -/
theorem versionLine_of_satisfies {satisfies : Version → String → Prop}
    (npm : NpmRanges satisfies) {specifier line : String}
    (hline : eveLineOfSpecifier (some specifier) = some line) {v : Version}
    (hsatisfies : satisfies v specifier) : versionLine v = line := by
  obtain ⟨major, minor, hpins, htext⟩ := pinsLine_of_eveLineOfSpecifier hline
  obtain ⟨hsafe, hmajor, hminor⟩ :=
    line_of_satisfies npm hpins (npm.trims v specifier hsatisfies)
  rw [htext, versionLine, hmajor, hminor, numberText_safe hsafe.1, numberText_safe hsafe.2]

/-! ## Specifiers that span lines -/

/-- The specifiers that leave a single line: unions and intersections, open ranges,
wildcards above the patch, carets from major one on, tags, and addresses. -/
inductive SpansLines : List Char → Prop
  | union (left right : List Char) : SpansLines (left ++ '|' :: '|' :: right)
  | intersection (left right : List Char) : SpansLines (left ++ ' ' :: right)
  | comparison (c : Char) (rest : List Char) (hc : c ∈ ['<', '>', '=']) : SpansLines (c :: rest)
  | anything (rest : List Char) : SpansLines ('*' :: rest)
  | empty : SpansLines []
  | majorOnly (operator major : List Char) (hoperator : operator ∈ [[], ['~'], ['^']])
      (hmajor : isNumber major = true) : SpansLines (operator ++ major)
  | minorWildcard (operator major : List Char) (c : Char) (rest : List Char)
      (hoperator : operator ∈ [[], ['~'], ['^']]) (hmajor : isNumber major = true)
      (hc : c ∈ ['x', 'X', '*']) : SpansLines (operator ++ (major ++ '.' :: c :: rest))
  | openCaret (major rest : List Char) (hmajor : isNumber major = true)
      (hvalue : 0 < digitsValue major) : SpansLines ('^' :: (major ++ '.' :: rest))
  | tag (c : Char) (rest : List Char) (hc : isAlphaNum c = true) (hletter : isDigit c = false) :
      SpansLines (c :: rest)
  | address (left right : List Char) (c : Char) (hc : c ∈ [':', '/', '@', '#']) :
      SpansLines (left ++ c :: right)

/-- A number consists of digits. -/
theorem isDigit_of_isNumber {digits : List Char} (hnumber : isNumber digits = true) {c : Char}
    (hc : c ∈ digits) : isDigit c = true := by
  simp only [isNumber, Bool.and_eq_true, List.all_eq_true] at hnumber
  exact hnumber.2 c hc

/-- The characters of a specifier that pins a line. -/
def isPinCharacter (c : Char) : Bool :=
  isAlphaNum c || c = '.' || c = '-' || c = '~' || c = '^' || c = '*'

theorem isPinCharacter_of_isNumber {digits : List Char} (hnumber : isNumber digits = true)
    {c : Char} (hc : c ∈ digits) : isPinCharacter c = true := by
  simp [isPinCharacter, isAlphaNum, isDigit_of_isNumber hnumber hc]

theorem isPinCharacter_of_isTagPart {part : List Char} (hpart : IsTagPart part) {c : Char}
    (hc : c ∈ part) : isPinCharacter c = true := by
  rcases hpart with hnone | ⟨tag, hdash, htag⟩
  · simp [hnone] at hc
  · rw [hdash] at hc
    rcases List.mem_cons.mp hc with hhead | htail
    · simp [hhead, isPinCharacter]
    · rcases mem_splitAt '.' htail with hdot | ⟨identifier, hmem, hidentifier⟩
      · simp [hdot, isPinCharacter]
      · simp only [isPrereleaseTag, List.all_eq_true, Bool.and_eq_true] at htag
        simp [isPinCharacter, (htag identifier hmem).2 c hidentifier]

/-- No other character occurs in a specifier that pins a line. -/
theorem PinsLine.isPinCharacter {text major minor : List Char}
    (hpins : PinsLine text major minor) {c : Char} (hc : c ∈ text) :
    isPinCharacter c = true := by
  cases hpins with
  | exact _ _ patch part hmajor hminor hpatch hpart =>
      simp only [List.mem_append, List.mem_cons] at hc
      rcases hc with h | rfl | h | rfl | h | h
      · exact isPinCharacter_of_isNumber hmajor h
      · rfl
      · exact isPinCharacter_of_isNumber hminor h
      · rfl
      · exact isPinCharacter_of_isNumber hpatch h
      · exact isPinCharacter_of_isTagPart hpart h
  | wildcard _ _ wild hmajor hminor hwild =>
      simp only [List.mem_append, List.mem_cons] at hc
      rcases hc with h | rfl | h | h
      · exact isPinCharacter_of_isNumber hmajor h
      · rfl
      · exact isPinCharacter_of_isNumber hminor h
      · simp only [List.mem_cons, List.not_mem_nil, or_false] at hwild
        rcases hwild with rfl | rfl | rfl
        · cases h
        · simp only [List.mem_cons, List.not_mem_nil, or_false] at h
          rcases h with rfl | rfl <;> rfl
        · simp only [List.mem_cons, List.not_mem_nil, or_false] at h
          rcases h with rfl | rfl <;> rfl
  | tilde _ _ patch part hmajor hminor hpatch hpart =>
      simp only [List.mem_append, List.mem_cons] at hc
      rcases hc with rfl | h | rfl | h | rfl | h | h
      · rfl
      · exact isPinCharacter_of_isNumber hmajor h
      · rfl
      · exact isPinCharacter_of_isNumber hminor h
      · rfl
      · exact isPinCharacter_of_isNumber hpatch h
      · exact isPinCharacter_of_isTagPart hpart h
  | caret _ patch part hminor hpatch hpart =>
      simp only [List.mem_append, List.mem_cons] at hc
      rcases hc with rfl | rfl | rfl | h | rfl | h | h
      · rfl
      · rfl
      · rfl
      · exact isPinCharacter_of_isNumber hminor h
      · rfl
      · exact isPinCharacter_of_isNumber hpatch h
      · exact isPinCharacter_of_isTagPart hpart h

/-- A number starts with a digit. -/
theorem exists_digit_of_isNumber {digits : List Char} (hnumber : isNumber digits = true) :
    ∃ d ds, digits = d :: ds ∧ isDigit d = true := by
  cases digits with
  | nil => simp [isNumber] at hnumber
  | cons d ds => exact ⟨d, ds, rfl, isDigit_of_isNumber hnumber (List.mem_cons_self ..)⟩

/-- A specifier that pins a line is an operator, its major and its minor number, and a
rest; behind a caret the major number is zero. -/
theorem PinsLine.shape {text major minor : List Char} (hpins : PinsLine text major minor) :
    isNumber major = true ∧ isNumber minor = true ∧
      ∃ operator rest, operator ∈ [[], ['~'], ['^']] ∧
        text = operator ++ (major ++ '.' :: (minor ++ rest)) ∧
        (operator = ['^'] → major = ['0']) := by
  cases hpins with
  | exact _ _ patch part hmajor hminor hpatch hpart =>
      exact ⟨hmajor, hminor, [], '.' :: (patch ++ part), by simp, rfl, fun h => by cases h⟩
  | wildcard _ _ wild hmajor hminor hwild =>
      exact ⟨hmajor, hminor, [], wild, by simp, rfl, fun h => by cases h⟩
  | tilde _ _ patch part hmajor hminor hpatch hpart =>
      exact ⟨hmajor, hminor, ['~'], '.' :: (patch ++ part), by simp, rfl,
        fun h => by simp at h⟩
  | caret _ patch part hminor hpatch hpart =>
      exact ⟨rfl, hminor, ['^'], '.' :: (patch ++ part), by simp, rfl, fun _ => rfl⟩

/-- Numbers before a dot are read off without choice. -/
theorem number_dot_inj {a b x y : List Char} (ha : isNumber a = true) (hb : isNumber b = true)
    (heq : a ++ '.' :: x = b ++ '.' :: y) : a = b ∧ x = y := by
  have htake : ∀ digits rest : List Char, isNumber digits = true →
      (digits ++ '.' :: rest).takeWhile isDigit = digits := by
    intro digits rest hnumber
    rw [List.takeWhile_append_of_pos fun c hc => isDigit_of_isNumber hnumber hc,
      List.takeWhile_cons_of_neg (by decide), List.append_nil]
  have hab : a = b := by rw [← htake a x ha, heq, htake b y hb]
  subst hab
  simpa using heq

/-- Operators before a number are read off without choice. -/
theorem operator_inj {p q a b x y : List Char} (hp : p ∈ [[], ['~'], ['^']])
    (hq : q ∈ [[], ['~'], ['^']]) (ha : isNumber a = true) (hb : isNumber b = true)
    (heq : p ++ (a ++ x) = q ++ (b ++ y)) : p = q ∧ a ++ x = b ++ y := by
  obtain ⟨d, ds, rfl, hd⟩ := exists_digit_of_isNumber ha
  obtain ⟨e, es, rfl, he⟩ := exists_digit_of_isNumber hb
  have noOperator : ∀ c : Char, isDigit c = true → c ≠ '~' ∧ c ≠ '^' := by
    intro c hc
    constructor <;> rintro rfl <;> revert hc <;> decide
  have hdne := noOperator d hd
  have hene := noOperator e he
  simp only [List.mem_cons, List.not_mem_nil, or_false] at hp hq
  rcases hp with rfl | rfl | rfl <;> rcases hq with rfl | rfl | rfl <;>
    simp only [List.nil_append, List.cons_append, List.cons.injEq] at heq ⊢
  · exact ⟨trivial, heq⟩
  · exact absurd heq.1 hdne.1
  · exact absurd heq.1 hdne.2
  · exact absurd heq.1.symm hene.1
  · exact ⟨trivial, heq.2⟩
  · exact absurd heq.1 (by decide)
  · exact absurd heq.1.symm hene.2
  · exact absurd heq.1 (by decide)
  · exact ⟨trivial, heq.2⟩

/-- The first character of a specifier that pins a line is an operator or a digit. -/
theorem PinsLine.head {text major minor : List Char} (hpins : PinsLine text major minor) :
    ∃ c rest, text = c :: rest ∧ (c = '~' ∨ c = '^' ∨ isDigit c = true) := by
  obtain ⟨hmajor, _, operator, rest, hoperator, htext, _⟩ := hpins.shape
  obtain ⟨d, ds, hdigits, hd⟩ := exists_digit_of_isNumber hmajor
  rw [htext, hdigits]
  simp only [List.mem_cons, List.not_mem_nil, or_false] at hoperator
  rcases hoperator with rfl | rfl | rfl
  · exact ⟨d, _, rfl, Or.inr (Or.inr hd)⟩
  · exact ⟨'~', _, rfl, Or.inl rfl⟩
  · exact ⟨'^', _, rfl, Or.inr (Or.inl rfl)⟩

/-- No specifier of the four kinds spans lines. -/
theorem not_pinsLine_of_spansLines {text : List Char} (hspans : SpansLines text)
    (major minor : List Char) : ¬ PinsLine text major minor := by
  intro hpins
  have foreign : ∀ c : Char, c ∈ text → isPinCharacter c = false → False := by
    intro c hc hforeign
    simp [hpins.isPinCharacter hc] at hforeign
  cases hspans with
  | union left right => exact foreign '|' (by simp) rfl
  | intersection left right => exact foreign ' ' (by simp) rfl
  | comparison c rest hc =>
      refine foreign c (by simp) ?_
      simp only [List.mem_cons, List.not_mem_nil, or_false] at hc
      rcases hc with rfl | rfl | rfl <;> rfl
  | address left right c hc =>
      refine foreign c (by simp) ?_
      simp only [List.mem_cons, List.not_mem_nil, or_false] at hc
      rcases hc with rfl | rfl | rfl | rfl <;> rfl
  | anything rest =>
      obtain ⟨c, _, htext, hc⟩ := hpins.head
      obtain rfl : '*' = c := (List.cons.inj htext).1
      revert hc
      decide
  | empty =>
      obtain ⟨c, rest, htext, _⟩ := hpins.head
      cases htext
  | tag c rest hc hletter =>
      obtain ⟨d, _, htext, hd⟩ := hpins.head
      obtain rfl : c = d := (List.cons.inj htext).1
      rcases hd with rfl | rfl | hdigit
      · revert hc
        decide
      · revert hc
        decide
      · rw [hletter] at hdigit
        cases hdigit
  | majorOnly operator number hoperator hnumber =>
      obtain ⟨_, _, _, _, _, htext, _⟩ := hpins.shape
      have hdot : '.' ∈ operator ++ number := by simp [htext]
      rcases List.mem_append.mp hdot with h | h
      · simp only [List.mem_cons, List.not_mem_nil, or_false] at hoperator
        rcases hoperator with rfl | rfl | rfl <;> simp at h
      · have := isDigit_of_isNumber hnumber h
        revert this
        decide
  | minorWildcard operator number c rest hoperator hnumber hc =>
      obtain ⟨hmajor, hminor, operator', rest', hoperator', htext, _⟩ := hpins.shape
      obtain ⟨f, fs, hdigits, hf⟩ := exists_digit_of_isNumber hminor
      have hsame := (operator_inj hoperator hoperator' hnumber hmajor htext).2
      have hrest := (number_dot_inj hnumber hmajor hsame).2
      rw [hdigits] at hrest
      obtain rfl : c = f := (List.cons.inj hrest).1
      simp only [List.mem_cons, List.not_mem_nil, or_false] at hc
      rcases hc with rfl | rfl | rfl <;> revert hf <;> decide
  | openCaret number rest hnumber hvalue =>
      obtain ⟨hmajor, _, operator', rest', hoperator', htext, hcaret⟩ := hpins.shape
      have hsame := operator_inj (by simp) hoperator' hnumber hmajor
        (show ['^'] ++ (number ++ '.' :: rest) = _ from htext)
      rw [(number_dot_inj hnumber hmajor hsame.2).1, hcaret hsame.1.symm] at hvalue
      revert hvalue
      decide

/-- No specifier that spans lines has a line. -/
theorem eveLineOfSpecifier_of_spansLines {specifier : String}
    (hspans : SpansLines (trim specifier.toList)) :
    eveLineOfSpecifier (some specifier) = none := by
  cases hline : eveLineOfSpecifier (some specifier) with
  | none => rfl
  | some line =>
      obtain ⟨major, minor, hpins, _⟩ := pinsLine_of_eveLineOfSpecifier hline
      exact absurd hpins (not_pinsLine_of_spansLines hspans major minor)

/-- A specifier without a line is not supported. -/
theorem isSupportedEveDependency_of_no_line {specifier : Option String}
    (hline : eveLineOfSpecifier specifier = none) :
    isSupportedEveDependency specifier = false := by
  rw [isSupportedEveDependency, hline]

/-! ## The supported set -/

/-- A number of one digit is that digit. -/
theorem digitChar_of_toDigits {n : ℕ} {c : Char} (hdigits : Nat.toDigits 10 n = [c]) :
    n.digitChar = c := by
  rw [Nat.toDigits_eq_if (by decide)] at hdigits
  split at hdigits
  · exact (List.cons.inj hdigits).1
  · have hlength := congrArg List.length hdigits
    have hpositive := Nat.length_toDigits_pos (b := 10) (n := n / 10)
    simp only [List.length_append, List.length_cons, List.length_nil] at hlength
    omega

/-- The text of a number is a number. -/
theorem isNumber_toDigits (n : ℕ) : isNumber (Nat.toDigits 10 n) = true := by
  simp only [isNumber, Bool.and_eq_true, Bool.not_eq_true', List.all_eq_true,
    List.isEmpty_eq_false_iff]
  refine ⟨Nat.toDigits_ne_nil, fun c hc => ?_⟩
  have hdigit := Nat.isDigit_of_mem_toDigits (by decide) (by decide) hc
  simpa [isDigit, Char.isDigit, UInt32.le_iff_toNat_le] using hdigit

/-- The supported set is the line 1.0, its pre-releases included. -/
theorem isSupportedVersion_iff (v : Version) :
    isSupportedVersion v = true ↔ v.major = 1 ∧ v.minor = 0 := by
  constructor
  · intro hsupported
    have htext : versionLine v ++ ".x" = "1.0.x" := by
      simpa [isSupportedVersion, supportedEveVersionRanges] using hsupported
    have hchars := congrArg String.toList htext
    simp only [versionLine, Nat.toString_eq_ofList_toDigits, String.toList_append,
      String.toList_ofList, List.append_assoc] at hchars
    have hfirst := number_dot_inj (isNumber_toDigits v.major) (show isNumber ['1'] = true from rfl)
      (show _ ++ '.' :: _ = ['1'] ++ '.' :: ['0', '.', 'x'] from hchars)
    have hsecond := number_dot_inj (isNumber_toDigits v.minor) (show isNumber ['0'] = true from rfl)
      (show _ ++ '.' :: ['x'] = ['0'] ++ '.' :: ['x'] from hfirst.2)
    exact ⟨by simpa using digitChar_of_toDigits hfirst.1,
      by simpa using digitChar_of_toDigits hsecond.1⟩
  · rintro ⟨hmajor, hminor⟩
    simp only [isSupportedVersion, versionLine, hmajor, hminor]
    decide

/-- A supported specifier admits supported versions only. -/
theorem isSupportedVersion_of_satisfies {satisfies : Version → String → Prop}
    (npm : NpmRanges satisfies) {specifier : String}
    (hsupported : isSupportedEveDependency (some specifier) = true) {v : Version}
    (hsatisfies : satisfies v specifier) : isSupportedVersion v = true := by
  unfold isSupportedEveDependency at hsupported
  split at hsupported
  · cases hsupported
  · rename_i line hline
    rw [isSupportedVersion, versionLine_of_satisfies npm hline hsatisfies]
    exact hsupported

/-- A project that passes inspection declares a supported specifier. -/
theorem inspectEveProject_supported (parse : String → Option Json) (files : List SourceFile)
    (hvalid : (inspectEveProject parse files).valid = true) :
    isSupportedEveDependency (inspectEveProject parse files).eveVersion = true := by
  simp only [inspectEveProject, List.isEmpty_iff, List.append_eq_nil_iff] at hvalid ⊢
  by_contra hrefused
  simp [hrefused] at hvalid

/-! ## Soundness -/

/-- A specifier with a line admits versions of that line only, a supported one versions
of the supported set only, and a specifier that leaves one line, by what it admits or by
its kind, has no line and is refused. -/
theorem eveSpecifier_sound (satisfies : Version → String → Prop)
    (npm : NpmRanges satisfies) :
    (∀ specifier line, eveLineOfSpecifier (some specifier) = some line →
      ∀ v, satisfies v specifier → versionLine v = line) ∧
    (∀ specifier, isSupportedEveDependency (some specifier) = true →
      ∀ v, satisfies v specifier → isSupportedVersion v = true) ∧
    (∀ specifier, SpansLines (trim specifier.toList) ∨
      (∃ v w, satisfies v specifier ∧ satisfies w specifier ∧ versionLine v ≠ versionLine w) →
      eveLineOfSpecifier (some specifier) = none ∧
        isSupportedEveDependency (some specifier) = false) := by
  refine ⟨fun specifier line hline v => versionLine_of_satisfies npm hline,
    fun specifier hsupported v => isSupportedVersion_of_satisfies npm hsupported, ?_⟩
  intro specifier hleaves
  have hnone : eveLineOfSpecifier (some specifier) = none := by
    rcases hleaves with hspans | ⟨v, w, hv, hw, hdifferent⟩
    · exact eveLineOfSpecifier_of_spansLines hspans
    · cases hline : eveLineOfSpecifier (some specifier) with
      | none => rfl
      | some line =>
          exact absurd ((versionLine_of_satisfies npm hline hv).trans
            (versionLine_of_satisfies npm hline hw).symm) hdifferent
  exact ⟨hnone, isSupportedEveDependency_of_no_line hnone⟩

/-- Npm's reading of the one specifier `1.0.x`: the releases of its minor. -/
def satisfiesPatchWildcard (v : Version) (specifier : String) : Prop :=
  specifier = "1.0.x" ∧
    admits (between ⟨1, 0, 0, []⟩ (justBelow 1 1 0)) v = true

/-- A number and what follows it in `1.0.x`. -/
theorem number_of_patchWildcard {major rest : List Char} (hmajor : isNumber major = true)
    (htext : String.ofList (major ++ '.' :: rest) = "1.0.x") :
    major = ['1'] ∧ rest = ['0', '.', 'x'] := by
  have hchars := congrArg String.toList htext
  rw [String.toList_ofList] at hchars
  exact number_dot_inj hmajor (show isNumber ['1'] = true from rfl)
    (show _ = ['1'] ++ '.' :: ['0', '.', 'x'] from hchars)

/-- That reading is one npm documents. -/
theorem npmRanges_satisfiesPatchWildcard : NpmRanges satisfiesPatchWildcard where
  trims v specifier hsatisfies := by
    obtain ⟨rfl, hadmits⟩ := hsatisfies
    exact ⟨by decide, hadmits⟩
  exact v major minor patch part hmajor hminor hpatch _ hsatisfies := by
    obtain ⟨_, hrest⟩ := number_of_patchWildcard hmajor hsatisfies.1
    obtain ⟨_, htail⟩ := number_dot_inj hminor (show isNumber ['0'] = true from rfl)
      (show _ = ['0'] ++ '.' :: ['x'] from hrest)
    obtain ⟨d, ds, rfl, hd⟩ := exists_digit_of_isNumber hpatch
    obtain rfl : d = 'x' := (List.cons.inj htail).1
    exact absurd hd (by decide)
  wildcard v major minor wild hmajor hminor hwild hsatisfies := by
    obtain ⟨rfl, hrest⟩ := number_of_patchWildcard hmajor hsatisfies.1
    have hzero : minor = ['0'] := by
      simp only [List.mem_cons, List.not_mem_nil, or_false] at hwild
      rcases hwild with rfl | rfl | rfl | rfl
      · rw [List.append_nil] at hrest
        exact absurd (isDigit_of_isNumber hminor (c := '.') (by simp [hrest])) (by decide)
      all_goals
        exact (number_dot_inj hminor (show isNumber ['0'] = true from rfl)
          (show _ = ['0'] ++ '.' :: ['x'] from hrest)).1
    subst hzero
    exact ⟨⟨by decide, by decide⟩, hsatisfies.2⟩
  tilde v major minor patch part _ _ _ _ hsatisfies := by
    have hchars := congrArg String.toList hsatisfies.1
    rw [String.toList_ofList] at hchars
    exact absurd (List.cons.inj hchars).1 (by decide)
  caret v minor patch part _ _ _ hsatisfies := by
    have hchars := congrArg String.toList hsatisfies.1
    rw [String.toList_ofList] at hchars
    exact absurd (List.cons.inj hchars).1 (by decide)

/-- The release 1.0.7 satisfies `1.0.x`, and lies on the line the recogniser reads. -/
theorem eveSpecifier_sound_patchWildcard :
    satisfiesPatchWildcard ⟨1, 0, 7, []⟩ "1.0.x" ∧
      eveLineOfSpecifier (some "1.0.x") = some "1.0" ∧
      versionLine ⟨1, 0, 7, []⟩ = "1.0" ∧ isSupportedVersion ⟨1, 0, 7, []⟩ = true := by
  have hsatisfies : satisfiesPatchWildcard ⟨1, 0, 7, []⟩ "1.0.x" := ⟨rfl, by decide⟩
  have hline : eveLineOfSpecifier (some "1.0.x") = some "1.0" := by decide
  have hsound := eveSpecifier_sound satisfiesPatchWildcard npmRanges_satisfiesPatchWildcard
  exact ⟨hsatisfies, hline, hsound.1 "1.0.x" "1.0" hline _ hsatisfies,
    hsound.2.1 "1.0.x" (by decide) _ hsatisfies⟩

end Eveland.EveCompatibility
