/-
# The string operations the source relies on

JavaScript's `trim`, `split`, `toLowerCase` and the character classes of the
source's regular expressions, on lists of characters. A string that is only
compared stays a `String`; one that is taken apart goes through `toList`.
-/

import Mathlib.Data.List.Basic

namespace Eveland.JsString

/-- `\s`, which is also what `trim` strips: white space and line terminators. -/
def isWhitespace (c : Char) : Bool :=
  [0x9, 0xA, 0xB, 0xC, 0xD, 0x20, 0xA0, 0x1680, 0x2028, 0x2029, 0x202F, 0x205F, 0x3000,
    0xFEFF].contains c.toNat || (0x2000 ≤ c.toNat && c.toNat ≤ 0x200A)

/-- `[a-z0-9]`. -/
def isLowerAlphaNum (c : Char) : Bool :=
  (97 ≤ c.toNat && c.toNat ≤ 122) || (48 ≤ c.toNat && c.toNat ≤ 57)

/-- Drop the characters of one class from both ends, as `replace(/^x+|x+$/g, "")` does. -/
def stripEnds (drop : Char → Bool) (cs : List Char) : List Char :=
  ((cs.dropWhile drop).reverse.dropWhile drop).reverse

/-- `value.trim()`. -/
def trim (cs : List Char) : List Char := stripEnds isWhitespace cs

/-- `toLowerCase` as far as the ASCII letters go. The Kelvin sign is the one other
character whose lower case is an ASCII letter on its own; every other character
outside ASCII stays outside it, and the patterns that follow reject those anyway. -/
def lowerChar (c : Char) : Char :=
  if 65 ≤ c.toNat ∧ c.toNat ≤ 90 then Char.ofNat (c.toNat + 32)
  else if c.toNat = 0x212A then 'k'
  else c

/-- `value.toLowerCase()`, character by character. -/
def toLowerCase (cs : List Char) : List Char := cs.map lowerChar

/-- `split` at a run of characters of one class: `split(/\s+/)` for white space. A
leading or trailing run leaves an empty first or last field, as in JavaScript. -/
def splitRuns (sep : Char → Bool) : List Char → List (List Char)
  | [] => [[]]
  | c :: cs =>
      if sep c then
        match cs with
        | [] => [[], []]
        | d :: _ => if sep d then splitRuns sep cs else [] :: splitRuns sep cs
      else
        match splitRuns sep cs with
        | [] => [[c]]
        | field :: fields => (c :: field) :: fields

/-- `split` at every occurrence of one character. -/
def splitAt (sep : Char) : List Char → List (List Char)
  | [] => [[]]
  | c :: cs =>
      if c = sep then [] :: splitAt sep cs
      else
        match splitAt sep cs with
        | [] => [[c]]
        | field :: fields => (c :: field) :: fields

/-- `value.includes(pattern)`. -/
def includes (pattern : List Char) : List Char → Bool
  | [] => pattern.isEmpty
  | c :: cs => pattern.isPrefixOf (c :: cs) || includes pattern cs

/-- Splitting never yields an empty list of fields. -/
theorem splitAt_ne_nil (sep : Char) (cs : List Char) : splitAt sep cs ≠ [] := by
  cases cs with
  | nil => simp [splitAt]
  | cons c cs =>
      unfold splitAt
      split
      · simp
      · split <;> simp

/-- The characters of a text that was split at a character are that character and those
of its fields. -/
theorem mem_splitAt (sep : Char) {c : Char} {cs : List Char} (hc : c ∈ cs) :
    c = sep ∨ ∃ field ∈ splitAt sep cs, c ∈ field := by
  induction cs with
  | nil => cases hc
  | cons d cs ih =>
      unfold splitAt
      by_cases hsep : d = sep
      · rw [if_pos hsep]
        rcases List.mem_cons.mp hc with hhead | htail
        · exact Or.inl (hhead.trans hsep)
        · exact (ih htail).imp_right fun ⟨field, hmem, hfield⟩ =>
            ⟨field, List.mem_cons_of_mem _ hmem, hfield⟩
      · rw [if_neg hsep]
        cases hfields : splitAt sep cs with
        | nil => exact absurd hfields (splitAt_ne_nil sep cs)
        | cons first rest =>
            rcases List.mem_cons.mp hc with hhead | htail
            · exact Or.inr ⟨d :: first, by simp, by simp [hhead]⟩
            · refine (ih htail).imp_right fun ⟨field, hmem, hfield⟩ => ?_
              rw [hfields] at hmem
              rcases List.mem_cons.mp hmem with hfirst | hrest
              · exact ⟨d :: first, by simp, List.mem_cons_of_mem _ (hfirst ▸ hfield)⟩
              · exact ⟨field, List.mem_cons_of_mem _ hrest, hfield⟩

end Eveland.JsString
