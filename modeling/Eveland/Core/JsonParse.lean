/-
# Reading the text of a JSON value

`JSON.parse`: white space between the tokens, strings without bare control characters, numbers in
the grammar of JSON, and of two fields with one key the later. A value whose numbers read back, and
whose objects have each key once, is read back from its text.

What number a literal stands for is a parameter.
-/

import Eveland.Core.Stringify

namespace Eveland.Js

/-! ## Tokens -/

/-- White space between tokens. -/
def isSpace (u : UInt16) : Bool := u = 32 || u = 9 || u = 10 || u = 13

def skipSpace (text : Text) : Text := text.dropWhile isSpace

/-- A hexadecimal digit, in either case. -/
def hexOf (u : UInt16) : Option ℕ :=
  if 48 ≤ u ∧ u ≤ 57 then some (u.toNat - 48)
  else if 97 ≤ u ∧ u ≤ 102 then some (u.toNat - 87)
  else if 65 ≤ u ∧ u ≤ 70 then some (u.toNat - 55)
  else none

/-- The four digits after `\u`. -/
def readHex (a b c d : UInt16) : Option UInt16 := do
  let a ← hexOf a
  let b ← hexOf b
  let c ← hexOf c
  let d ← hexOf d
  some (UInt16.ofNat (a * 4096 + b * 256 + c * 16 + d))

/-- The letters that may follow a backslash. -/
def escapeOf (letter : UInt16) : Option UInt16 :=
  if letter = 34 ∨ letter = 92 ∨ letter = 47 then some letter
  else if letter = 98 then some 8
  else if letter = 116 then some 9
  else if letter = 110 then some 10
  else if letter = 102 then some 12
  else if letter = 114 then some 13
  else none

/-- The first code unit of a text within quotes, and what follows it. -/
def readUnit (u : UInt16) (rest : Text) : Option (UInt16 × Text) :=
  if u = 92 then
    match rest with
    | [] => none
    | letter :: tail =>
        if letter = 117 then
          match tail with
          | a :: b :: c :: d :: tail => (readHex a b c d).map fun unit => (unit, tail)
          | _ => none
        else (escapeOf letter).map fun unit => (unit, tail)
  else if u < 32 then none
  else some (u, rest)

/-- A string up to its closing quote, and what follows the quote. -/
def readString : ℕ → Text → Option (Text × Text)
  | fuel + 1, u :: rest =>
      if u = 34 then some ([], rest)
      else
        (readUnit u rest).bind fun first =>
          (readString fuel first.2).map fun read => (first.1 :: read.1, read.2)
  | _, _ => none

def isDigit (u : UInt16) : Bool := 48 ≤ u && u ≤ 57

/-- Digits, one at least. -/
def readDigits (text : Text) : Option (Text × Text) :=
  if text.takeWhile isDigit = [] then none
  else some (text.takeWhile isDigit, text.dropWhile isDigit)

/-- The sign of a number. -/
def readSign (text : Text) : Text × Text :=
  match text with
  | u :: rest => if u = 45 then ([u], rest) else ([], text)
  | [] => ([], [])

/-- The part of a number before its point: no digits after a leading zero. -/
def readInteger (text : Text) : Option (Text × Text) :=
  match text with
  | u :: rest => if u = 48 then some ([u], rest) else readDigits text
  | [] => none

def readFraction (text : Text) : Option (Text × Text) :=
  match text with
  | u :: rest =>
      if u = 46 then (readDigits rest).map fun read => (u :: read.1, read.2) else some ([], text)
  | [] => some ([], [])

def readExponent (text : Text) : Option (Text × Text) :=
  match text with
  | u :: rest =>
      if u = 101 ∨ u = 69 then
        match rest with
        | v :: digits =>
            if v = 43 ∨ v = 45 then
              (readDigits digits).map fun read => (u :: v :: read.1, read.2)
            else (readDigits rest).map fun read => (u :: read.1, read.2)
        | [] => none
      else some ([], text)
  | [] => some ([], [])

/-- A number's literal, and what follows it. -/
def readNumber (text : Text) : Option (Text × Text) := do
  let sign := readSign text
  let integer ← readInteger sign.2
  let fraction ← readFraction integer.2
  let exponent ← readExponent fraction.2
  some (sign.1 ++ integer.1 ++ fraction.1 ++ exponent.1, exponent.2)

/-- One of `null`, `true` and `false`. -/
def readLiteral (literal : Text) (value : Value) (text : Text) : Option (Value × Text) :=
  if literal.isPrefixOf text then some (value, text.drop literal.length) else none

/-! ## Values -/

/-- The fields of an object as they are read: a later one replaces an earlier one of its key. -/
def fromEntries (entries : List (Text × Value)) : List (Text × Value) :=
  entries.foldl
    (fun fields entry =>
      if fields.any fun field => field.1 = entry.1 then
        fields.map fun field => if field.1 = entry.1 then entry else field
      else fields ++ [entry])
    []

section

-- The number that a literal stands for, as `JSON.stringify` prints it. One that is too large for a
-- number is infinite, and printed as `null`.
variable (numberOf : Text → Option NumberText)

mutual

/-- A value, and what follows it. -/
def readValue : ℕ → Text → Option (Value × Text)
  | 0, _ => none
  | fuel + 1, text =>
      match skipSpace text with
      | [] => none
      | u :: rest =>
          if u = 34 then
            (readString (rest.length + 1) rest).map fun read => (.str read.1, read.2)
          else if u = 91 then
            if (skipSpace rest).head? = some 93 then some (.arr [], (skipSpace rest).tail)
            else (readElements fuel rest).map fun read => (.arr read.1, read.2)
          else if u = 123 then
            if (skipSpace rest).head? = some 125 then some (.obj [], (skipSpace rest).tail)
            else (readFields fuel rest).map fun read => (.obj (fromEntries read.1), read.2)
          else if u = 110 then readLiteral (units ['n', 'u', 'l', 'l']) .null (u :: rest)
          else if u = 116 then readLiteral (units ['t', 'r', 'u', 'e']) (.bool true) (u :: rest)
          else if u = 102 then
            readLiteral (units ['f', 'a', 'l', 's', 'e']) (.bool false) (u :: rest)
          else
            (readNumber (u :: rest)).map fun read =>
              ((numberOf read.1).elim .null .num, read.2)

/-- The elements of an array up to its closing bracket. -/
def readElements : ℕ → Text → Option (List Value × Text)
  | 0, _ => none
  | fuel + 1, text =>
      (readValue fuel text).bind fun first =>
        match skipSpace first.2 with
        | [] => none
        | u :: rest =>
            if u = 44 then
              (readElements fuel rest).map fun more => (first.1 :: more.1, more.2)
            else if u = 93 then some ([first.1], rest)
            else none

/-- The fields of an object up to its closing brace. -/
def readFields : ℕ → Text → Option (List (Text × Value) × Text)
  | 0, _ => none
  | fuel + 1, text =>
      match skipSpace text with
      | [] => none
      | u :: rest =>
          if u = 34 then
            (readString (rest.length + 1) rest).bind fun key =>
              match skipSpace key.2 with
              | [] => none
              | v :: rest =>
                  if v = 58 then
                    (readValue fuel rest).bind fun first =>
                      match skipSpace first.2 with
                      | [] => none
                      | w :: rest =>
                          if w = 44 then
                            (readFields fuel rest).map fun more =>
                              ((key.1, first.1) :: more.1, more.2)
                          else if w = 125 then some ([(key.1, first.1)], rest)
                          else none
                  else none
          else none

end

/-- `JSON.parse`. -/
def parse (text : Text) : Option Value :=
  (readValue numberOf (2 * text.length + 1) text).bind fun read =>
    if skipSpace read.2 = [] then some read.1 else none

end

/-! ## Strings are read back -/

theorem hexOf_hexDigit : ∀ n < 16, hexOf (hexDigit n) = some n := by
  decide

theorem readHex_digits (u : UInt16) :
    readHex (hexDigit (u.toNat / 4096)) (hexDigit (u.toNat / 256 % 16))
      (hexDigit (u.toNat / 16 % 16)) (hexDigit (u.toNat % 16)) = some u := by
  have hu : u.toNat < 65536 := u.toNat_lt
  rw [readHex, hexOf_hexDigit _ (by omega), hexOf_hexDigit _ (by omega),
    hexOf_hexDigit _ (by omega), hexOf_hexDigit _ (by omega)]
  have hsum : u.toNat / 4096 * 4096 + u.toNat / 256 % 16 * 256 + u.toNat / 16 % 16 * 16 +
      u.toNat % 16 = u.toNat := by omega
  simp only [Option.bind_eq_bind, Option.bind_some, hsum, UInt16.ofNat_toNat]

/-- An escaped code unit is read back. -/
theorem readString_escapeUnit (fuel : ℕ) (u : UInt16) (rest : Text) :
    readString (fuel + 1) (escapeUnit u ++ rest) =
      (readString fuel rest).map fun read => (u :: read.1, read.2) := by
  rw [escapeUnit]
  split_ifs with h8 h9 h10 h12 h13 h34 h92 hcode
  · rw [h8]; rfl
  · rw [h9]; rfl
  · rw [h10]; rfl
  · rw [h12]; rfl
  · rw [h13]; rfl
  · rw [h34]; rfl
  · rw [h92]; rfl
  · simp [unicodeEscape, readString, readUnit, readHex_digits]
  · have hbare : ¬u < 32 := fun h => hcode (Or.inl h)
    simp [readString, readUnit, h34, h92, hbare]

/-- A half of a surrogate pair is read back. -/
theorem readString_surrogate (fuel : ℕ) {u : UInt16} (hu : 0xD800 ≤ u) (rest : Text) :
    readString (fuel + 1) (u :: rest) =
      (readString fuel rest).map fun read => (u :: read.1, read.2) := by
  have hquote : u ≠ 34 := by
    rintro rfl
    exact absurd hu (by decide)
  have hback : u ≠ 92 := by
    rintro rfl
    exact absurd hu (by decide)
  have hbare : ¬u < 32 := by
    intro hlt
    exact absurd (UInt16.lt_of_le_of_lt hu hlt) (by decide)
  simp [readString, readUnit, hquote, hback, hbare]

/-- What is quoted is read back. -/
theorem readString_escape (text rest : Text) (fuel : ℕ) (hfuel : text.length < fuel) :
    readString fuel (escape text ++ 34 :: rest) = some (text, rest) := by
  induction text using escape.induct generalizing fuel with
  | case1 =>
      obtain ⟨fuel, rfl⟩ := Nat.exists_eq_add_of_lt hfuel
      simp [escape, readString]
  | case2 u =>
      obtain ⟨fuel, rfl⟩ := Nat.exists_eq_add_of_lt hfuel
      rw [escape, readString_escapeUnit, List.length_singleton, Nat.add_comm]
      simp [readString]
  | case3 u v text hpair ih =>
      obtain ⟨fuel, rfl⟩ := Nat.exists_eq_add_of_lt hfuel
      have hsurrogates := hpair
      simp only [isLeadSurrogate, isTrailSurrogate, Bool.and_eq_true, decide_eq_true_eq]
        at hsurrogates
      obtain ⟨⟨hlead, _⟩, htrail, _⟩ := hsurrogates
      have htrail : 0xD800 ≤ v := UInt16.le_trans (by decide) htrail
      rw [escape, if_pos hpair, List.cons_append, List.cons_append, readString_surrogate _ hlead]
      simp only [List.length_cons]
      rw [show text.length + 1 + 1 + fuel = (text.length + 1 + fuel) + 1 by omega,
        readString_surrogate _ htrail, ih _ (by omega)]
      rfl
  | case4 u v text hpair ih =>
      obtain ⟨fuel, rfl⟩ := Nat.exists_eq_add_of_lt hfuel
      rw [escape, if_neg hpair, List.append_assoc, readString_escapeUnit, ih]
      · rfl
      · simp only [List.length_cons]
        omega

theorem length_le_escapeUnit (u : UInt16) : 1 ≤ (escapeUnit u).length := by
  rw [escapeUnit]
  split_ifs <;> simp [unicodeEscape]

theorem length_le_escape (text : Text) : text.length ≤ (escape text).length := by
  induction text using escape.induct with
  | case1 => exact Nat.le_refl _
  | case2 u => exact length_le_escapeUnit u
  | case3 u v text hpair ih =>
      rw [escape, if_pos hpair]
      simp only [List.length_cons]
      omega
  | case4 u v text hpair ih =>
      have hunit := length_le_escapeUnit u
      rw [escape, if_neg hpair, List.length_append]
      simp only [List.length_cons] at ih ⊢
      omega

/-- A string is read back from behind its opening quote. -/
theorem readString_quote (text rest : Text) :
    readString ((escape text ++ 34 :: rest).length + 1) (escape text ++ 34 :: rest) =
      some (text, rest) := by
  apply readString_escape
  have hle := length_le_escape text
  rw [List.length_append]
  omega

/-! ## Values are read back -/

section

variable {numberOf : Text → Option NumberText}

/-- A number's literal is read whole, and stands for the number. -/
structure ReadsBack (numberOf : Text → Option NumberText) (number : NumberText) : Prop where
  whole : ∀ rest, Follows rest → readNumber (number.text ++ rest) = some (number.text, rest)
  same : numberOf number.text = some number

/-- The numbers of a value read back, and its objects have each key once. -/
inductive Readable (numberOf : Text → Option NumberText) : Value → Prop
  | null : Readable numberOf .null
  | bool (value : Bool) : Readable numberOf (.bool value)
  | num (number : NumberText) (h : ReadsBack numberOf number) : Readable numberOf (.num number)
  | str (text : Text) : Readable numberOf (.str text)
  | arr (elements : List Value) (h : ∀ element ∈ elements, Readable numberOf element) :
      Readable numberOf (.arr elements)
  | obj (fields : List (Text × Value)) (hkeys : (fields.map Prod.fst).Nodup)
      (h : ∀ field ∈ fields, Readable numberOf field.2) : Readable numberOf (.obj fields)

/-- A value is read back, with what follows it. -/
def ReadBack (numberOf : Text → Option NumberText) (value : Value) : Prop :=
  ∀ (rest : Text) (fuel : ℕ), Follows rest → 2 * (print value ++ rest).length < fuel →
    readValue numberOf fuel (print value ++ rest) = some (value, rest)

/-- The first code unit of a value's text is no white space. -/
theorem exists_print_cons (value : Value) :
    ∃ u rest, print value = u :: rest ∧ isSpace u = false := by
  cases value with
  | null => exact ⟨_, _, rfl, rfl⟩
  | bool value => cases value <;> exact ⟨_, _, rfl, rfl⟩
  | num number =>
      obtain ⟨u, rest, htext⟩ := List.exists_cons_of_ne_nil number.nonempty
      refine ⟨u, rest, htext, ?_⟩
      have hu := number.number u (by rw [htext]; exact List.mem_cons_self)
      rw [← Bool.not_eq_true]
      intro hspace
      simp only [isSpace, Bool.or_eq_true, decide_eq_true_eq] at hspace
      rcases hspace with ((rfl | rfl) | rfl) | rfl <;> exact absurd hu (by decide)
  | str text => exact ⟨_, _, rfl, rfl⟩
  | arr elements => cases elements <;> exact ⟨_, _, by rw [print], rfl⟩
  | obj fields => rcases fields with _ | ⟨⟨key, value⟩, rest⟩ <;> exact ⟨_, _, by rw [print], rfl⟩

theorem skipSpace_cons {u : UInt16} (hu : isSpace u = false) (rest : Text) :
    skipSpace (u :: rest) = u :: rest := by
  rw [skipSpace, List.dropWhile_cons_of_neg (by simp [hu])]

theorem skipSpace_print (value : Value) (rest : Text) :
    skipSpace (print value ++ rest) = print value ++ rest := by
  obtain ⟨u, tail, hprint, hu⟩ := exists_print_cons value
  rw [hprint, List.cons_append, skipSpace_cons hu]

theorem print_ne_nil (value : Value) : print value ≠ [] := by
  obtain ⟨u, tail, hprint, -⟩ := exists_print_cons value
  rw [hprint]
  exact List.cons_ne_nil _ _

/-- Elements are read back where each of them is. -/
theorem readElements_print {elements : List Value} {first : Value}
    (hfirst : ReadBack numberOf first) (hall : ∀ element ∈ elements, ReadBack numberOf element)
    (rest : Text) (fuel : ℕ)
    (hfuel : 2 * (print first ++ (printElements elements ++ 93 :: rest)).length + 1 < fuel) :
    readElements numberOf fuel (print first ++ (printElements elements ++ 93 :: rest)) =
      some (first :: elements, rest) := by
  induction elements generalizing first fuel with
  | nil =>
      obtain ⟨fuel, rfl⟩ := Nat.exists_eq_add_of_lt (Nat.zero_lt_of_lt hfuel)
      rw [show 0 + fuel + 1 = fuel + 1 by omega] at hfuel ⊢
      rw [readElements, printElements, List.nil_append]
      rw [printElements, List.nil_append] at hfuel
      rw [hfirst _ fuel (follows_cons (Or.inr (Or.inl rfl))) (by omega)]
      simp [skipSpace_cons (u := 93) rfl]
  | cons element elements ih =>
      obtain ⟨fuel, rfl⟩ := Nat.exists_eq_add_of_lt (Nat.zero_lt_of_lt hfuel)
      rw [show 0 + fuel + 1 = fuel + 1 by omega] at hfuel ⊢
      have hrest : printElements (element :: elements) ++ 93 :: rest =
          44 :: (print element ++ (printElements elements ++ 93 :: rest)) := by
        rw [printElements, List.cons_append, List.append_assoc]
      rw [hrest] at hfuel ⊢
      have hlength : (print first ++ 44 :: (print element ++
          (printElements elements ++ 93 :: rest))).length =
          (print first).length + (print element ++
            (printElements elements ++ 93 :: rest)).length + 1 := by
        rw [List.length_append, List.length_cons]
        omega
      have hpos := List.length_pos_iff.mpr (print_ne_nil first)
      rw [readElements, hfirst _ fuel (follows_cons (Or.inl rfl)) (by omega)]
      simp only [Option.bind_some, skipSpace_cons (u := 44) rfl, if_true]
      rw [ih (hall element List.mem_cons_self)
        (fun later hlater => hall later (List.mem_cons_of_mem _ hlater)) fuel (by omega)]
      rfl

/-- Fields are read back where each of their values is. -/
theorem readFields_print {fields : List (Text × Value)} {key : Text} {first : Value}
    (hfirst : ReadBack numberOf first) (hall : ∀ field ∈ fields, ReadBack numberOf field.2)
    (rest : Text) (fuel : ℕ)
    (hfuel : 2 * (quote key ++ 58 :: (print first ++
      (printFields fields ++ 125 :: rest))).length + 1 < fuel) :
    readFields numberOf fuel (quote key ++ 58 :: (print first ++
      (printFields fields ++ 125 :: rest))) = some ((key, first) :: fields, rest) := by
  induction fields generalizing key first fuel with
  | nil =>
      obtain ⟨fuel, rfl⟩ := Nat.exists_eq_add_of_lt (Nat.zero_lt_of_lt hfuel)
      rw [show 0 + fuel + 1 = fuel + 1 by omega] at hfuel ⊢
      rw [printFields, List.nil_append] at hfuel ⊢
      have hquote : quote key ++ 58 :: (print first ++ 125 :: rest) =
          34 :: (escape key ++ 34 :: 58 :: (print first ++ 125 :: rest)) := by
        simp [quote]
      rw [hquote] at hfuel ⊢
      rw [readFields, skipSpace_cons rfl]
      simp only [if_true, readString_quote, Option.bind_some, skipSpace_cons (u := 58) rfl]
      rw [hfirst _ fuel (follows_cons (Or.inr (Or.inr rfl))) (by
        simp only [List.length_cons, List.length_append] at hfuel ⊢
        omega)]
      simp [skipSpace_cons (u := 125) rfl]
  | cons field fields ih =>
      obtain ⟨fuel, rfl⟩ := Nat.exists_eq_add_of_lt (Nat.zero_lt_of_lt hfuel)
      obtain ⟨key', value⟩ := field
      rw [show 0 + fuel + 1 = fuel + 1 by omega] at hfuel ⊢
      have hrest : printFields ((key', value) :: fields) ++ 125 :: rest =
          44 :: (quote key' ++ 58 :: (print value ++ (printFields fields ++ 125 :: rest))) := by
        simp [printFields]
      rw [hrest] at hfuel ⊢
      have hquote : quote key ++ 58 :: (print first ++ 44 :: (quote key' ++
          58 :: (print value ++ (printFields fields ++ 125 :: rest)))) =
          34 :: (escape key ++ 34 :: 58 :: (print first ++ 44 :: (quote key' ++
            58 :: (print value ++ (printFields fields ++ 125 :: rest))))) := by
        simp [quote]
      rw [hquote] at hfuel ⊢
      generalize hmore : quote key' ++ 58 :: (print value ++ (printFields fields ++ 125 :: rest)) =
        more at hfuel ⊢
      rw [readFields, skipSpace_cons rfl]
      simp only [if_true, readString_quote, Option.bind_some, skipSpace_cons (u := 58) rfl]
      rw [hfirst _ fuel (follows_cons (Or.inl rfl)) (by
        simp only [List.length_cons, List.length_append] at hfuel ⊢
        omega)]
      simp only [Option.bind_some, skipSpace_cons (u := 44) rfl, if_true]
      rw [← hmore, ih (hall (key', value) List.mem_cons_self)
        (fun later hlater => hall later (List.mem_cons_of_mem _ hlater)) fuel (by
          rw [hmore]
          simp only [List.length_cons, List.length_append] at hfuel
          omega)]
      rfl

/-- Entries with each key once are the fields of their object. -/
theorem fromEntries_eq_self {entries : List (Text × Value)}
    (h : (entries.map Prod.fst).Nodup) : fromEntries entries = entries := by
  have hfold : ∀ (entries fields : List (Text × Value)),
      ((fields ++ entries).map Prod.fst).Nodup →
        entries.foldl
          (fun fields entry =>
            if fields.any fun field => field.1 = entry.1 then
              fields.map fun field => if field.1 = entry.1 then entry else field
            else fields ++ [entry]) fields = fields ++ entries := by
    intro entries
    induction entries with
    | nil => simp
    | cons entry entries ih =>
        intro fields hnodup
        have hnew : fields.any (fun field => decide (field.1 = entry.1)) = false := by
          rw [List.any_eq_false]
          intro field hfield
          rw [List.map_append, List.nodup_append] at hnodup
          have hne := hnodup.2.2 field.1 (List.mem_map_of_mem hfield) entry.1 (by simp)
          simpa using hne
        rw [List.foldl_cons, hnew, if_neg (by decide), ih _ (by simpa using hnodup),
          List.append_assoc, List.singleton_append]
  exact hfold entries [] h

/-- **Values.** A readable value is read back from its text. -/
theorem Readable.readBack {value : Value} (h : Readable numberOf value) :
    ReadBack numberOf value := by
  induction h with
  | null =>
      intro rest fuel _ hfuel
      obtain ⟨fuel, rfl⟩ := Nat.exists_eq_add_of_lt (Nat.zero_lt_of_lt hfuel)
      rw [show 0 + fuel + 1 = fuel + 1 by omega, readValue, skipSpace_print]
      simp [print, units, readLiteral]
  | bool value =>
      intro rest fuel _ hfuel
      obtain ⟨fuel, rfl⟩ := Nat.exists_eq_add_of_lt (Nat.zero_lt_of_lt hfuel)
      rw [show 0 + fuel + 1 = fuel + 1 by omega, readValue, skipSpace_print]
      cases value with
      | true => simp [print, units, readLiteral]
      | false => simp [print, units, readLiteral]
  | num number hnumber =>
      intro rest fuel hrest hfuel
      obtain ⟨fuel, rfl⟩ := Nat.exists_eq_add_of_lt (Nat.zero_lt_of_lt hfuel)
      obtain ⟨u, tail, htext⟩ := List.exists_cons_of_ne_nil number.nonempty
      have hu := number.number u (by rw [htext]; exact List.mem_cons_self)
      have hne : ∀ v : UInt16, isNumberUnit v = false → u ≠ v := by
        rintro v hv rfl
        rw [hu] at hv
        cases hv
      have hwhole := hnumber.whole rest hrest
      rw [htext, List.cons_append] at hwhole
      rw [show 0 + fuel + 1 = fuel + 1 by omega, readValue, skipSpace_print, print, htext,
        List.cons_append]
      simp only [if_neg (hne 34 rfl), if_neg (hne 91 rfl), if_neg (hne 123 rfl),
        if_neg (hne 110 rfl), if_neg (hne 116 rfl), if_neg (hne 102 rfl), hwhole, Option.map_some]
      rw [← htext, hnumber.same]
      rfl
  | str text =>
      intro rest fuel _ hfuel
      obtain ⟨fuel, rfl⟩ := Nat.exists_eq_add_of_lt (Nat.zero_lt_of_lt hfuel)
      have hquote : print (.str text) ++ rest = 34 :: (escape text ++ 34 :: rest) := by
        simp [print, quote]
      rw [show 0 + fuel + 1 = fuel + 1 by omega, readValue, skipSpace_print, hquote]
      simp only [if_true, readString_quote, Option.map_some]
  | arr elements _ ih =>
      intro rest fuel _ hfuel
      obtain ⟨fuel, rfl⟩ := Nat.exists_eq_add_of_lt (Nat.zero_lt_of_lt hfuel)
      rw [show 0 + fuel + 1 = fuel + 1 by omega] at hfuel ⊢
      rw [readValue, skipSpace_print]
      cases elements with
      | nil => simp [print, skipSpace_cons (u := 93) rfl]
      | cons first elements =>
          have hprint : print (.arr (first :: elements)) ++ rest =
              91 :: (print first ++ (printElements elements ++ 93 :: rest)) := by
            simp [print]
          have hopen : (skipSpace (print first ++ (printElements elements ++ 93 :: rest))).head? ≠
              some 93 := by
            rw [skipSpace_print]
            intro hhead
            obtain ⟨more, hmore⟩ := List.head?_eq_some_iff.mp hhead
            exact print_append_ne first _ more hmore
          rw [hprint] at hfuel ⊢
          simp only [show ((91 : UInt16) = 34) = False by decide, if_false, if_true, hopen]
          rw [readElements_print (ih first List.mem_cons_self)
            (fun later hlater => ih later (List.mem_cons_of_mem _ hlater)) rest fuel (by
              rw [List.length_cons] at hfuel
              omega)]
          rfl
  | obj fields hkeys _ ih =>
      intro rest fuel _ hfuel
      obtain ⟨fuel, rfl⟩ := Nat.exists_eq_add_of_lt (Nat.zero_lt_of_lt hfuel)
      rw [show 0 + fuel + 1 = fuel + 1 by omega] at hfuel ⊢
      rw [readValue, skipSpace_print]
      rcases fields with _ | ⟨⟨key, first⟩, fields⟩
      · simp [print, skipSpace_cons (u := 125) rfl]
      · have hprint : print (.obj ((key, first) :: fields)) ++ rest =
            123 :: (quote key ++ 58 :: (print first ++ (printFields fields ++ 125 :: rest))) := by
          simp [print]
        rw [hprint] at hfuel ⊢
        simp only [show ((123 : UInt16) = 34) = False by decide,
          show ((123 : UInt16) = 91) = False by decide, if_false, if_true]
        rw [if_neg (by
          rw [quote, List.cons_append, List.cons_append, skipSpace_cons rfl, List.head?_cons]
          decide)]
        have hfirst : ReadBack numberOf first := ih (key, first) List.mem_cons_self
        rw [readFields_print hfirst
          (fun later hlater => ih later (List.mem_cons_of_mem _ hlater)) rest fuel (by
            rw [List.length_cons] at hfuel
            omega)]
        rw [Option.map_some, fromEntries_eq_self hkeys]

/-- `JSON.parse` reads back what has been printed. -/
theorem parse_print {value : Value} (h : Readable numberOf value) :
    parse numberOf (print value) = some value := by
  have hnil : Follows [] := fun u hu => by cases hu
  have hread := h.readBack [] (2 * (print value).length + 1) hnil (by simp)
  rw [List.append_nil] at hread
  rw [parse, hread]
  rfl

end

end Eveland.Js
