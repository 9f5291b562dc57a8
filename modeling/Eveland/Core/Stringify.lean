/-
# The text of a JSON value

JSON values as the platform holds them: a string is a list of UTF-16 code units, and the fields of
an object have an order of insertion. `JSON.stringify` goes through an object in its own order, in
which the keys that are array indices come first and ascend. Its text determines the value in that
order.
-/

import Mathlib.Data.List.Sort

namespace Eveland.Js

/-- The code units of a string. -/
abbrev Text := List UInt16

/-- The code units of characters of the basic plane. -/
def units (cs : List Char) : Text := cs.map fun c => UInt16.ofNat c.toNat

/-! ## Values -/

/-- A code unit of a number's text. -/
def isNumberUnit (u : UInt16) : Bool :=
  (48 ≤ u && u ≤ 57) || u = 45 || u = 43 || u = 46 || u = 101

/-- A finite number, as the text that `JSON.stringify` prints for it. Two numbers are equal exactly
where their texts are. -/
structure NumberText where
  text : Text
  nonempty : text ≠ []
  number : ∀ u ∈ text, isNumberUnit u = true

/-- A JSON value, with the fields of an object in the order in which they were inserted. -/
inductive Value
  | null
  | bool (value : Bool)
  | num (number : NumberText)
  | str (text : Text)
  | arr (elements : List Value)
  | obj (fields : List (Text × Value))

namespace Value

/-- What holds of a value holds of it by induction on its elements and the values of its fields. -/
@[elab_as_elim, induction_eliminator]
theorem induct {motive : Value → Prop} (null : motive .null) (bool : ∀ value, motive (.bool value))
    (num : ∀ number, motive (.num number)) (str : ∀ text, motive (.str text))
    (arr : ∀ elements, (∀ element ∈ elements, motive element) → motive (.arr elements))
    (obj : ∀ fields, (∀ field ∈ fields, motive field.2) → motive (.obj fields)) :
    ∀ value, motive value
  | .null => null
  | .bool value => bool value
  | .num number => num number
  | .str text => str text
  | .arr elements => arr elements fun element _ => induct null bool num str arr obj element
  | .obj fields => obj fields fun field _ => induct null bool num str arr obj field.2
decreasing_by
  · decreasing_tactic
  · next hfield =>
      have hlt := List.sizeOf_lt_of_mem hfield
      obtain ⟨key, value⟩ := field
      simp only [Prod.mk.sizeOf_spec, Value.obj.sizeOf_spec] at hlt ⊢
      omega

end Value

/-! ## Strings -/

/-- A hexadecimal digit. -/
def hexDigit (n : ℕ) : UInt16 :=
  if n < 10 then UInt16.ofNat (48 + n) else UInt16.ofNat (87 + n)

/-- `\uXXXX`. -/
def unicodeEscape (u : UInt16) : Text :=
  [92, 117, hexDigit (u.toNat / 4096), hexDigit (u.toNat / 256 % 16), hexDigit (u.toNat / 16 % 16),
    hexDigit (u.toNat % 16)]

def isLeadSurrogate (u : UInt16) : Bool := 0xD800 ≤ u && u ≤ 0xDBFF

def isTrailSurrogate (u : UInt16) : Bool := 0xDC00 ≤ u && u ≤ 0xDFFF

/-- A code unit that is no half of a pair, within quotes. -/
def escapeUnit (u : UInt16) : Text :=
  if u = 8 then [92, 98]
  else if u = 9 then [92, 116]
  else if u = 10 then [92, 110]
  else if u = 12 then [92, 102]
  else if u = 13 then [92, 114]
  else if u = 34 then [92, 34]
  else if u = 92 then [92, 92]
  else if u < 32 ∨ isLeadSurrogate u ∨ isTrailSurrogate u then unicodeEscape u
  else [u]

/-- The code units of a string within quotes. The two halves of a surrogate pair stay as they are. -/
def escape : Text → Text
  | [] => []
  | [u] => escapeUnit u
  | u :: v :: rest =>
      if isLeadSurrogate u && isTrailSurrogate v then u :: v :: escape rest
      else escapeUnit u ++ escape (v :: rest)

/-- `QuoteJSONString`. -/
def quote (text : Text) : Text := 34 :: escape text ++ [34]

/-! ## The order of an object -/

/-- The decimal text of a number. -/
def decimalText (n : ℕ) : Text := units (Nat.toDigits 10 n)

/-- The number that a key is the decimal text of, if it is an array index. -/
def arrayIndex (key : Text) : Option ℕ :=
  let n := key.foldl (fun acc u => acc * 10 + (u.toNat - 48)) 0
  if decimalText n = key ∧ n < 4294967295 then some n else none

/-- A key that is an array index. -/
def isIndex {α : Type*} (entry : Text × α) : Bool := (arrayIndex entry.1).isSome

/-- The comparison of the keys that are array indices. -/
def indexLe {α : Type*} (first second : Text × α) : Prop :=
  (arrayIndex first.1).getD 0 ≤ (arrayIndex second.1).getD 0

instance {α : Type*} : DecidableRel (indexLe (α := α)) :=
  fun _ _ => inferInstanceAs (Decidable (_ ≤ _))

/-- The own properties of an object in their order: array indices ascending, then the other keys as
they were inserted. -/
def ownOrder {α : Type*} (fields : List (Text × α)) : List (Text × α) :=
  (fields.filter isIndex).insertionSort indexLe ++ fields.filter fun entry => !isIndex entry

/-! ## Reordering -/

section Reordering

variable (order : List (Text × Value) → List (Text × Value))

mutual

/-- A value with the fields of each of its objects in another order. -/
def reorder : Value → Value
  | .null => .null
  | .bool value => .bool value
  | .num number => .num number
  | .str text => .str text
  | .arr elements => .arr (reorderElements elements)
  | .obj fields => .obj (order (reorderFields fields))

def reorderElements : List Value → List Value
  | [] => []
  | element :: rest => reorder element :: reorderElements rest

def reorderFields : List (Text × Value) → List (Text × Value)
  | [] => []
  | (key, value) :: rest => (key, reorder value) :: reorderFields rest

end

theorem reorderElements_eq_map (elements : List Value) :
    reorderElements order elements = elements.map (reorder order) := by
  induction elements with
  | nil => rfl
  | cons element rest ih => rw [reorderElements, ih, List.map_cons]

theorem reorderFields_eq_map (fields : List (Text × Value)) :
    reorderFields order fields = fields.map (Prod.map id (reorder order)) := by
  induction fields with
  | nil => rfl
  | cons entry rest ih =>
      obtain ⟨key, value⟩ := entry
      rw [reorderFields, ih, List.map_cons]
      rfl

end Reordering

/-! ## Text -/

mutual

/-- The text of a value, with each object in the order its fields have. -/
def print : Value → Text
  | .null => units ['n', 'u', 'l', 'l']
  | .bool true => units ['t', 'r', 'u', 'e']
  | .bool false => units ['f', 'a', 'l', 's', 'e']
  | .num number => number.text
  | .str text => quote text
  | .arr [] => [91, 93]
  | .arr (element :: rest) => 91 :: (print element ++ (printElements rest ++ [93]))
  | .obj [] => [123, 125]
  | .obj ((key, value) :: rest) =>
      123 :: (quote key ++ 58 :: (print value ++ (printFields rest ++ [125])))

/-- The elements after the first. -/
def printElements : List Value → Text
  | [] => []
  | element :: rest => 44 :: (print element ++ printElements rest)

/-- The fields after the first. -/
def printFields : List (Text × Value) → Text
  | [] => []
  | (key, value) :: rest => 44 :: (quote key ++ 58 :: (print value ++ printFields rest))

end

/-- `JSON.stringify`. -/
def stringify (value : Value) : Text := print (reorder ownOrder value)

/-! ## What the text determines -/

/-- A text that follows a value: nothing, or more of the array or object the value is in. -/
def Follows (rest : Text) : Prop :=
  ∀ u ∈ rest.head?, u = 44 ∨ u = 93 ∨ u = 125

theorem follows_cons {u : UInt16} {rest : Text} (hu : u = 44 ∨ u = 93 ∨ u = 125) :
    Follows (u :: rest) := by
  intro first hfirst
  cases hfirst
  exact hu

/-- The four digits of a code unit. -/
def hexValue (u : UInt16) : ℕ := if u.toNat < 58 then u.toNat - 48 else u.toNat - 87

theorem hexValue_hexDigit : ∀ n < 16, hexValue (hexDigit n) = n := by
  decide

def hexUnit (a b c d : UInt16) : UInt16 :=
  UInt16.ofNat (hexValue a * 4096 + hexValue b * 256 + hexValue c * 16 + hexValue d)

theorem hexUnit_digits (u : UInt16) :
    hexUnit (hexDigit (u.toNat / 4096)) (hexDigit (u.toNat / 256 % 16))
      (hexDigit (u.toNat / 16 % 16)) (hexDigit (u.toNat % 16)) = u := by
  have hu : u.toNat < 65536 := u.toNat_lt
  rw [hexUnit, hexValue_hexDigit _ (by omega), hexValue_hexDigit _ (by omega),
    hexValue_hexDigit _ (by omega), hexValue_hexDigit _ (by omega)]
  have hsum : u.toNat / 4096 * 4096 + u.toNat / 256 % 16 * 256 + u.toNat / 16 % 16 * 16 +
      u.toNat % 16 = u.toNat := by omega
  rw [hsum, UInt16.ofNat_toNat]

/-- The code unit that a letter after a backslash stands for. -/
def escapedUnit (letter : UInt16) : UInt16 :=
  if letter = 98 then 8
  else if letter = 116 then 9
  else if letter = 110 then 10
  else if letter = 102 then 12
  else if letter = 114 then 13
  else letter

/-- The first code unit of a text within quotes, and what follows it. -/
def unescapeUnit (u : UInt16) (rest : Text) : Option (UInt16 × Text) :=
  if u = 92 then
    match rest with
    | letter :: tail =>
        if letter = 117 then
          match tail with
          | a :: b :: c :: d :: tail => some (hexUnit a b c d, tail)
          | _ => none
        else some (escapedUnit letter, tail)
    | [] => none
  else some (u, rest)

/-- The text up to the closing quote, and what follows the quote. -/
def unquote : ℕ → Text → Option (Text × Text)
  | fuel + 1, u :: rest =>
      if u = 34 then some ([], rest)
      else
        (unescapeUnit u rest).bind fun first =>
          (unquote fuel first.2).map fun read => (first.1 :: read.1, read.2)
  | _, _ => none

/-- An escaped code unit is read back. -/
theorem unquote_escapeUnit (fuel : ℕ) (u : UInt16) (rest : Text) :
    unquote (fuel + 1) (escapeUnit u ++ rest) =
      (unquote fuel rest).map fun read => (u :: read.1, read.2) := by
  rw [escapeUnit]
  split_ifs with h8 h9 h10 h12 h13 h34 h92 hcode
  · rw [h8]; rfl
  · rw [h9]; rfl
  · rw [h10]; rfl
  · rw [h12]; rfl
  · rw [h13]; rfl
  · rw [h34]; rfl
  · rw [h92]; rfl
  · simp [unicodeEscape, unquote, unescapeUnit, hexUnit_digits]
  · simp [unquote, unescapeUnit, h34, h92]

/-- A half of a surrogate pair is read back. -/
theorem unquote_surrogate (fuel : ℕ) {u : UInt16} (hu : 0xD800 ≤ u) (rest : Text) :
    unquote (fuel + 1) (u :: rest) =
      (unquote fuel rest).map fun read => (u :: read.1, read.2) := by
  have hquote : u ≠ 34 := by
    rintro rfl
    exact absurd hu (by decide)
  have hback : u ≠ 92 := by
    rintro rfl
    exact absurd hu (by decide)
  simp [unquote, unescapeUnit, hquote, hback]

/-- **Strings.** What is quoted is read back. -/
theorem unquote_escape (text rest : Text) (fuel : ℕ) (hfuel : text.length < fuel) :
    unquote fuel (escape text ++ 34 :: rest) = some (text, rest) := by
  induction text using escape.induct generalizing fuel with
  | case1 =>
      obtain ⟨fuel, rfl⟩ := Nat.exists_eq_add_of_lt hfuel
      simp [escape, unquote]
  | case2 u =>
      obtain ⟨fuel, rfl⟩ := Nat.exists_eq_add_of_lt hfuel
      rw [escape, unquote_escapeUnit, List.length_singleton, Nat.add_comm]
      simp [unquote]
  | case3 u v text hpair ih =>
      obtain ⟨fuel, rfl⟩ := Nat.exists_eq_add_of_lt hfuel
      have hsurrogates := hpair
      simp only [isLeadSurrogate, isTrailSurrogate, Bool.and_eq_true, decide_eq_true_eq]
        at hsurrogates
      obtain ⟨⟨hlead, _⟩, htrail, _⟩ := hsurrogates
      have htrail : 0xD800 ≤ v := UInt16.le_trans (by decide) htrail
      rw [escape, if_pos hpair, List.cons_append, List.cons_append, unquote_surrogate _ hlead]
      simp only [List.length_cons]
      rw [show text.length + 1 + 1 + fuel = (text.length + 1 + fuel) + 1 by omega,
        unquote_surrogate _ htrail, ih _ (by omega)]
      rfl
  | case4 u v text hpair ih =>
      obtain ⟨fuel, rfl⟩ := Nat.exists_eq_add_of_lt hfuel
      rw [escape, if_neg hpair, List.append_assoc, unquote_escapeUnit, ih]
      · rfl
      · simp only [List.length_cons]
        omega

/-- A quoted string ends where its text does. -/
theorem quote_append_inj {first second rest more : Text}
    (heq : quote first ++ rest = quote second ++ more) : first = second ∧ rest = more := by
  have hinner : escape first ++ 34 :: rest = escape second ++ 34 :: more := by
    simpa [quote] using heq
  have hread := congrArg (unquote (first.length + second.length + 1)) hinner
  rw [unquote_escape _ _ _ (by omega), unquote_escape _ _ _ (by omega)] at hread
  exact Prod.mk.inj (Option.some.inj hread)

/-- A number ends where its text does. -/
theorem number_append_inj {first second : NumberText} {rest more : Text} (hrest : Follows rest)
    (hmore : Follows more) (heq : first.text ++ rest = second.text ++ more) :
    first = second ∧ rest = more := by
  have htake : ∀ (number : NumberText) (tail : Text), Follows tail →
      (number.text ++ tail).takeWhile isNumberUnit = number.text := by
    intro number tail htail
    rw [List.takeWhile_append_of_pos number.number]
    cases tail with
    | nil => simp
    | cons u tail =>
        have hu : isNumberUnit u = false := by
          obtain rfl | rfl | rfl := htail u rfl <;> rfl
        simp [hu]
  have htext := congrArg (List.takeWhile isNumberUnit) heq
  rw [htake first rest hrest, htake second more hmore] at htext
  rw [htext] at heq
  refine ⟨?_, List.append_cancel_left heq⟩
  cases first
  cases second
  cases htext
  rfl

/-- The kinds of values. -/
def Value.shape : Value → ℕ
  | .null => 0
  | .bool true => 1
  | .bool false => 2
  | .num _ => 3
  | .str _ => 4
  | .arr _ => 5
  | .obj _ => 6

/-- The kind of the values that start with a code unit. -/
def shapeOf (u : UInt16) : ℕ :=
  if u = 110 then 0
  else if u = 116 then 1
  else if u = 102 then 2
  else if u = 34 then 4
  else if u = 91 then 5
  else if u = 123 then 6
  else if u = 93 then 7
  else 3

theorem shapeOf_number {u : UInt16} (hu : isNumberUnit u = true) : shapeOf u = 3 := by
  rw [shapeOf]
  split_ifs with h h h h h h h <;> first | rfl | (rw [h] at hu; exact absurd hu (by decide))

/-- The first code unit of a value tells its kind. -/
theorem print_eq_cons (value : Value) :
    ∃ u rest, print value = u :: rest ∧ shapeOf u = value.shape := by
  cases value with
  | null => exact ⟨_, _, rfl, rfl⟩
  | bool value => cases value <;> exact ⟨_, _, rfl, rfl⟩
  | num number =>
      obtain ⟨u, rest, htext⟩ := List.exists_cons_of_ne_nil number.nonempty
      refine ⟨u, rest, htext, shapeOf_number (number.number u ?_)⟩
      rw [htext]
      exact List.mem_cons_self
  | str text => exact ⟨_, _, rfl, rfl⟩
  | arr elements => cases elements <;> exact ⟨_, _, by rw [print], rfl⟩
  | obj fields => rcases fields with _ | ⟨⟨key, value⟩, rest⟩ <;> exact ⟨_, _, by rw [print], rfl⟩

/-- The text of a value determines it, with what follows. -/
def Determines (value : Value) : Prop :=
  ∀ (other : Value) (rest more : Text), Follows rest → Follows more →
    print value ++ rest = print other ++ more → value = other ∧ rest = more

theorem shape_eq {value other : Value} {rest more : Text}
    (heq : print value ++ rest = print other ++ more) : value.shape = other.shape := by
  obtain ⟨u, tail, hvalue, hshape⟩ := print_eq_cons value
  obtain ⟨v, tail', hother, hshape'⟩ := print_eq_cons other
  rw [hvalue, hother] at heq
  obtain ⟨rfl, _⟩ := List.cons.inj heq
  exact hshape.symm.trans hshape'

/-- No value starts with what closes an array. -/
theorem print_append_ne (value : Value) (rest more : Text) : print value ++ rest ≠ 93 :: more := by
  intro heq
  obtain ⟨u, tail, hprint, hshape⟩ := print_eq_cons value
  rw [hprint, List.cons_append] at heq
  obtain ⟨rfl, _⟩ := List.cons.inj heq
  rcases value with _ | ⟨_ | _⟩ | _ | _ | _ | _ <;> cases hshape

theorem follows_printElements (elements : List Value) (rest : Text) :
    Follows (printElements elements ++ 93 :: rest) := by
  cases elements with
  | nil => exact follows_cons (Or.inr (Or.inl rfl))
  | cons element elements =>
      rw [printElements]
      exact follows_cons (Or.inl rfl)

theorem follows_printFields (fields : List (Text × Value)) (rest : Text) :
    Follows (printFields fields ++ 125 :: rest) := by
  cases fields with
  | nil => exact follows_cons (Or.inr (Or.inr rfl))
  | cons entry fields =>
      obtain ⟨key, value⟩ := entry
      rw [printFields]
      exact follows_cons (Or.inl rfl)

/-- The elements after the first are determined where each of them is. -/
theorem printElements_inj {elements : List Value} (hall : ∀ element ∈ elements, Determines element)
    {others : List Value} {rest more : Text}
    (heq : printElements elements ++ 93 :: rest = printElements others ++ 93 :: more) :
    elements = others ∧ rest = more := by
  induction elements generalizing others with
  | nil =>
      cases others with
      | nil => exact ⟨rfl, by simpa [printElements] using heq⟩
      | cons other others => simp [printElements] at heq
  | cons element elements ih =>
      cases others with
      | nil => simp [printElements] at heq
      | cons other others =>
          rw [printElements, printElements] at heq
          simp only [List.cons_append, List.cons.injEq, true_and, List.append_assoc] at heq
          obtain ⟨rfl, htail⟩ := hall element List.mem_cons_self other _ _
            (follows_printElements elements rest) (follows_printElements others more) heq
          obtain ⟨rfl, hrest⟩ :=
            ih (fun later hlater => hall later (List.mem_cons_of_mem _ hlater)) htail
          exact ⟨rfl, hrest⟩

/-- The fields after the first are determined where each of their values is. -/
theorem printFields_inj {fields : List (Text × Value)} (hall : ∀ field ∈ fields, Determines field.2)
    {others : List (Text × Value)} {rest more : Text}
    (heq : printFields fields ++ 125 :: rest = printFields others ++ 125 :: more) :
    fields = others ∧ rest = more := by
  induction fields generalizing others with
  | nil =>
      cases others with
      | nil => exact ⟨rfl, by simpa [printFields] using heq⟩
      | cons other others => simp [printFields] at heq
  | cons entry fields ih =>
      cases others with
      | nil => simp [printFields] at heq
      | cons other others =>
          obtain ⟨key, value⟩ := entry
          obtain ⟨key', value'⟩ := other
          rw [printFields, printFields] at heq
          simp only [List.cons_append, List.cons.injEq, true_and, List.append_assoc] at heq
          obtain ⟨rfl, hvalue⟩ := quote_append_inj heq
          obtain ⟨rfl, htail⟩ := hall _ List.mem_cons_self value' _ _
            (follows_printFields fields rest) (follows_printFields others more)
            (List.cons.inj hvalue).2
          obtain ⟨rfl, hrest⟩ :=
            ih (fun later hlater => hall later (List.mem_cons_of_mem _ hlater)) htail
          exact ⟨rfl, hrest⟩

/-- **Texts.** The text of a value determines it. -/
theorem determines (value : Value) : Determines value := by
  induction value with
  | null =>
      intro other rest more _ _ heq
      have hshape := shape_eq heq
      obtain rfl : other = .null := by
        rcases other with _ | ⟨_ | _⟩ | _ | _ | _ | _ <;> first | rfl | cases hshape
      exact ⟨rfl, List.append_cancel_left heq⟩
  | bool value =>
      intro other rest more _ _ heq
      have hshape := shape_eq heq
      obtain rfl : other = .bool value := by
        cases value <;> rcases other with _ | ⟨_ | _⟩ | _ | _ | _ | _ <;>
          first | rfl | cases hshape
      exact ⟨rfl, List.append_cancel_left heq⟩
  | num number =>
      intro other rest more hrest hmore heq
      have hshape := shape_eq heq
      obtain ⟨second, rfl⟩ : ∃ second, other = .num second := by
        rcases other with _ | ⟨_ | _⟩ | _ | _ | _ | _ <;> first | exact ⟨_, rfl⟩ | cases hshape
      obtain ⟨rfl, htail⟩ := number_append_inj hrest hmore heq
      exact ⟨rfl, htail⟩
  | str text =>
      intro other rest more _ _ heq
      have hshape := shape_eq heq
      obtain ⟨second, rfl⟩ : ∃ second, other = .str second := by
        rcases other with _ | ⟨_ | _⟩ | _ | _ | _ | _ <;> first | exact ⟨_, rfl⟩ | cases hshape
      obtain ⟨rfl, htail⟩ := quote_append_inj heq
      exact ⟨rfl, htail⟩
  | arr elements ih =>
      intro other rest more _ _ heq
      have hshape := shape_eq heq
      obtain ⟨others, rfl⟩ : ∃ others, other = .arr others := by
        rcases other with _ | ⟨_ | _⟩ | _ | _ | _ | _ <;> first | exact ⟨_, rfl⟩ | cases hshape
      rcases elements with _ | ⟨element, elements⟩ <;> rcases others with _ | ⟨other, others⟩
      · exact ⟨rfl, by simpa [print] using heq⟩
      · have hclose : 93 :: rest = print other ++ (printElements others ++ [93] ++ more) := by
          simpa [print] using heq
        exact absurd hclose.symm (print_append_ne _ _ _)
      · have hclose : print element ++ (printElements elements ++ [93] ++ rest) = 93 :: more := by
          simpa [print] using heq
        exact absurd hclose (print_append_ne _ _ _)
      · -- A comma in front makes the first element one of those after the first.
        have helements : printElements (element :: elements) ++ 93 :: rest =
            printElements (other :: others) ++ 93 :: more := by
          simpa [print, printElements] using heq
        obtain ⟨hsame, htail⟩ := printElements_inj ih helements
        exact ⟨by rw [hsame], htail⟩
  | obj fields ih =>
      intro other rest more _ _ heq
      have hshape := shape_eq heq
      obtain ⟨others, rfl⟩ : ∃ others, other = .obj others := by
        rcases other with _ | ⟨_ | _⟩ | _ | _ | _ | _ <;> first | exact ⟨_, rfl⟩ | cases hshape
      rcases fields with _ | ⟨⟨key, value⟩, fields⟩ <;>
        rcases others with _ | ⟨⟨key', value'⟩, others⟩
      · exact ⟨rfl, by simpa [print] using heq⟩
      · simp [print, quote] at heq
      · simp [print, quote] at heq
      · have hfields : printFields ((key, value) :: fields) ++ 125 :: rest =
            printFields ((key', value') :: others) ++ 125 :: more := by
          simpa [print, printFields] using heq
        obtain ⟨hsame, htail⟩ := printFields_inj ih hfields
        exact ⟨by rw [hsame], htail⟩

/-- Two values with one text are one value. -/
theorem print_injective : Function.Injective print := by
  intro value other heq
  have hnil : Follows [] := fun u hu => by cases hu
  exact (determines value other [] [] hnil hnil (by rw [heq])).1

end Eveland.Js
