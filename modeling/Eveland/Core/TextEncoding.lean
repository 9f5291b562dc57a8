/-
# Strings as octets

`TextEncoder` and `TextDecoder`: a string's surrogate pairs are single scalar values, a half of a
pair on its own becomes the replacement character, and scalar values are written in UTF-8. The
decoder is the fatal one, and drops a byte order mark at the start.

What `JSON.stringify` prints has no half of a pair on its own, so that it is decoded from its
octets.
-/

import Eveland.Core.Stringify

namespace Eveland.Js

/-! ## Scalar values -/

/-- A code unit that is a half of a surrogate pair. -/
def isSurrogate (u : UInt16) : Bool := isLeadSurrogate u || isTrailSurrogate u

/-- The scalar value of a code unit that is in no pair. -/
def charOf (u : UInt16) : Char :=
  if isSurrogate u then Char.ofNat 0xFFFD else Char.ofNat u.toNat

/-- The scalar value of a surrogate pair. -/
def pairOf (lead trail : UInt16) : Char :=
  Char.ofNat (0x10000 + (lead.toNat - 0xD800) * 0x400 + (trail.toNat - 0xDC00))

/-- The scalar values of a string. -/
def scalars : Text → List Char
  | [] => []
  | [u] => [charOf u]
  | u :: v :: rest =>
      if isLeadSurrogate u && isTrailSurrogate v then pairOf u v :: scalars rest
      else charOf u :: scalars (v :: rest)

/-- The code units of a scalar value. -/
def unitsOf (c : Char) : Text :=
  if c.toNat < 0x10000 then [UInt16.ofNat c.toNat]
  else
    [UInt16.ofNat (0xD800 + (c.toNat - 0x10000) / 0x400),
      UInt16.ofNat (0xDC00 + (c.toNat - 0x10000) % 0x400)]

/-! ## Octets -/

/-- `new TextEncoder().encode`. -/
def encodeUtf8 (text : Text) : List UInt8 := (scalars text).flatMap String.utf8EncodeChar

/-- What follows a byte order mark. -/
def dropMark : List Char → List Char
  | [] => []
  | c :: rest => if c.toNat = 0xFEFF then rest else c :: rest

/-- `new TextDecoder("utf-8", { fatal: true }).decode`. -/
def decodeUtf8 (bytes : List UInt8) : Option Text :=
  bytes.toByteArray.utf8Decode?.map fun chars => (dropMark chars.toList).flatMap unitsOf

/-! ## Strings of whole pairs -/

/-- A string in which every half of a surrogate pair is in a pair. -/
inductive Paired : Text → Prop
  | nil : Paired []
  | unit {u : UInt16} {rest : Text} (hu : isSurrogate u = false) (hrest : Paired rest) :
      Paired (u :: rest)
  | pair {lead trail : UInt16} {rest : Text} (hlead : isLeadSurrogate lead = true)
      (htrail : isTrailSurrogate trail = true) (hrest : Paired rest) :
      Paired (lead :: trail :: rest)

theorem isLeadSurrogate_of_isSurrogate {u : UInt16} (h : isSurrogate u = false) :
    isLeadSurrogate u = false := by
  rw [isSurrogate, Bool.or_eq_false_iff] at h
  exact h.1

theorem toNat_ofNat {n : ℕ} (h : n.isValidChar) : (Char.ofNat n).toNat = n := by
  rw [Char.ofNat, dif_pos h]
  rfl

theorem toNat_charOf {u : UInt16} (hu : isSurrogate u = false) : (charOf u).toNat = u.toNat := by
  have hlt : u.toNat < 65536 := u.toNat_lt
  have hvalid : u.toNat.isValidChar := by
    simp only [isSurrogate, isLeadSurrogate, isTrailSurrogate, Bool.or_eq_false_iff,
      Bool.and_eq_false_iff, decide_eq_false_iff_not, UInt16.le_iff_toNat_le] at hu
    have h1 : (0xD800 : UInt16).toNat = 0xD800 := rfl
    have h2 : (0xDBFF : UInt16).toNat = 0xDBFF := rfl
    have h3 : (0xDC00 : UInt16).toNat = 0xDC00 := rfl
    have h4 : (0xDFFF : UInt16).toNat = 0xDFFF := rfl
    simp only [Nat.isValidChar]
    omega
  rw [charOf, if_neg (by simp [hu]), toNat_ofNat hvalid]

/-- A code unit in no pair is the code unit of its scalar value. -/
theorem unitsOf_charOf {u : UInt16} (hu : isSurrogate u = false) : unitsOf (charOf u) = [u] := by
  have hlt : u.toNat < 65536 := u.toNat_lt
  rw [unitsOf, toNat_charOf hu, if_pos hlt, UInt16.ofNat_toNat]

/-- A pair is a scalar value outside the basic plane, and is its code units. -/
theorem pairOf_spec {lead trail : UInt16} (hlead : isLeadSurrogate lead = true)
    (htrail : isTrailSurrogate trail = true) :
    0x10000 ≤ (pairOf lead trail).toNat ∧ unitsOf (pairOf lead trail) = [lead, trail] := by
  simp only [isLeadSurrogate, isTrailSurrogate, Bool.and_eq_true, decide_eq_true_eq,
    UInt16.le_iff_toNat_le] at hlead htrail
  have h1 : (0xD800 : UInt16).toNat = 0xD800 := rfl
  have h2 : (0xDBFF : UInt16).toNat = 0xDBFF := rfl
  have h3 : (0xDC00 : UInt16).toNat = 0xDC00 := rfl
  have h4 : (0xDFFF : UInt16).toNat = 0xDFFF := rfl
  rw [h1, h2] at hlead
  rw [h3, h4] at htrail
  have hchar : (pairOf lead trail).toNat =
      0x10000 + (lead.toNat - 0xD800) * 0x400 + (trail.toNat - 0xDC00) := by
    rw [pairOf, toNat_ofNat]
    simp only [Nat.isValidChar]
    omega
  have hfirst : 0xD800 + ((pairOf lead trail).toNat - 0x10000) / 0x400 = lead.toNat := by omega
  have hsecond : 0xDC00 + ((pairOf lead trail).toNat - 0x10000) % 0x400 = trail.toNat := by omega
  refine ⟨by omega, ?_⟩
  rw [unitsOf, if_neg (by omega), hfirst, hsecond, UInt16.ofNat_toNat, UInt16.ofNat_toNat]

theorem scalars_unit {u : UInt16} (hu : isSurrogate u = false) (rest : Text) :
    scalars (u :: rest) = charOf u :: scalars rest := by
  cases rest with
  | nil => rfl
  | cons v rest => rw [scalars, if_neg (by simp [isLeadSurrogate_of_isSurrogate hu])]

theorem scalars_pair {lead trail : UInt16} (hlead : isLeadSurrogate lead = true)
    (htrail : isTrailSurrogate trail = true) (rest : Text) :
    scalars (lead :: trail :: rest) = pairOf lead trail :: scalars rest := by
  rw [scalars, if_pos (by simp [hlead, htrail])]

/-- The scalar values of a string of whole pairs have its code units. -/
theorem Paired.flatMap_scalars {text : Text} (h : Paired text) :
    (scalars text).flatMap unitsOf = text := by
  induction h with
  | nil => rfl
  | unit hu _ ih => rw [scalars_unit hu, List.flatMap_cons, unitsOf_charOf hu, ih]; rfl
  | pair hlead htrail _ ih =>
      rw [scalars_pair hlead htrail, List.flatMap_cons, (pairOf_spec hlead htrail).2, ih]
      rfl

/-- Its first scalar value is a byte order mark only where its first code unit is. -/
theorem Paired.dropMark_scalars {text : Text} (h : Paired text) (hmark : text.head? ≠ some 0xFEFF) :
    dropMark (scalars text) = scalars text := by
  cases h with
  | nil => rfl
  | @unit u rest hu _ =>
      have hne : u.toNat ≠ 0xFEFF := by
        intro heq
        apply hmark
        rw [List.head?_cons, ← UInt16.ofNat_toNat (x := u), heq]
        rfl
      rw [scalars_unit hu, dropMark, if_neg (by rw [toNat_charOf hu]; exact hne)]
  | pair hlead htrail _ =>
      have hle := (pairOf_spec hlead htrail).1
      rw [scalars_pair hlead htrail, dropMark, if_neg (by omega)]

/-- **Decoding.** A string of whole pairs that starts with no byte order mark is decoded from its
octets. -/
theorem decodeUtf8_encodeUtf8 {text : Text} (h : Paired text) (hmark : text.head? ≠ some 0xFEFF) :
    decodeUtf8 (encodeUtf8 text) = some text := by
  have hchars : (encodeUtf8 text).toByteArray.utf8Decode? = some (scalars text).toArray :=
    List.utf8Decode?_utf8Encode
  rw [decodeUtf8, hchars, Option.map_some, List.toList_toArray, h.dropMark_scalars hmark,
    h.flatMap_scalars]

/-! ## What is printed -/

namespace Paired

theorem append {first second : Text} (hfirst : Paired first) (hsecond : Paired second) :
    Paired (first ++ second) := by
  induction hfirst with
  | nil => exact hsecond
  | unit hu _ ih => exact .unit hu ih
  | pair hlead htrail _ ih => exact .pair hlead htrail ih

/-- A string without surrogates. -/
theorem ofUnits {text : Text} (h : (text.all fun u => !isSurrogate u) = true) : Paired text := by
  induction text with
  | nil => exact .nil
  | cons u rest ih =>
      rw [List.all_cons, Bool.and_eq_true, Bool.not_eq_true'] at h
      exact .unit h.1 (ih h.2)

theorem isSurrogate_hexDigit : ∀ n < 16, isSurrogate (hexDigit n) = false := by
  decide

/-- An escape has no surrogates, and a code unit that needs none is none. -/
theorem escapeUnit (u : UInt16) : Paired (Js.escapeUnit u) := by
  rw [Js.escapeUnit]
  split_ifs with h8 h9 h10 h12 h13 h34 h92 hcode
  · exact ofUnits (by decide)
  · exact ofUnits (by decide)
  · exact ofUnits (by decide)
  · exact ofUnits (by decide)
  · exact ofUnits (by decide)
  · exact ofUnits (by decide)
  · exact ofUnits (by decide)
  · have hu : u.toNat < 65536 := u.toNat_lt
    apply ofUnits
    simp only [unicodeEscape, List.all_cons, List.all_nil, Bool.and_eq_true,
      isSurrogate_hexDigit (u.toNat / 4096) (by omega),
      isSurrogate_hexDigit (u.toNat / 256 % 16) (by omega),
      isSurrogate_hexDigit (u.toNat / 16 % 16) (by omega),
      isSurrogate_hexDigit (u.toNat % 16) (by omega)]
    decide
  · simp only [not_or, Bool.not_eq_true] at hcode
    refine .unit ?_ .nil
    rw [isSurrogate, Bool.or_eq_false_iff]
    exact hcode.2

theorem escape (text : Text) : Paired (Js.escape text) := by
  induction text using Js.escape.induct with
  | case1 => exact .nil
  | case2 u => exact escapeUnit u
  | case3 u v text hpair ih =>
      rw [Bool.and_eq_true] at hpair
      rw [Js.escape, if_pos (by rw [Bool.and_eq_true]; exact hpair)]
      exact .pair hpair.1 hpair.2 ih
  | case4 u v text hpair ih =>
      rw [Js.escape, if_neg hpair]
      exact (escapeUnit u).append ih

theorem quote (text : Text) : Paired (Js.quote text) :=
  .unit (by decide) ((escape text).append (ofUnits (by decide)))

theorem isSurrogate_of_isNumberUnit {u : UInt16} (hu : isNumberUnit u = true) :
    isSurrogate u = false := by
  simp only [isNumberUnit, Bool.or_eq_true, Bool.and_eq_true, decide_eq_true_eq,
    UInt16.le_iff_toNat_le] at hu
  rcases hu with (((hu | rfl) | rfl) | rfl) | rfl
  · simp only [isSurrogate, isLeadSurrogate, isTrailSurrogate, Bool.or_eq_false_iff,
      Bool.and_eq_false_iff, decide_eq_false_iff_not, UInt16.le_iff_toNat_le]
    have h1 : (0xD800 : UInt16).toNat = 0xD800 := rfl
    have h2 : (0xDC00 : UInt16).toNat = 0xDC00 := rfl
    have h3 : (57 : UInt16).toNat = 57 := rfl
    omega
  · decide
  · decide
  · decide
  · decide

theorem elements {values : List Value} (h : ∀ value ∈ values, Paired (print value)) :
    Paired (printElements values) := by
  induction values with
  | nil => exact .nil
  | cons value rest ih =>
      refine .unit (by decide) ((h value List.mem_cons_self).append (ih ?_))
      exact fun later hlater => h later (List.mem_cons_of_mem _ hlater)

theorem fields {entries : List (Text × Value)} (h : ∀ entry ∈ entries, Paired (print entry.2)) :
    Paired (printFields entries) := by
  induction entries with
  | nil => exact .nil
  | cons entry rest ih =>
      have hfirst : Paired (print entry.2) := h entry List.mem_cons_self
      refine .unit (by decide) ((quote entry.1).append (.unit (by decide) (hfirst.append (ih ?_))))
      exact fun later hlater => h later (List.mem_cons_of_mem _ hlater)

/-- **Printing.** What is printed has no half of a surrogate pair on its own. -/
theorem print (value : Value) : Paired (Js.print value) := by
  induction value with
  | null => exact ofUnits (by decide)
  | bool value =>
      cases value
      · exact ofUnits (by decide)
      · exact ofUnits (by decide)
  | num number =>
      apply ofUnits
      rw [List.all_eq_true]
      intro u hu
      rw [isSurrogate_of_isNumberUnit (number.number u hu)]
      rfl
  | str text => exact quote text
  | arr values ih =>
      cases values with
      | nil => exact ofUnits (by decide)
      | cons value rest =>
          have hrest := elements fun later hlater => ih later (List.mem_cons_of_mem _ hlater)
          exact .unit (by decide)
            ((ih value List.mem_cons_self).append (hrest.append (ofUnits (by decide))))
  | obj entries ih =>
      rcases entries with _ | ⟨⟨key, value⟩, rest⟩
      · exact ofUnits (by decide)
      · have hrest := fields fun later hlater => ih later (List.mem_cons_of_mem _ hlater)
        have hvalue : Paired (Js.print value) := ih (key, value) List.mem_cons_self
        exact .unit (by decide) ((quote key).append
          (.unit (by decide) (hvalue.append (hrest.append (ofUnits (by decide))))))

end Paired

end Eveland.Js
