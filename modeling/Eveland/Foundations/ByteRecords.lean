/-
# Records of octets

A record is octets with numbers at positions of their own, the lower octets of a number first. A
number that was written is read back as long as no later one was written over it, and what no number
was written to is as it was.

A file holds a piece at a position. A piece that is two pieces is held as these, one after the other.
-/

import Mathlib.Algebra.GroupWithZero.Nat
import Mathlib.Tactic.Common

namespace ByteRecords

/-! ## Numbers -/

/-- The octets of a number, the lowest first. -/
def number : ℕ → ℕ → List UInt8
  | 0, _ => []
  | width + 1, n => UInt8.ofNat (n % 256) :: number width (n / 256)

/-- The number of octets, the lowest first. -/
def value : List UInt8 → ℕ
  | [] => 0
  | byte :: rest => byte.toNat + 256 * value rest

@[simp]
theorem length_number (width n : ℕ) : (number width n).length = width := by
  induction width generalizing n with
  | zero => rfl
  | succ width ih => rw [number, List.length_cons, ih]

/-- A number that has room is read back. -/
theorem value_number {width n : ℕ} (h : n < 256 ^ width) : value (number width n) = n := by
  induction width generalizing n with
  | zero =>
      rw [Nat.pow_zero] at h
      rw [number, value]
      omega
  | succ width ih =>
      have hrest : n / 256 < 256 ^ width := by
        rw [Nat.div_lt_iff_lt_mul (by decide), ← Nat.pow_succ]
        exact h
      have hbyte : (UInt8.ofNat (n % 256)).toNat = n % 256 :=
        UInt8.toNat_ofNat_of_lt' (Nat.mod_lt n (by decide))
      rw [number, value, ih hrest, hbyte]
      omega

theorem value_replicate_zero (width : ℕ) : value (List.replicate width 0) = 0 := by
  induction width with
  | zero => rfl
  | succ width ih => rw [List.replicate_succ, value, ih]; rfl

/-! ## Pieces -/

/-- The octets from a position on. -/
def piece (bytes : List UInt8) (position width : ℕ) : List UInt8 :=
  (bytes.drop position).take width

/-- A file has a piece at a position. -/
def Holds (file : List UInt8) (position : ℕ) (bytes : List UInt8) : Prop :=
  bytes <+: file.drop position

theorem holds_self (file : List UInt8) : Holds file 0 file := List.prefix_rfl

theorem holds_append_iff {file first second : List UInt8} {position : ℕ} :
    Holds file position (first ++ second) ↔
      Holds file position first ∧ Holds file (position + first.length) second := by
  unfold Holds
  constructor
  · rintro ⟨rest, hrest⟩
    refine ⟨⟨second ++ rest, by rw [← hrest, List.append_assoc]⟩, rest, ?_⟩
    rw [← List.drop_drop, ← hrest, List.append_assoc, List.drop_left]
  · rintro ⟨⟨after, hafter⟩, rest, hrest⟩
    refine ⟨rest, ?_⟩
    rw [← List.drop_drop, ← hafter, List.drop_left] at hrest
    rw [← hafter, ← hrest, List.append_assoc]

namespace Holds

variable {file bytes : List UInt8} {position : ℕ}

theorem piece_eq (h : Holds file position bytes) : piece file position bytes.length = bytes := by
  obtain ⟨rest, hrest⟩ := h
  rw [piece, ← hrest, List.take_left]

/-- What is held ends within the file. -/
theorem le_length (h : Holds file position bytes) (hpos : bytes ≠ []) :
    position + bytes.length ≤ file.length := by
  have hle := h.length_le
  rw [List.length_drop] at hle
  have hlength := List.length_pos_iff.mpr hpos
  omega

/-- A piece of what is held. -/
theorem piece_add (h : Holds file position bytes) {offset width : ℕ}
    (hle : offset + width ≤ bytes.length) :
    piece file (position + offset) width = piece bytes offset width := by
  obtain ⟨rest, hrest⟩ := h
  rw [piece, ← List.drop_drop, ← hrest, List.drop_append_of_le_length (by omega),
    List.take_append_of_le_length (by rw [List.length_drop]; omega)]
  rfl

end Holds

/-! ## Writing -/

/-- A number at a position of a record. -/
structure Field where
  width : ℕ
  number : ℕ
  position : ℕ

/-- A number is written if it has room, and its position is in the record. -/
def write (record : List UInt8) (field : Field) : Option (List UInt8) :=
  if field.number < 256 ^ field.width ∧ field.position + field.width ≤ record.length then
    some (record.take field.position ++ (number field.width field.number ++
      record.drop (field.position + field.width)))
  else none

def writeAll (record : List UInt8) (fields : List Field) : Option (List UInt8) :=
  fields.foldlM write record

/-- Two stretches of a record have no octet in common. -/
def Apart (position width : ℕ) (field : Field) : Prop :=
  position + width ≤ field.position ∨ field.position + field.width ≤ position

instance (position width : ℕ) (field : Field) : Decidable (Apart position width field) :=
  inferInstanceAs (Decidable (_ ∨ _))

theorem length_write {record written : List UInt8} {field : Field}
    (h : write record field = some written) : written.length = record.length := by
  rw [write] at h
  split_ifs at h with hroom
  cases h
  simp only [List.length_append, List.length_take, List.length_drop, length_number]
  omega

theorem length_writeAll {record written : List UInt8} {fields : List Field}
    (h : writeAll record fields = some written) : written.length = record.length := by
  induction fields generalizing record with
  | nil =>
      cases h
      rfl
  | cons field rest ih =>
      obtain ⟨next, hnext, hrest⟩ := Option.bind_eq_some_iff.mp h
      rw [ih hrest, length_write hnext]

/-- What is written is read. -/
theorem value_write {record written : List UInt8} {field : Field}
    (h : write record field = some written) :
    value (piece written field.position field.width) = field.number := by
  rw [write] at h
  split_ifs at h with hroom
  cases h
  have htake : (record.take field.position).length = field.position := by
    rw [List.length_take]
    omega
  have hdrop : (record.take field.position ++ (number field.width field.number ++
      record.drop (field.position + field.width))).drop field.position =
        number field.width field.number ++ record.drop (field.position + field.width) := by
    rw [List.drop_append_of_le_length (by omega), List.drop_of_length_le (by omega),
      List.nil_append]
  have hwritten := value_number hroom.1
  have hnumber := length_number field.width field.number
  rw [piece, hdrop, List.take_append_of_le_length (by omega), List.take_of_length_le (by omega),
    hwritten]

/-- A stretch apart from what is written is left as it was. -/
theorem piece_write {record written : List UInt8} {field : Field} {position width : ℕ}
    (h : write record field = some written) (hapart : Apart position width field) :
    piece written position width = piece record position width := by
  rw [write] at h
  split_ifs at h with hroom
  cases h
  apply List.ext_getElem?
  intro i
  rw [piece, piece, List.getElem?_take, List.getElem?_take]
  split_ifs with hi
  · rw [List.getElem?_drop, List.getElem?_drop]
    rcases hapart with hbefore | hafter
    · rw [List.getElem?_append_left (by rw [List.length_take]; omega), List.getElem?_take,
        if_pos (by omega)]
    · rw [List.getElem?_append_right (by rw [List.length_take]; omega),
        List.getElem?_append_right (by rw [List.length_take, length_number]; omega),
        List.getElem?_drop, List.length_take, length_number]
      congr 1
      omega
  · rfl

/-- What no number is written to is left as it was. -/
theorem piece_writeAll {record written : List UInt8} {fields : List Field} {position width : ℕ}
    (h : writeAll record fields = some written)
    (hapart : ∀ field ∈ fields, Apart position width field) :
    piece written position width = piece record position width := by
  induction fields generalizing record with
  | nil =>
      cases h
      rfl
  | cons field rest ih =>
      obtain ⟨next, hnext, hrest⟩ := Option.bind_eq_some_iff.mp h
      rw [ih hrest fun later hlater => hapart later (List.mem_cons_of_mem _ hlater),
        piece_write hnext (hapart field List.mem_cons_self)]

/-- A number is read back if none was written over it. -/
theorem value_writeAll {record written : List UInt8} {fields : List Field}
    (h : writeAll record fields = some written)
    (hapart : fields.Pairwise fun field later => Apart field.position field.width later) :
    ∀ field ∈ fields, value (piece written field.position field.width) = field.number := by
  induction fields generalizing record with
  | nil =>
      intro field hfield
      cases hfield
  | cons first rest ih =>
      rw [List.pairwise_cons] at hapart
      obtain ⟨next, hnext, hrest⟩ := Option.bind_eq_some_iff.mp h
      intro field hfield
      cases hfield with
      | head => rw [piece_writeAll hrest hapart.1, value_write hnext]
      | tail _ hlater => exact ih hrest hapart.2 field hlater

end ByteRecords
