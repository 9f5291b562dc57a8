/-
# Cyclic redundancy checks

A reflected check of 32 bits: each bit that leaves the register adds the polynomial. Eight bits at a
time, what the low octet of the register adds is looked up in a table.
-/

import Mathlib.Logic.Function.Iterate

namespace Crc

variable (polynomial : UInt32)

/-- One bit leaves the register. -/
def shift (c : UInt32) : UInt32 :=
  if c &&& 1 ≠ 0 then polynomial ^^^ (c >>> 1) else c >>> 1

/-- The register after an octet, bit by bit. -/
def absorb (c : UInt32) (byte : UInt8) : UInt32 := (shift polynomial)^[8] (c ^^^ byte.toUInt32)

/-- The check of octets. -/
def checksum (bytes : List UInt8) : UInt32 :=
  bytes.foldl (absorb polynomial) 0xFFFFFFFF ^^^ 0xFFFFFFFF

/-- What the low octet of the register adds. -/
def entry (n : UInt32) : UInt32 := (shift polynomial)^[8] n

theorem and_one_eq_zero_iff (c : UInt32) : c &&& 1 = 0 ↔ c.toBitVec.getLsbD 0 = false := by
  rw [← UInt32.toBitVec_inj, UInt32.toBitVec_and]
  constructor
  · intro h
    have hbit := congrArg (fun x : BitVec 32 => x.getLsbD 0) h
    simpa using hbit
  · intro h
    apply BitVec.eq_of_getLsbD_eq
    intro i hi
    cases i with
    | zero =>
        rw [BitVec.getLsbD_and, h]
        rfl
    | succ i => simp [BitVec.getLsbD_one]

theorem shift_of_even {c : UInt32} (h : c.toBitVec.getLsbD 0 = false) :
    shift polynomial c = c >>> 1 := by
  rw [shift, if_neg (by rw [not_not, and_one_eq_zero_iff]; exact h)]

theorem shift_of_odd {c : UInt32} (h : c.toBitVec.getLsbD 0 = true) :
    shift polynomial c = polynomial ^^^ (c >>> 1) := by
  rw [shift, if_pos]
  rw [ne_eq, and_one_eq_zero_iff, h]
  decide

/-- The register is linear. -/
theorem shift_xor (a b : UInt32) :
    shift polynomial (a ^^^ b) = shift polynomial a ^^^ shift polynomial b := by
  have hbit : (a ^^^ b).toBitVec.getLsbD 0 =
      (a.toBitVec.getLsbD 0 ^^ b.toBitVec.getLsbD 0) := by
    rw [UInt32.toBitVec_xor, BitVec.getLsbD_xor]
  cases ha : a.toBitVec.getLsbD 0 with
  | false =>
      cases hb : b.toBitVec.getLsbD 0 with
      | false =>
          rw [ha, hb] at hbit
          rw [shift_of_even _ hbit, shift_of_even _ ha, shift_of_even _ hb, UInt32.shiftRight_xor]
      | true =>
          rw [ha, hb] at hbit
          rw [shift_of_odd _ hbit, shift_of_even _ ha, shift_of_odd _ hb, UInt32.shiftRight_xor,
            ← UInt32.xor_assoc, ← UInt32.xor_assoc, UInt32.xor_comm polynomial]
  | true =>
      cases hb : b.toBitVec.getLsbD 0 with
      | false =>
          rw [ha, hb] at hbit
          rw [shift_of_odd _ hbit, shift_of_odd _ ha, shift_of_even _ hb, UInt32.shiftRight_xor,
            UInt32.xor_assoc]
      | true =>
          rw [ha, hb] at hbit
          rw [shift_of_even _ hbit, shift_of_odd _ ha, shift_of_odd _ hb, UInt32.shiftRight_xor,
            UInt32.xor_comm polynomial (a >>> 1), UInt32.xor_assoc,
            ← UInt32.xor_assoc polynomial polynomial, UInt32.xor_self, UInt32.zero_xor]

theorem iterate_shift_xor (n : ℕ) (a b : UInt32) :
    (shift polynomial)^[n] (a ^^^ b) =
      (shift polynomial)^[n] a ^^^ (shift polynomial)^[n] b := by
  induction n generalizing a b with
  | zero => rfl
  | succ n ih => rw [Function.iterate_succ_apply, shift_xor, ih]; rfl

/-- Bits that are zero leave the register one by one, and add nothing. -/
theorem iterate_shift_of_zeros {c : UInt32} {n : ℕ} (h : ∀ i < n, c.toBitVec.getLsbD i = false) :
    ((shift polynomial)^[n] c).toBitVec = c.toBitVec >>> n := by
  induction n with
  | zero => rfl
  | succ n ih =>
      have hprev := ih fun i hi => h i (by omega)
      have hbit : ((shift polynomial)^[n] c).toBitVec.getLsbD 0 = false := by
        rw [hprev, BitVec.getLsbD_ushiftRight]
        exact h n (by omega)
      rw [Function.iterate_succ_apply', shift_of_even _ hbit, UInt32.toBitVec_shiftRight, hprev]
      exact (BitVec.shiftRight_add c.toBitVec n 1).symm

theorem getLsbD_octet : ∀ i < 32, (0xFF : UInt32).toBitVec.getLsbD i = decide (i < 8) := by
  decide

/-- **Table.** The register after eight bits is what its low octet adds to the rest. -/
theorem iterate_shift_eq (c : UInt32) :
    (shift polynomial)^[8] c = entry polynomial (c &&& 0xFF) ^^^ (c >>> 8) := by
  have hbits : ∀ i < 32, (c ^^^ (c &&& 0xFF)).toBitVec.getLsbD i =
      (c.toBitVec.getLsbD i ^^ (c.toBitVec.getLsbD i && decide (i < 8))) := by
    intro i hi
    rw [UInt32.toBitVec_xor, UInt32.toBitVec_and, BitVec.getLsbD_xor, BitVec.getLsbD_and,
      getLsbD_octet i hi]
  have hrest : (shift polynomial)^[8] (c ^^^ (c &&& 0xFF)) = c >>> 8 := by
    rw [← UInt32.toBitVec_inj, iterate_shift_of_zeros, UInt32.toBitVec_shiftRight]
    · apply BitVec.eq_of_getLsbD_eq
      intro i hi
      change _ = (c.toBitVec >>> 8).getLsbD i
      rw [BitVec.getLsbD_ushiftRight, BitVec.getLsbD_ushiftRight]
      by_cases hin : 8 + i < 32
      · rw [hbits _ hin, decide_eq_false (by omega), Bool.and_false, Bool.xor_false]
      · rw [BitVec.getLsbD_of_ge _ _ (by omega), BitVec.getLsbD_of_ge _ _ (by omega)]
    · intro i hi
      rw [hbits i (by omega), decide_eq_true hi, Bool.and_true, Bool.xor_self]
  have hsplit : c = (c &&& 0xFF) ^^^ (c ^^^ (c &&& 0xFF)) := by
    rw [UInt32.xor_comm c, ← UInt32.xor_assoc, UInt32.xor_self, UInt32.zero_xor]
  calc (shift polynomial)^[8] c
      = (shift polynomial)^[8] ((c &&& 0xFF) ^^^ (c ^^^ (c &&& 0xFF))) := by rw [← hsplit]
    _ = entry polynomial (c &&& 0xFF) ^^^ (c >>> 8) := by
        rw [iterate_shift_xor, hrest, entry]

end Crc
