/-
# Octets in groups of six bits

Three octets are four sextets. One or two octets left over are two or three sextets, the last of
them filled up with zero bits, which a reader drops.
-/

import Mathlib.Data.Nat.Notation
import Mathlib.Tactic.Common

namespace Base64

/-- The sextets of octets. -/
def sextets : List UInt8 → List ℕ
  | a :: b :: c :: rest =>
      a.toNat / 4 :: (a.toNat % 4 * 16 + b.toNat / 16) ::
        (b.toNat % 16 * 4 + c.toNat / 64) :: c.toNat % 64 :: sextets rest
  | [a, b] => [a.toNat / 4, a.toNat % 4 * 16 + b.toNat / 16, b.toNat % 16 * 4]
  | [a] => [a.toNat / 4, a.toNat % 4 * 16]
  | [] => []

/-- The octets of sextets. Bits that fill up no octet are dropped. -/
def octets : List ℕ → List UInt8
  | p :: q :: r :: s :: rest =>
      UInt8.ofNat (p * 4 + q / 16) :: UInt8.ofNat (q % 16 * 16 + r / 4) ::
        UInt8.ofNat (r % 4 * 64 + s) :: octets rest
  | [p, q, r] => [UInt8.ofNat (p * 4 + q / 16), UInt8.ofNat (q % 16 * 16 + r / 4)]
  | [p, q] => [UInt8.ofNat (p * 4 + q / 16)]
  | _ => []

theorem ofNat_eq {n : ℕ} {u : UInt8} (h : n = u.toNat) : UInt8.ofNat n = u := by
  rw [h, UInt8.ofNat_toNat]

/-- What is grouped is read back. -/
theorem octets_sextets (bytes : List UInt8) : octets (sextets bytes) = bytes := by
  induction bytes using sextets.induct with
  | case1 a b c rest ih =>
      have ha := a.toNat_lt
      have hb := b.toNat_lt
      have hc := c.toNat_lt
      rw [sextets, octets, ih, ofNat_eq (u := a) (by omega), ofNat_eq (u := b) (by omega),
        ofNat_eq (u := c) (by omega)]
  | case2 a b =>
      have ha := a.toNat_lt
      have hb := b.toNat_lt
      rw [sextets, octets, ofNat_eq (u := a) (by omega), ofNat_eq (u := b) (by omega)]
  | case3 a =>
      have ha := a.toNat_lt
      rw [sextets, octets, ofNat_eq (u := a) (by omega)]
  | case4 => rfl

theorem sextets_lt (bytes : List UInt8) : ∀ n ∈ sextets bytes, n < 64 := by
  induction bytes using sextets.induct with
  | case1 a b c rest ih =>
      have ha := a.toNat_lt
      have hb := b.toNat_lt
      have hc := c.toNat_lt
      intro n hn
      rw [sextets] at hn
      simp only [List.mem_cons] at hn
      rcases hn with rfl | rfl | rfl | rfl | hn
      · omega
      · omega
      · omega
      · omega
      · exact ih n hn
  | case2 a b =>
      have ha := a.toNat_lt
      have hb := b.toNat_lt
      intro n hn
      rw [sextets] at hn
      simp only [List.mem_cons, List.not_mem_nil, or_false] at hn
      omega
  | case3 a =>
      have ha := a.toNat_lt
      intro n hn
      rw [sextets] at hn
      simp only [List.mem_cons, List.not_mem_nil, or_false] at hn
      omega
  | case4 =>
      intro n hn
      cases hn

/-- One sextet is never left over. -/
theorem length_sextets_mod (bytes : List UInt8) : (sextets bytes).length % 4 ≠ 1 := by
  induction bytes using sextets.induct with
  | case1 a b c rest ih =>
      rw [sextets]
      simp only [List.length_cons]
      omega
  | case2 a b => simp [sextets]
  | case3 a => simp [sextets]
  | case4 => simp [sextets]

end Base64
