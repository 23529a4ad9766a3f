import Mathlib.Algebra.Group.Nat.Defs
import Mathlib.Tactic.SplitIfs
import DocumentBase.Number.Double

/-!
# Integers as doubles

An integer of 64 bits becomes a finite double, so it is never a NaN.
-/

namespace DocumentBase.Double

/-- Rounding takes at most one step above the quotient. -/
theorem roundShift_le (n shift : Nat) : roundShift n shift ≤ n / 2 ^ shift + 1 := by
  have hunit : 1 <<< shift = 2 ^ shift := by
    rw [Nat.shiftLeft_eq, Nat.one_mul]
  simp only [roundShift, hunit]
  split_ifs
  · omega
  · omega
  · have hmod := Nat.mod_lt (n / 2 ^ shift) Nat.zero_lt_two
    omega

/-- A rounded significand has 53 bits, or is the power of two after them. -/
theorem bitsOfNat_le {n : Nat} (h : n < 2 ^ 64) : bitsOfNat n ≤ 1087 * hiddenBit := by
  rw [bitsOfNat]
  split_ifs with hzero
  · exact Nat.zero_le _
  · have htop : n.log2 < 64 := (Nat.log2_lt hzero).mpr h
    have hlog : n < 2 ^ (n.log2 + 1) := Nat.lt_log2_self
    have hsignificand : (if n.log2 ≤ 52 then n <<< (52 - n.log2)
        else roundShift n (n.log2 - 52)) ≤ 2 ^ 53 := by
      split_ifs with hsmall
      · have hpow : 2 ^ (n.log2 + 1) * 2 ^ (52 - n.log2) = 2 ^ 53 := by
          rw [← Nat.pow_add]
          congr 1
          omega
        rw [Nat.shiftLeft_eq, ← hpow]
        exact Nat.mul_le_mul_right _ (Nat.le_of_lt hlog)
      · have hpow : 2 ^ (n.log2 + 1) = 2 ^ 53 * 2 ^ (n.log2 - 52) := by
          rw [← Nat.pow_add]
          congr 1
          omega
        have hquotient : n / 2 ^ (n.log2 - 52) < 2 ^ 53 := by
          rw [Nat.div_lt_iff_lt_mul (Nat.two_pow_pos _), ← hpow]
          exact hlog
        have hround := roundShift_le n (n.log2 - 52)
        omega
    have hbits : hiddenBit = 4503599627370496 := rfl
    simp only [hbits]
    omega

/-- A number of 64 bits is below the infinities. -/
theorem bitsOfNat_lt {n : Nat} (h : n < 2 ^ 64) : bitsOfNat n < infiniteMagnitude :=
  Nat.lt_of_le_of_lt (bitsOfNat_le h) (by decide)

/-! ### The parts of an integer -/

variable {n : Int}

/-- The bits of an integer are those of its absolute value, with the sign in front. -/
theorem toNat_bits_ofInt (h : n.natAbs < 2 ^ 64) :
    (ofInt n).bits.toNat = (if n < 0 then signBit else 0) + bitsOfNat n.natAbs := by
  have hbits := bitsOfNat_lt h
  have hinfinite : infiniteMagnitude = 9218868437227405312 := rfl
  have hsign : signBit = 9223372036854775808 := rfl
  rw [ofInt, UInt64.toNat_ofNat']
  apply Nat.mod_eq_of_lt
  split_ifs <;> omega

theorem magnitude_ofInt (h : n.natAbs < 2 ^ 64) :
    (ofInt n).magnitude = bitsOfNat n.natAbs := by
  have hbits : bitsOfNat n.natAbs < signBit := Nat.lt_trans (bitsOfNat_lt h) (by decide)
  rw [magnitude, toNat_bits_ofInt h]
  split_ifs
  · rw [Nat.add_mod_left, Nat.mod_eq_of_lt hbits]
  · rw [Nat.zero_add, Nat.mod_eq_of_lt hbits]

theorem isNegative_ofInt (h : n.natAbs < 2 ^ 64) : (ofInt n).isNegative = decide (n < 0) := by
  have hbits : bitsOfNat n.natAbs < signBit := Nat.lt_trans (bitsOfNat_lt h) (by decide)
  rw [isNegative, toNat_bits_ofInt h, decide_eq_decide]
  split_ifs <;> omega

theorem isFinite_ofInt (h : n.natAbs < 2 ^ 64) : (ofInt n).isFinite = true := by
  rw [isFinite, magnitude_ofInt h, decide_eq_true_eq]
  exact bitsOfNat_lt h

theorem isNaN_ofInt (h : n.natAbs < 2 ^ 64) : (ofInt n).isNaN = false := by
  rw [isNaN, magnitude_ofInt h, decide_eq_false_iff_not]
  exact Nat.lt_asymm (bitsOfNat_lt h)

end DocumentBase.Double
