import Mathlib.Algebra.Group.Int.Defs
import DocumentBase.Proofs.Number.Double

/-!
# Exact amounts

Every finite double is a whole number of the smallest positive doubles, so exact amounts of
doubles and integers can be compared without fractions.  Doubles that compare as equal have
equal amounts.  An integer has the amount of the double that it is compared as if 53 binary
digits are enough for it; beyond, neighbouring integers share a double.
-/

namespace DocumentBase

/-- The smallest positive double is two to the power of minus this. -/
def Double.unitExponent : Nat :=
  1074

/-- The exact amount of a number.  Finite amounts are counted in smallest positive doubles. -/
inductive Amount where
  | finite (units : Int)
  | infinite (negative : Bool)
deriving DecidableEq, Repr

namespace Amount

def ofInt (n : Int) : Amount :=
  .finite (n * 2 ^ Double.unitExponent)

theorem ofInt_inj {m n : Int} : ofInt m = ofInt n ↔ m = n := by
  have hunit : (2 : Int) ^ Double.unitExponent ≠ 0 := Int.pow_ne_zero (by decide)
  rw [ofInt, ofInt, finite.injEq, Int.mul_eq_mul_right_iff hunit]

end Amount

namespace Double

/-- The absolute value of a finite double, in units. -/
def units (x : Double) : Nat :=
  x.significand * 2 ^ (x.exponent + unitExponent).toNat

/-- The amount of a double.  A NaN has none. -/
def amount? (x : Double) : Option Amount :=
  if x.isNaN then none
  else if x.isFinite then some (.finite (if x.isNegative then -(x.units : Int) else x.units))
  else some (.infinite x.isNegative)

/-! ### Equal doubles -/

theorem isSome_amount? {x : Double} (h : x.isNaN = false) : x.amount?.isSome = true := by
  rw [amount?, h]
  cases x.isFinite <;> rfl

/-- Doubles of one place have the same bits, or they are the two zeros. -/
theorem place_eq_iff (x y : Double) :
    x.place = y.place ↔ x.magnitude = y.magnitude ∧
      (x.isNegative = y.isNegative ∨ x.magnitude = 0) := by
  simp only [place]
  cases x.isNegative <;> cases y.isNegative <;> simp <;> omega

/-- The two zeros have one amount. -/
theorem amount?_of_zero {x : Double} (h : x.magnitude = 0) : x.amount? = some (.finite 0) := by
  have hnan : x.isNaN = false := by
    rw [isNaN, h]
    rfl
  have hfinite : x.isFinite = true := by
    rw [isFinite, h]
    rfl
  have hunits : x.units = 0 := by
    simp [units, significand, h]
  simp [amount?, hnan, hfinite, hunits]

/-- Doubles that are the same have one amount. -/
theorem amount?_of_same {x y : Double} (h : x.same y = true) :
    ∃ amount, x.amount? = some amount ∧ y.amount? = some amount := by
  simp only [same, Bool.and_eq_true, Bool.not_eq_true', beq_iff_eq] at h
  obtain ⟨⟨hx, -⟩, hplace⟩ := h
  obtain ⟨hmagnitude, hsign⟩ := (place_eq_iff x y).mp hplace
  have heq : x.amount? = y.amount? := by
    rcases hsign with hsign | hzero
    · have hnan : x.isNaN = y.isNaN := by rw [isNaN, isNaN, hmagnitude]
      have hfinite : x.isFinite = y.isFinite := by rw [isFinite, isFinite, hmagnitude]
      have hunits : x.units = y.units := by
        simp only [units, significand, exponent, hmagnitude]
      rw [amount?, amount?, hnan, hfinite, hunits, hsign]
    · rw [amount?_of_zero hzero, amount?_of_zero (hmagnitude ▸ hzero)]
  obtain ⟨amount, hamount⟩ := Option.isSome_iff_exists.mp (isSome_amount? hx)
  exact ⟨amount, hamount, heq ▸ hamount⟩

/-! ### Integers -/

/-- A significand with its leading one counts as often as its exponent says. -/
theorem units_of_normal {x : Double} {field fraction : Nat}
    (h : x.magnitude = (field + 1) * hiddenBit + fraction) (hfraction : fraction < hiddenBit) :
    x.units = (fraction + hiddenBit) * 2 ^ field := by
  have hpositive : 0 < hiddenBit := by decide
  have hdiv : x.magnitude / hiddenBit = field + 1 := by
    rw [h, Nat.mul_comm, Nat.mul_add_div hpositive, Nat.div_eq_of_lt hfraction, Nat.add_zero]
  have hmod : x.magnitude % hiddenBit = fraction := by
    rw [h, Nat.mul_add_mod_self_right, Nat.mod_eq_of_lt hfraction]
  have hexponent : (x.exponent + unitExponent).toNat = field := by
    simp only [exponent, hdiv, unitExponent]
    rw [if_neg (by omega)]
    omega
  rw [units, hexponent, significand, hdiv, if_neg (by omega), hmod]

/-- A number of at most 53 binary digits is shifted up until its first digit is the hidden bit,
and not rounded. -/
theorem units_of_magnitude {x : Double} {n : Nat} (hx : x.magnitude = bitsOfNat n)
    (h : n < 2 ^ 53) : x.units = n * 2 ^ unitExponent := by
  by_cases hzero : n = 0
  · subst hzero
    simp [units, significand, hx, bitsOfNat]
  · have htop : n.log2 ≤ 52 := by
      have hlog := (Nat.log2_lt hzero).mpr h
      omega
    have hhidden : hiddenBit = 2 ^ n.log2 * 2 ^ (52 - n.log2) := by
      rw [← Nat.pow_add, Nat.add_sub_cancel' htop]
      rfl
    have hlow : hiddenBit ≤ n * 2 ^ (52 - n.log2) :=
      calc
        hiddenBit = 2 ^ n.log2 * 2 ^ (52 - n.log2) := hhidden
        _ ≤ n * 2 ^ (52 - n.log2) := Nat.mul_le_mul_right _ (Nat.log2_self_le hzero)
    have hhigh : n * 2 ^ (52 - n.log2) < 2 * hiddenBit :=
      calc
        n * 2 ^ (52 - n.log2) < 2 ^ (n.log2 + 1) * 2 ^ (52 - n.log2) :=
          Nat.mul_lt_mul_of_pos_right Nat.lt_log2_self (Nat.two_pow_pos _)
        _ = 2 * hiddenBit := by rw [hhidden, Nat.pow_succ', Nat.mul_assoc]
    have hmagnitude : x.magnitude = (n.log2 + 1022 + 1) * hiddenBit +
        (n * 2 ^ (52 - n.log2) - hiddenBit) := by
      simp only [hx, bitsOfNat, if_neg hzero, if_pos htop, Nat.shiftLeft_eq,
        Nat.succ_mul (n.log2 + 1022)]
      omega
    have hshift : 52 - n.log2 + (n.log2 + 1022) = unitExponent := by
      rw [unitExponent]
      omega
    calc
      x.units = (n * 2 ^ (52 - n.log2) - hiddenBit + hiddenBit) * 2 ^ (n.log2 + 1022) :=
        units_of_normal hmagnitude (by omega)
      _ = n * 2 ^ (52 - n.log2) * 2 ^ (n.log2 + 1022) := by rw [Nat.sub_add_cancel hlow]
      _ = n * 2 ^ unitExponent := by rw [Nat.mul_assoc, ← Nat.pow_add, hshift]

/-- Integers of at most 53 binary digits are doubles exactly. -/
theorem amount?_ofInt {n : Int} (h : n.natAbs < 2 ^ 53) :
    (ofInt n).amount? = some (.ofInt n) := by
  have hsmall : n.natAbs < 2 ^ 64 := by omega
  have hunits := units_of_magnitude (magnitude_ofInt hsmall) h
  have hcast : ((n.natAbs * 2 ^ unitExponent : Nat) : Int) = n.natAbs * 2 ^ unitExponent := by
    rw [Int.natCast_mul, Int.natCast_pow]
    rfl
  rw [amount?, isNaN_ofInt hsmall, isFinite_ofInt hsmall, isNegative_ofInt hsmall, hunits, hcast,
    Amount.ofInt]
  generalize (2 : Int) ^ unitExponent = unit
  by_cases hnegative : n < 0
  · have habs : -(n.natAbs * unit) = n * unit := by
      rw [← Int.neg_mul]
      congr 1
      omega
    simp only [hnegative, decide_true, Bool.false_eq_true, if_false, if_true, habs]
  · have habs : (n.natAbs : Int) = n := by omega
    simp only [hnegative, decide_false, Bool.false_eq_true, if_false, if_true, habs]

end Double

end DocumentBase
