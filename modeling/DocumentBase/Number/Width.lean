/-!
# Widths

Stored integers have 32 or 64 bits, and counts are words of 32 or 64 bits.  Arithmetic is
done on integers without a bound; a result is then asked whether it fits.
-/

namespace DocumentBase

/-- One more than the greatest 32-bit word. -/
def shortWordBound : Nat := 0x100000000

def wordBound : Nat := 0x10000000000000000

/-- Whether an integer is a signed one of 32 bits. -/
def fits32 (n : Int) : Bool :=
  -0x80000000 ≤ n && n < 0x80000000

/-- Whether an integer is a signed one of 64 bits. -/
def fits64 (n : Int) : Bool :=
  -0x8000000000000000 ≤ n && n < 0x8000000000000000

theorem fits32_iff (n : Int) :
    fits32 n = true ↔ Int32.minValue.toInt ≤ n ∧ n ≤ Int32.maxValue.toInt := by
  have low : Int32.minValue.toInt = -0x80000000 := by decide
  have high : Int32.maxValue.toInt = 0x7fffffff := by decide
  rw [low, high]
  simp only [fits32, Bool.and_eq_true, decide_eq_true_eq]
  omega

theorem fits64_iff (n : Int) :
    fits64 n = true ↔ Int64.minValue.toInt ≤ n ∧ n ≤ Int64.maxValue.toInt := by
  have low : Int64.minValue.toInt = -0x8000000000000000 := by decide
  have high : Int64.maxValue.toInt = 0x7fffffffffffffff := by decide
  rw [low, high]
  simp only [fits64, Bool.and_eq_true, decide_eq_true_eq]
  omega

theorem fits64_of_fits32 {n : Int} (h : fits32 n = true) : fits64 n = true := by
  simp only [fits32, fits64, Bool.and_eq_true, decide_eq_true_eq] at *
  omega

end DocumentBase
