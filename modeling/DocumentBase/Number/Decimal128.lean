import DocumentBase.Number.Notation
import DocumentBase.Number.Reading

/-!
# Decimals of 128 bits

A decimal of a fixed width has a sign, an exponent of ten and up to 34 digits, or it is an infinity
or a NaN.  Such decimals are stored and shown, and never computed with.
-/

namespace DocumentBase

structure Decimal128 where
  bits : BitVec 128
deriving DecidableEq, Repr, Inhabited

namespace Decimal128

def maxDigits : Nat := 34

def leastExponent : Int := -6176

def greatestExponent : Int := 6111

def isNegative (x : Decimal128) : Bool :=
  x.bits.msb

def isNaN (x : Decimal128) : Bool :=
  (x.bits.toNat >>> 122) % 0x20 = 0x1f

/-- The absolute value, unless it is infinite or a NaN.  A coefficient with too many digits counts
as zero, and with the longer prefix every coefficient would have too many. -/
def decimal? (x : Decimal128) : Option Decimal :=
  let n := x.bits.toNat
  if (n >>> 123) % 0x10 = 0xf then none
  else if (n >>> 125) % 4 = 3 then some ⟨0, ((n >>> 111) % 0x4000 : Nat) + leastExponent⟩
  else
    let coefficient := n % (1 <<< 113)
    some ⟨if coefficient < Nat.pow 10 maxDigits then coefficient else 0,
      ((n >>> 113) % 0x4000 : Nat) + leastExponent⟩

/-- Whole digits as far as the exponent and the size allow, and one digit with a power of ten
otherwise. -/
def unsignedText (d : Decimal) : String :=
  let power := d.pointPlace - 1
  if d.exponent ≤ 0 && -6 ≤ power then d.positional
  else d.leading ++ "E" ++ (if 0 < power then "+" else "") ++ toString power

/-- A NaN is shown without its sign. -/
def text (x : Decimal128) : String :=
  if x.isNaN then "NaN"
  else (if x.isNegative then "-" else "") ++ (x.decimal?.map unsignedText).getD "Infinity"

/-! ### Reading -/

/-- A decimal from its sign and the bits behind the sign. -/
def ofMagnitude (negative : Bool) (magnitude : Nat) : Decimal128 :=
  ⟨BitVec.ofNat 128 ((if negative then 1 <<< 127 else 0) + magnitude)⟩

/-- The same number with fewer digits; those that are dropped must be zeros. -/
def shorten? (count : Nat) (d : Decimal) : Option Decimal :=
  let scale := Nat.pow 10 count
  if d.coefficient % scale = 0 then some ⟨d.coefficient / scale, d.exponent + count⟩ else none

/-- The same number with more digits, if there is room for them. -/
def lengthen? (count : Nat) (d : Decimal) : Option Decimal :=
  if d.coefficient = 0 then some ⟨0, d.exponent - count⟩
  else if d.digits.length + count ≤ maxDigits then
    some ⟨d.coefficient * Nat.pow 10 count, d.exponent - count⟩
  else none

/-- The same number within the limits for digits and exponents, if it has such a form. -/
def limited? (d : Decimal) : Option Decimal := do
  let d ← shorten? (d.digits.length - maxDigits) d
  let d ← shorten? (leastExponent - d.exponent).toNat d
  lengthen? (d.exponent - greatestExponent).toNat d

def fitsExponent (n : Int) : Bool :=
  -0x8000 ≤ n && n < 0x8000

/-- A decimal from digits with a point among them and a power of ten behind. -/
def decimalOfText? (text : List Char) : Option Decimal := do
  let (mantissa, power) := text.span (· ≠ 'e')
  let (whole, fraction) := mantissa.span (· ≠ '.')
  let places := fraction.drop 1
  let coefficient ← decimalDigits? (whole ++ places)
  let power ← if power.isEmpty then some 0
    else (decimalInteger? (power.drop 1)).filter fitsExponent
  let exponent := power - places.length
  if fitsExponent exponent then limited? ⟨coefficient, exponent⟩ else none

/-- The bits behind the sign that a decimal text stands for. -/
def magnitudeOfText? (text : List Char) : Option Nat :=
  let lower := text.map Char.toLower
  if lower = "nan".toList then some (0x1f <<< 122)
  else if lower = "snan".toList then some (0x3f <<< 121)
  else if lower = "inf".toList || lower = "infinity".toList then some (0x1e <<< 122)
  else (decimalOfText? lower).map fun d =>
    ((d.exponent - leastExponent).toNat <<< 113) + d.coefficient

/-- Reads a decimal text.  A number that cannot be held exactly is none. -/
def ofText? (text : String) : Option Decimal128 :=
  let (negative, rest) := splitSign text.toList
  (magnitudeOfText? rest).map (ofMagnitude negative)

example : (ofText? "-12.340").map text = some "-12.340" := by decide +kernel

end Decimal128

end DocumentBase
