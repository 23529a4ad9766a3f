import DocumentBase.Number.Double

/-!
# Reading numbers

Decimal numerals as integers and as doubles.  A sign may stand in front; a double may have a
fraction and an exponent, or be one of the words for infinity and NaN.
-/

namespace DocumentBase

/-- The value of a nonempty list of decimal digits. -/
def decimalDigits? (text : List Char) : Option Nat :=
  if text.isEmpty || !text.all Char.isDigit then none
  else some (text.foldl (fun n c => 10 * n + (c.toNat - '0'.toNat)) 0)

/-- Takes a sign off the front of a text; the flag says whether it is negative. -/
def splitSign : List Char → Bool × List Char
  | '-' :: rest => (true, rest)
  | '+' :: rest => (false, rest)
  | text => (false, text)

def decimalInteger? (text : List Char) : Option Int :=
  let (negative, rest) := splitSign text
  (decimalDigits? rest).map fun n => if negative then -(n : Int) else n

namespace Double

/-- The double nearest to `coefficient * 10 ^ exponent`. -/
def ofDecimal (coefficient : Nat) (exponent : Int) : Double :=
  match exponent with
  | .ofNat up => ofFloat (Float.ofScientific coefficient false up)
  | .negSucc down => ofFloat (Float.ofScientific coefficient true (down + 1))

def infinity : Double := ⟨0x7ff0000000000000⟩

def negate (x : Double) : Double :=
  ⟨x.bits ^^^ 0x8000000000000000⟩

def unsigned? (text : List Char) : Option Double :=
  let lower := text.map Char.toLower
  if lower = ['i', 'n', 'f'] || lower = ['i', 'n', 'f', 'i', 'n', 'i', 't', 'y'] then
    some infinity
  else if lower = ['n', 'a', 'n'] then some nan
  else
    let (mantissa, power) := lower.span (· ≠ 'e')
    let (whole, fraction) := mantissa.span (· ≠ '.')
    let places := fraction.drop 1
    let exponent := if power.isEmpty then some 0 else decimalInteger? (power.drop 1)
    match decimalDigits? (whole ++ places), exponent with
    | some coefficient, some e =>
      -- Beyond these bounds every double is zero or infinite.
      let shift := max (-2000) (min 2000 (e - places.length))
      some (ofDecimal coefficient shift)
    | _, _ => none

def ofText? (text : String) : Option Double :=
  let (negative, rest) := splitSign text.toList
  (unsigned? rest).map fun x => if negative then x.negate else x

end Double

end DocumentBase
