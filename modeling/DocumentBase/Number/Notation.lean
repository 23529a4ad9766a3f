import DocumentBase.Number.Shortest

/-!
# Decimal notations

Two ways of writing a shortest decimal: positional, as in labels, and the mixed notation of
JSON, where a number keeps its point and changes to an exponent outside of the range from
`1e-5` to `1e16`.
-/

namespace DocumentBase

def zeros (count : Nat) : String :=
  String.ofList (List.replicate count '0')

namespace Decimal

def digits (d : Decimal) : String :=
  toString d.coefficient

/-- How many digits stand before the point; not positive for a number below one tenth. -/
def pointPlace (d : Decimal) : Int :=
  d.digits.length + d.exponent

/-- Digits with a point inside or in front of them. -/
def pointed (d : Decimal) : String :=
  match d.pointPlace with
  | .ofNat 0 => "0." ++ d.digits
  | .ofNat whole =>
    String.ofList (d.digits.toList.take whole) ++ "." ++ String.ofList (d.digits.toList.drop whole)
  | .negSucc gap => "0." ++ zeros (gap + 1) ++ d.digits

/-- Never an exponent, and no point in a whole number. -/
def positional (d : Decimal) : String :=
  match d.exponent with
  | .ofNat trailing => d.digits ++ (if d.coefficient = 0 then "" else zeros trailing)
  | .negSucc _ => d.pointed

/-- One digit, and the others behind a point. -/
def leading (d : Decimal) : String :=
  let first := String.ofList (d.digits.toList.take 1)
  let others := String.ofList (d.digits.toList.drop 1)
  if others.isEmpty then first else first ++ "." ++ others

/-- The leading digit with the others, and the power of ten. -/
def scientific (d : Decimal) : String :=
  d.leading ++ "e" ++ toString (d.pointPlace - 1)

/-- The notation of JSON: always with a point or an exponent. -/
def mixed (d : Decimal) : String :=
  let place := d.pointPlace
  if 0 ≤ d.exponent && place ≤ 16 then d.positional ++ ".0"
  else if -5 < place && place ≤ 16 then d.pointed
  else d.scientific

end Decimal

namespace Double

def sign (x : Double) : String :=
  if x.isNegative then "-" else ""

def label (x : Double) : String :=
  if x.isNaN then "NaN"
  else if !x.isFinite then x.sign ++ "inf"
  else x.sign ++ x.shortest.positional

def jsonText (x : Double) : String :=
  x.sign ++ x.shortest.mixed

end Double

end DocumentBase
