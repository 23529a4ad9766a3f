import DocumentBase.Number.Double

/-!
# Shortest decimals

The reals that round to a finite double form an interval around it.  The shortest decimal is
the point of the coarsest power-of-ten grid that lies in this interval; of two such points
on one grid it is the nearer one.  If any point of a grid lies in the interval, so does one
of the two grid points next to the double, hence only these two are tried.
-/

namespace DocumentBase

/-- The number `coefficient * 10 ^ exponent`. -/
structure Decimal where
  coefficient : Nat
  exponent : Int
deriving DecidableEq, Repr, Inhabited

/-- An interval around a value, all in one unit. -/
structure RoundingInterval where
  low : Nat
  value : Nat
  high : Nat
  /-- Whether the ends round to the value as well. -/
  closed : Bool

namespace RoundingInterval

def contains (i : RoundingInterval) (x : Nat) : Bool :=
  if i.closed then i.low ≤ x && x ≤ i.high else i.low < x && x < i.high

def scale (i : RoundingInterval) (n : Nat) : RoundingInterval :=
  { i with low := i.low * n, value := i.value * n, high := i.high * n }

/-- The multiple of `step` inside the interval that is nearest to the value, as the factor; the
greater one of two at the same distance. -/
def nearestMultiple? (i : RoundingInterval) (step : Nat) : Option Nat :=
  let below := i.value / step
  let above := below + 1
  let fits (factor : Nat) : Bool := 0 < factor && i.contains (factor * step)
  match fits below, fits above with
  | true, true =>
    if above * step - i.value ≤ i.value - below * step then some above else some below
  | true, false => some below
  | false, true => some above
  | false, false => none

end RoundingInterval

namespace Double

/-- The reals that round to a finite nonzero double, in units of a quarter of its
last place.  Below a power of two the neighbour is twice as near. -/
def interval (x : Double) : RoundingInterval :=
  let quarters := 4 * x.significand
  let narrow := x.significand = hiddenBit && 1 < x.magnitude / hiddenBit
  { low := quarters - (if narrow then 1 else 2)
    value := quarters
    high := quarters + 2
    closed := x.significand % 2 = 0 }

/-- The interval and the step of the grid `10 ^ power`, both as naturals in one unit. -/
def onGrid (x : Double) (power : Int) : RoundingInterval × Nat :=
  let unit := x.exponent - 2
  let up := Nat.pow 10 (-power).toNat <<< unit.toNat
  let down := Nat.pow 10 power.toNat <<< (-unit).toNat
  (x.interval.scale up, down)

/-- Tries the grids `10 ^ power`, `10 ^ (power - 1)`, … -/
def shortestFrom (x : Double) : Nat → Int → Option Decimal
  | 0, _ => none
  | tries + 1, power =>
    let (interval, step) := x.onGrid power
    match interval.nearestMultiple? step with
    | some coefficient => some ⟨coefficient, power⟩
    | none => shortestFrom x tries (power - 1)

/-- The shortest decimal that rounds to the absolute value of a finite double.  No
grid above the first one tried has a point in the interval, and seventeen digits are always
enough. -/
def shortest (x : Double) : Decimal :=
  if x.magnitude = 0 then ⟨0, 0⟩
  else
    let top := (x.significand.log2 : Int) + x.exponent
    (x.shortestFrom 22 (Int.fdiv (top * 30103) 100000 + 2)).getD ⟨0, 0⟩

end Double

end DocumentBase
