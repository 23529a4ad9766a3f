/-!
# Doubles

An IEEE 754 double is held as its 64 bits.  Two doubles that are not NaN are ordered by an
integer position read off these bits, so comparison needs no arithmetic on reals; an integer
is converted by rounding to the nearest double, with a tie going to the even neighbour.
-/

namespace DocumentBase

structure Double where
  bits : UInt64
deriving DecidableEq, Repr, Inhabited

namespace Double

def signBit : Nat :=
  0x8000000000000000

/-- The bit above the 52 bits of the fraction.  In a significand it is the leading one, which
is not stored; in a magnitude it is the unit of the exponent. -/
def hiddenBit : Nat :=
  0x10000000000000

/-- The bits below the sign: they grow with the absolute value. -/
def magnitude (x : Double) : Nat :=
  x.bits.toNat % signBit

def isNegative (x : Double) : Bool :=
  signBit ≤ x.bits.toNat

/-- The magnitude of the infinities; every larger magnitude is a NaN. -/
def infiniteMagnitude : Nat :=
  0x7ff0000000000000

def isNaN (x : Double) : Bool :=
  infiniteMagnitude < x.magnitude

def isFinite (x : Double) : Bool :=
  x.magnitude < infiniteMagnitude

/-- The place of a double among all doubles.  Both zeros have place 0. -/
def place (x : Double) : Int :=
  if x.isNegative then -(x.magnitude : Int) else x.magnitude

/-- The order of two doubles; a NaN has none. -/
def compare? (x y : Double) : Option Ordering :=
  if x.isNaN || y.isNaN then none else some (compare x.place y.place)

/-- Numeric equality: the zeros are equal and a NaN equals nothing. -/
def same (x y : Double) : Bool :=
  !x.isNaN && !y.isNaN && x.place == y.place

def nan : Double := ⟨0x7ff8000000000000⟩

def zero : Double := ⟨0⟩

/-- One representative for all NaNs, every other double unchanged. -/
def canonical (x : Double) : Double :=
  if x.isNaN then nan else x

/-- The quotient of `n` by a power of two, rounded to nearest, a half to the even neighbour. -/
def roundShift (n shift : Nat) : Nat :=
  let unit := 1 <<< shift
  let quotient := n / unit
  let twice := 2 * (n % unit)
  if twice < unit then quotient
  else if unit < twice then quotient + 1
  else quotient + quotient % 2

/-- The bits of the double nearest to `n`.  The fraction has 52 bits after the
leading one; a carry out of the rounded fraction raises the exponent by itself. -/
def bitsOfNat (n : Nat) : Nat :=
  if n = 0 then 0
  else
    let top := n.log2
    let significand :=
      if top ≤ 52 then n <<< (52 - top) else roundShift n (top - 52)
    (top + 1022) * hiddenBit + significand

/-- The double nearest to an integer that has less than 1024 binary digits. -/
def ofInt (n : Int) : Double :=
  let sign := if n < 0 then signBit else 0
  ⟨UInt64.ofNat (sign + bitsOfNat n.natAbs)⟩

/-- A finite double is `significand * 2 ^ exponent` up to its sign. -/
def significand (x : Double) : Nat :=
  let fraction := x.magnitude % hiddenBit
  if x.magnitude / hiddenBit = 0 then fraction else fraction + hiddenBit

def exponent (x : Double) : Int :=
  let field : Nat := x.magnitude / hiddenBit
  if field = 0 then -1074 else (field : Int) - 1075

/-- The whole part of the absolute value of a finite double. -/
def wholePart (x : Double) : Nat :=
  match x.exponent with
  | .ofNat shift => x.significand <<< shift
  | .negSucc shift => x.significand >>> (shift + 1)

def toFloat (x : Double) : Float :=
  Float.ofBits x.bits

def ofFloat (x : Float) : Double :=
  ⟨x.toBits⟩

instance : Add Double := ⟨fun x y => ofFloat (x.toFloat + y.toFloat)⟩
instance : Mul Double := ⟨fun x y => ofFloat (x.toFloat * y.toFloat)⟩
instance : Div Double := ⟨fun x y => ofFloat (x.toFloat / y.toFloat)⟩

theorem same_comm (x y : Double) : x.same y = y.same x := by
  simp only [same]
  rw [Bool.and_comm (!x.isNaN) (!y.isNaN), Bool.beq_comm (a := x.place)]

theorem same_trans {x y z : Double} (hxy : x.same y) (hyz : y.same z) : x.same z := by
  simp only [same, Bool.and_eq_true, beq_iff_eq] at *
  exact ⟨⟨hxy.1.1, hyz.1.2⟩, hxy.2.trans hyz.2⟩

end Double

end DocumentBase
