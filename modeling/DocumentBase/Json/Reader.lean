import DocumentBase.Json
import DocumentBase.Number.Reading
import DocumentBase.Number.Width

/-!
# Reading JSON

A reader takes a value off the front of a text and gives the rest.  A numeral without a
fraction and an exponent is an integer if it fits into 64 bits, signed or unsigned; every
other numeral is a double.  A member whose name is repeated keeps its place and takes the
last value.
-/

namespace DocumentBase.Json

abbrev Reader (α : Type) := List Char → Option (α × List Char)

def isBlank (c : Char) : Bool :=
  c = ' ' || c = '\t' || c = '\n' || c = '\r'

/-- The text without the blanks in front of it. -/
def afterBlanks (text : List Char) : List Char :=
  text.dropWhile isBlank

/-- The text behind a word that has to stand in front of it. -/
def behind? : List Char → List Char → Option (List Char)
  | [], text => some text
  | c :: word, d :: text => if c = d then behind? word text else none
  | _ :: _, [] => none

/-! ### Strings -/

def hexDigit? (c : Char) : Option Nat :=
  if c.isDigit then some (c.toNat - '0'.toNat)
  else if 'a' ≤ c && c ≤ 'f' then some (c.toNat - 'a'.toNat + 10)
  else if 'A' ≤ c && c ≤ 'F' then some (c.toNat - 'A'.toNat + 10)
  else none

def hexNumber? (text : List Char) : Option Nat :=
  (text.mapM hexDigit?).map fun digits => digits.foldl (fun n d => 16 * n + d) 0

def isHighSurrogate (n : Nat) : Bool :=
  0xd800 ≤ n && n < 0xdc00

def isLowSurrogate (n : Nat) : Bool :=
  0xdc00 ≤ n && n < 0xe000

/-- The text of code points, in which two surrogates in a row stand for one character. -/
def joinSurrogates : List Nat → Option (List Char)
  | [] => some []
  | high :: rest =>
    if isHighSurrogate high then
      match rest with
      | low :: rest =>
        if isLowSurrogate low then
          (joinSurrogates rest).map fun cs =>
            Char.ofNat (0x10000 + (high - 0xd800) * 0x400 + (low - 0xdc00)) :: cs
        else none
      | [] => none
    else if isLowSurrogate high then none
    else (joinSurrogates rest).map fun cs => Char.ofNat high :: cs

def escaped? : Char → Option Char
  | '"' => some '"'
  | '\\' => some '\\'
  | '/' => some '/'
  | 'b' => some '\x08'
  | 'f' => some '\x0c'
  | 'n' => some '\n'
  | 'r' => some '\r'
  | 't' => some '\t'
  | _ => none

/-- The code points of a string up to its closing quote. -/
def codePoints : Reader (List Nat)
  | [] => none
  | '"' :: rest => some ([], rest)
  | '\\' :: 'u' :: a :: b :: c :: d :: rest => do
    let n ← hexNumber? [a, b, c, d]
    let (points, rest) ← codePoints rest
    some (n :: points, rest)
  | '\\' :: c :: rest => do
    let c ← escaped? c
    let (points, rest) ← codePoints rest
    some (c.toNat :: points, rest)
  | c :: rest => do
    if c.toNat < 0x20 then none
    let (points, rest) ← codePoints rest
    some (c.toNat :: points, rest)

def string? : Reader String
  | '"' :: rest => do
    let (points, rest) ← codePoints rest
    some (String.ofList (← joinSurrogates points), rest)
  | _ => none

/-! ### Numbers -/

/-- A numeral while it is being read: `significand * 10 ^ exponent`. -/
structure Numeral where
  significand : Nat
  exponent : Int
  /-- Whether a digit did not fit into the significand. -/
  full : Bool

namespace Numeral

def digitValue (c : Char) : Nat :=
  c.toNat - '0'.toNat

/-- Adds a digit before the point.  The significand has 64 bits; digits beyond count as zeros. -/
def addWhole (n : Numeral) (c : Char) : Numeral :=
  let longer := 10 * n.significand + digitValue c
  if !n.full && longer < wordBound then { n with significand := longer }
  else { n with exponent := n.exponent + 1, full := true }

def addPlace (n : Numeral) (c : Char) : Numeral :=
  let longer := 10 * n.significand + digitValue c
  if !n.full && longer < wordBound then
    { n with significand := longer, exponent := n.exponent - 1 }
  else { n with full := true }

/-- A double times a power of ten.  Below the smallest exponents this takes several steps, each of
which rounds. -/
def scale (x : Double) (exponent : Int) : Double :=
  if 0 ≤ exponent then x * Double.ofDecimal 1 exponent
  else if -308 ≤ exponent then x / Double.ofDecimal 1 (-exponent)
  else
    let less := x / Double.ofDecimal 1 308
    if less.magnitude = 0 then less else scale less (exponent + 308)
termination_by (-exponent).toNat

/-- The double of a numeral: its significand is rounded, and so is the product with the power of
ten. -/
def toDouble? (n : Numeral) : Option Double :=
  let x := Double.ofInt n.significand
  if x.magnitude = 0 then some x
  else if 308 < n.exponent then none
  else some (scale x n.exponent) |>.filter (·.isFinite)

end Numeral

def digits (text : List Char) : List Char × List Char :=
  text.span Char.isDigit

def exponent? : Reader Int
  | mark :: rest =>
    if mark = 'e' || mark = 'E' then
      let (negative, rest) := splitSign rest
      let (ds, rest) := digits rest
      (decimalDigits? ds).map fun n => (if negative then -(n : Int) else n, rest)
    else none
  | [] => none

/-- Digits before the point, with no zero in front of others. -/
def wholeDigits? (text : List Char) : Option (List Char × List Char) :=
  let (ds, rest) := digits text
  if ds.isEmpty || (ds.head? = some '0' && 1 < ds.length) then none else some (ds, rest)

/-- An integer in 64 bits.  Minus zero is none. -/
def ofInteger? (negative : Bool) (n : Numeral) : Option Json :=
  if n.full then none
  else if !negative then some (.integer n.significand)
  else if 0 < n.significand && fits64 (-(n.significand : Int)) then
    some (.integer (-(n.significand : Int)))
  else none

def ofNumeral? (negative : Bool) (n : Numeral) : Option Json :=
  n.toDouble?.map fun x => .number (if negative then x.negate else x)

def number? (text : List Char) : Option (Json × List Char) := do
  let (negative, text) := match text with
    | '-' :: rest => (true, rest)
    | text => (false, text)
  let (ds, rest) ← wholeDigits? text
  let whole := ds.foldl Numeral.addWhole ⟨0, 0, false⟩
  let (numeral, rest, isFraction) ← match rest with
    | '.' :: rest =>
      let (ds, rest) := digits rest
      if ds.isEmpty then none
      else some (ds.foldl Numeral.addPlace { whole with full := false }, rest, true)
    | rest => some (whole, rest, false)
  match exponent? rest with
  | some (e, rest) =>
    (ofNumeral? negative { numeral with exponent := numeral.exponent + e }).map (·, rest)
  | none =>
    match if isFraction then none else ofInteger? negative numeral with
    | some json => some (json, rest)
    | none => (ofNumeral? negative numeral).map (·, rest)

/-! ### Values -/

/-- Adds a member, in place of an earlier one of its name. -/
def putMember (members : List (String × Json)) (name : String) (json : Json) :
    List (String × Json) :=
  if members.any (·.1 = name) then
    members.map fun member => if member.1 = name then (name, json) else member
  else members ++ [(name, json)]

mutual

/-- A value in front of a text.  The fuel bounds the number of values and members. -/
def value? (fuel : Nat) (text : List Char) : Option (Json × List Char) :=
  match fuel with
  | 0 => none
  | fuel + 1 =>
    match afterBlanks text with
    | '"' :: rest => (string? ('"' :: rest)).map fun (s, rest) => (.string s, rest)
    | '[' :: rest =>
      match afterBlanks rest with
      | ']' :: rest => some (.array [], rest)
      | rest => items? fuel [] rest
    | '\x7b' :: rest =>
      match afterBlanks rest with
      | '\x7d' :: rest => some (.object [], rest)
      | rest => members? fuel [] rest
    | 'n' :: rest => (behind? ['u', 'l', 'l'] rest).map fun rest => (.null, rest)
    | 't' :: rest => (behind? ['r', 'u', 'e'] rest).map fun rest => (.bool true, rest)
    | 'f' :: rest => (behind? ['a', 'l', 's', 'e'] rest).map fun rest => (.bool false, rest)
    | text => number? text

/-- Items up to the closing bracket, behind those that were read. -/
def items? (fuel : Nat) (before : List Json) (text : List Char) : Option (Json × List Char) :=
  match fuel with
  | 0 => none
  | fuel + 1 => do
    let (item, rest) ← value? fuel text
    match afterBlanks rest with
    | ',' :: rest => items? fuel (item :: before) rest
    | ']' :: rest => some (.array (item :: before).reverse, rest)
    | _ => none

/-- Members up to the closing brace, behind those that were read. -/
def members? (fuel : Nat) (before : List (String × Json)) (text : List Char) :
    Option (Json × List Char) :=
  match fuel with
  | 0 => none
  | fuel + 1 => do
    let (name, rest) ← string? (afterBlanks text)
    let rest ← behind? [':'] (afterBlanks rest)
    let (item, rest) ← value? fuel rest
    let members := putMember before name item
    match afterBlanks rest with
    | ',' :: rest => members? fuel members rest
    | '\x7d' :: rest => some (.object members, rest)
    | _ => none

end

/-- The value that a whole text holds. -/
def ofText? (text : String) : Option Json := do
  let (json, rest) ← value? (text.length + 1) text.toList
  if (afterBlanks rest).isEmpty then some json else none

end DocumentBase.Json
