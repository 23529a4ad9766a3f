/-!
# Base64

Bytes as text.  Three bytes become four characters of an alphabet of 64, and equals signs fill up
the last four.  A text is read back only if it is what its bytes are written as.
-/

namespace DocumentBase.Base64

def digit (n : Nat) : Char :=
  if n < 26 then Char.ofNat ('A'.toNat + n)
  else if n < 52 then Char.ofNat ('a'.toNat + (n - 26))
  else if n < 62 then Char.ofNat ('0'.toNat + (n - 52))
  else if n = 62 then '+'
  else '/'

def digit? (c : Char) : Option Nat :=
  if c.isUpper then some (c.toNat - 'A'.toNat)
  else if c.isLower then some (c.toNat - 'a'.toNat + 26)
  else if c.isDigit then some (c.toNat - '0'.toNat + 52)
  else if c = '+' then some 62
  else if c = '/' then some 63
  else none

def encodeChars : List UInt8 → List Char
  | [] => []
  | [a] => [digit (a.toNat / 4), digit (a.toNat % 4 * 16), '=', '=']
  | [a, b] =>
    [digit (a.toNat / 4), digit (a.toNat % 4 * 16 + b.toNat / 16), digit (b.toNat % 16 * 4), '=']
  | a :: b :: c :: rest =>
    digit (a.toNat / 4) :: digit (a.toNat % 4 * 16 + b.toNat / 16) ::
      digit (b.toNat % 16 * 4 + c.toNat / 64) :: digit (c.toNat % 64) :: encodeChars rest

/-- Bits behind the last byte must be zeros. -/
def decodeChars? : List Char → Option (List UInt8)
  | [] => some []
  | [a, b, '=', '='] => do
    let a ← digit? a
    let b ← digit? b
    if b % 16 = 0 then some [UInt8.ofNat (a * 4 + b / 16)] else none
  | [a, b, c, '='] => do
    let a ← digit? a
    let b ← digit? b
    let c ← digit? c
    if c % 4 = 0 then some [UInt8.ofNat (a * 4 + b / 16), UInt8.ofNat (b % 16 * 16 + c / 4)]
    else none
  | a :: b :: c :: d :: rest => do
    let a ← digit? a
    let b ← digit? b
    let c ← digit? c
    let d ← digit? d
    let rest ← decodeChars? rest
    some (UInt8.ofNat (a * 4 + b / 16) :: UInt8.ofNat (b % 16 * 16 + c / 4) ::
      UInt8.ofNat (c % 4 * 64 + d) :: rest)
  | _ => none

def encode (bytes : List UInt8) : String :=
  String.ofList (encodeChars bytes)

def decode? (text : String) : Option (List UInt8) :=
  decodeChars? text.toList

theorem digit?_digit : ∀ n < 64, digit? (digit n) = some n := by
  decide

theorem digit_ne_equals : ∀ n < 64, digit n ≠ '=' := by
  decide

theorem decodeChars?_encodeChars (bytes : List UInt8) :
    decodeChars? (encodeChars bytes) = some bytes := by
  fun_induction encodeChars bytes with
  | case1 => rfl
  | case2 a =>
      have ha := a.toNat_lt
      have hbyte : a.toNat / 4 * 4 + a.toNat % 4 * 16 / 16 = a.toNat := by omega
      have hend : a.toNat % 4 * 16 % 16 = 0 := by omega
      rw [decodeChars?, digit?_digit _ (by omega), digit?_digit _ (by omega)]
      simp only [Option.bind_eq_bind, Option.bind_some, hbyte, hend, if_true, UInt8.ofNat_toNat]
  | case3 a b =>
      have ha := a.toNat_lt
      have hb := b.toNat_lt
      have hfirst : a.toNat / 4 * 4 + (a.toNat % 4 * 16 + b.toNat / 16) / 16 = a.toNat := by omega
      have hsecond : (a.toNat % 4 * 16 + b.toNat / 16) % 16 * 16 + b.toNat % 16 * 4 / 4 =
          b.toNat := by omega
      have hend : b.toNat % 16 * 4 % 4 = 0 := by omega
      rw [decodeChars?, digit?_digit _ (by omega), digit?_digit _ (by omega),
        digit?_digit _ (by omega)]
      · simp only [Option.bind_eq_bind, Option.bind_some, hfirst, hsecond, hend, if_true,
          UInt8.ofNat_toNat]
      · exact digit_ne_equals _ (by omega)
  | case4 a b c rest ih =>
      have ha := a.toNat_lt
      have hb := b.toNat_lt
      have hc := c.toNat_lt
      have hfirst : a.toNat / 4 * 4 + (a.toNat % 4 * 16 + b.toNat / 16) / 16 = a.toNat := by omega
      have hsecond : (a.toNat % 4 * 16 + b.toNat / 16) % 16 * 16 +
          (b.toNat % 16 * 4 + c.toNat / 64) / 4 = b.toNat := by omega
      have hthird : (b.toNat % 16 * 4 + c.toNat / 64) % 4 * 64 + c.toNat % 64 = c.toNat := by omega
      rw [decodeChars?, digit?_digit _ (by omega), digit?_digit _ (by omega),
        digit?_digit _ (by omega), digit?_digit _ (by omega), ih]
      · simp only [Option.bind_eq_bind, Option.bind_some, hfirst, hsecond, hthird,
          UInt8.ofNat_toNat]
      · exact fun _ hdigit _ => digit_ne_equals _ (by omega) hdigit
      · exact fun hdigit _ => digit_ne_equals _ (by omega) hdigit

/-- Bytes are read back from their text. -/
theorem decode?_encode (bytes : List UInt8) : decode? (encode bytes) = some bytes := by
  rw [decode?, encode, String.toList_ofList, decodeChars?_encodeChars]

end DocumentBase.Base64
