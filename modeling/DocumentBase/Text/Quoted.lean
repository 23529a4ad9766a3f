import DocumentBase.Text.Printable

/-!
# Quoted text

Names in error messages are quoted so that every character can be seen: quotes, backslashes
and the usual controls have two-character escapes, and any other character that has no form
of its own is written by its code point.
-/

namespace DocumentBase.Text

def hexDigits (n : Nat) : List Char :=
  Nat.toDigits 16 n

/-- A code point in braces. -/
def codePoint (c : Char) : List Char :=
  ['\\', 'u', '\x7b'] ++ hexDigits c.toNat ++ ['\x7d']

def escapeChar (c : Char) : List Char :=
  match c with
  | '\x00' => ['\\', '0']
  | '\t' => ['\\', 't']
  | '\r' => ['\\', 'r']
  | '\n' => ['\\', 'n']
  | '"' => ['\\', '"']
  | '\\' => ['\\', '\\']
  | c => if isPlain c then [c] else codePoint c

def quote (text : String) : String :=
  String.ofList (['"'] ++ text.toList.flatMap escapeChar ++ ['"'])

end DocumentBase.Text
