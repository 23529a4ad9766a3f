import DocumentBase.Number.Notation

/-!
# JSON

JSON values keep the order of the members of an object.  Their compact text has no blank and
escapes only what has to be escaped.
-/

namespace DocumentBase

inductive Json where
  | null
  | bool (b : Bool)
  | integer (n : Int)
  | number (x : Double)
  | string (text : String)
  | array (items : List Json)
  | object (members : List (String × Json))
deriving Repr, Inhabited

namespace Json

/-- The value of a member.  A name that is given again counts with its last value. -/
def member? : Json → String → Option Json
  | .object members, name => (members.reverse.find? (·.1 = name)).map Prod.snd
  | _, _ => none

def hexDigit (n : Nat) : Char :=
  Nat.digitChar n

/-- A character inside a JSON text. -/
def escape (c : Char) : List Char :=
  match c with
  | '"' => ['\\', '"']
  | '\\' => ['\\', '\\']
  | '\x08' => ['\\', 'b']
  | '\x0c' => ['\\', 'f']
  | '\n' => ['\\', 'n']
  | '\r' => ['\\', 'r']
  | '\t' => ['\\', 't']
  | c =>
    if c.toNat < 0x20 then
      ['\\', 'u', '0', '0', hexDigit (c.toNat / 16), hexDigit (c.toNat % 16)]
    else [c]

def quoted (text : String) : String :=
  String.ofList (['"'] ++ text.toList.flatMap escape ++ ['"'])

mutual

def text : Json → String
  | .null => "null"
  | .bool b => if b then "true" else "false"
  | .integer n => toString n
  | .number x => if x.isFinite then x.jsonText else "null"
  | .string s => quoted s
  | .array items => "[" ++ ",".intercalate (itemTexts items) ++ "]"
  | .object members => "\x7b" ++ ",".intercalate (memberTexts members) ++ "\x7d"
termination_by structural v => v

def itemTexts : List Json → List String
  | [] => []
  | v :: rest => text v :: itemTexts rest
termination_by structural items => items

def memberTexts : List (String × Json) → List String
  | [] => []
  | (name, v) :: rest => (quoted name ++ ":" ++ text v) :: memberTexts rest
termination_by structural members => members

end

/-- Adds a member to a list that is in the order of the names. -/
def insertMember (member : String × Json) : List (String × Json) → List (String × Json)
  | [] => [member]
  | other :: rest =>
    if other.1 < member.1 then other :: insertMember member rest else member :: other :: rest

mutual

/-- A value with the members of every object in the order of their names. -/
def sorted : Json → Json
  | .array items => .array (sortedItems items)
  | .object members => .object (sortedMembers members)
  | .null => .null
  | .bool b => .bool b
  | .integer n => .integer n
  | .number x => .number x
  | .string s => .string s
termination_by structural json => json

def sortedItems : List Json → List Json
  | [] => []
  | v :: rest => sorted v :: sortedItems rest
termination_by structural items => items

def sortedMembers : List (String × Json) → List (String × Json)
  | [] => []
  | (name, v) :: rest => insertMember (name, sorted v) (sortedMembers rest)
termination_by structural members => members

end

end Json

end DocumentBase
