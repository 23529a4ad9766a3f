import DocumentBase.Json.Reader
import DocumentBase.Record
import DocumentBase.Text.Base64

/-!
# Typed JSON

A form of values as JSON that keeps their types.  Texts, flags, arrays and null stand for
themselves, and a number for a narrow integer; everything else is an object with one member,
whose name is a short tag for the type.  A document is written as the list of its fields, so
that their order is kept.  A value that is wrapped many times may be written as one with the
number of wrappings.
-/

namespace DocumentBase.Value

/-- One member under a tag. -/
def tag (name : String) (content : Json) : Json :=
  .object [(name, content)]

/-- The bits of a double as hexadecimal digits; all NaNs are alike. -/
def hexText (x : Double) : String :=
  if x.isNaN then "nan" else (BitVec.ofNat 64 x.bits.toNat).toHex

def typedDouble (x : Double) : Json :=
  tag "f" (.string (hexText x))

def typedDate (instant : Instant) : Json :=
  tag "t" (.string (toString (instant : Int)))

mutual

/-- The typed form of a value; `date` writes the dates. -/
def typed (date : Instant → Json) : Value → Json
  | .null => .null
  | .undefined => tag "undef" (.bool true)
  | .minKey => tag "min" (.bool true)
  | .maxKey => tag "max" (.bool true)
  | .bool b => .bool b
  | .int32 n => .integer n.toInt
  | .int64 n => tag "l" (.string (toString n.toInt))
  | .double x => typedDouble x
  | .decimal x => tag "dec" (.string x.bits.toHex)
  | .string text => .string text
  | .date instant => date instant
  | .objectId id => tag "oid" (.string id.toHex)
  | .timestamp seconds increment =>
    tag "ts" (.array [.integer seconds.toNat, .integer increment.toNat])
  | .symbol text => tag "sym" (.string text)
  | .regex pattern options => tag "re" (.array [.string pattern, .string options])
  | .binary subtype bytes =>
    tag "bin" (.array [.integer subtype.toNat, .string (Base64.encode bytes)])
  | .pointer collection id => tag "ptr" (.array [.string collection, .string id.toHex])
  | .code source => tag "js" (.string source)
  | .scopedCode source scope =>
    tag "jsw" (.array [.string source, tag "d" (.array (typedFields date scope))])
  | .array items => .array (typedItems date items)
  | .document fields => tag "d" (.array (typedFields date fields))
termination_by structural v => v

def typedItems (date : Instant → Json) : List Value → List Json
  | [] => []
  | v :: rest => typed date v :: typedItems date rest
termination_by structural items => items

def typedFields (date : Instant → Json) : List (String × Value) → List Json
  | [] => []
  | (key, v) :: rest => .array [.string key, typed date v] :: typedFields date rest
termination_by structural fields => fields

end

/-- An integer, or its decimal text. -/
def integerOf? : Json → Option Int
  | .integer n => some n
  | .string text => decimalInteger? text.toList
  | _ => none

/-- A double from its hexadecimal digits. -/
def ofHexText? (text : String) : Option Double :=
  if text = "nan" then some Double.nan
  else (Json.hexNumber? text.toList).map fun n => ⟨UInt64.ofNat n⟩

def wrapped (kind : String) (v : Value) : Value :=
  if kind = "d" then .document [("n", v)] else .array [v]

mutual

/-- Reads the typed form of a value.  A key that is repeated in a document keeps its place and
takes the last value. -/
def ofTyped? : Json → Option Value
  | .null => some .null
  | .bool b => some (.bool b)
  | .string text => some (.string text)
  | .integer n => some (.int32 (Int32.ofInt n))
  | .number x => some (.double x)
  | .array items => (itemsOfTyped? items).map .array
  | .object [("l", n)] => (integerOf? n).map fun n => .int64 (Int64.ofInt n)
  | .object [("f", .string text)] => (ofHexText? text).map .double
  | .object [("d", .array fields)] =>
    (fieldsOfTyped? fields).map fun fields => .document (Document.ofFields fields)
  | .object [("t", n)] => (integerOf? n).map .date
  | .object [("oid", .string text)] =>
    (Json.hexNumber? text.toList).map fun n => .objectId (BitVec.ofNat 96 n)
  | .object [("dec", .string text)] =>
    (Json.hexNumber? text.toList).map fun n => .decimal ⟨BitVec.ofNat 128 n⟩
  | .object [("re", .array [.string pattern, .string options])] => some (.regex pattern options)
  | .object [("bin", .array [subtype, .string text])] => do
    let subtype ← integerOf? subtype
    let bytes ← Base64.decode? text
    some (.binary (UInt8.ofNat subtype.toNat) bytes)
  | .object [("ptr", .array [.string collection, .string text])] =>
    (Json.hexNumber? text.toList).map fun n => .pointer collection (BitVec.ofNat 96 n)
  | .object [("undef", _)] => some .undefined
  | .object [("min", _)] => some .minKey
  | .object [("max", _)] => some .maxKey
  | .object [("sym", .string text)] => some (.symbol text)
  | .object [("js", .string source)] => some (.code source)
  | .object [("jsw", .array [.string source, .object [("d", .array fields)]])] =>
    (fieldsOfTyped? fields).map fun fields => .scopedCode source (Document.ofFields fields)
  | .object [("ts", .array [seconds, increment])] => do
    let seconds ← integerOf? seconds
    let increment ← integerOf? increment
    some (.timestamp (UInt32.ofNat seconds.toNat) (UInt32.ofNat increment.toNat))
  | .object [("nest", .array [.string kind, depth, v])] => do
    let v ← ofTyped? v
    let depth ← integerOf? depth
    some (Nat.repeat (wrapped kind) depth.toNat v)
  | _ => none
termination_by structural json => json

def itemsOfTyped? : List Json → Option (List Value)
  | [] => some []
  | v :: rest => do
    let v ← ofTyped? v
    let rest ← itemsOfTyped? rest
    some (v :: rest)
termination_by structural items => items

def fieldsOfTyped? : List Json → Option (List (String × Value))
  | [] => some []
  | .array [.string key, v] :: rest => do
    let v ← ofTyped? v
    let rest ← fieldsOfTyped? rest
    some ((key, v) :: rest)
  | _ :: _ => none
termination_by structural fields => fields

end

end DocumentBase.Value

namespace DocumentBase.Json

mutual

/-- JSON in which every number can be read exactly by any reader: doubles are written by their
bits, and integers that a double might not hold as texts. -/
def typed : Json → Json
  | .integer n =>
    if n.natAbs < 0x20000000000000 then .integer n else Value.tag "l" (.string (toString n))
  | .number x => Value.typedDouble x
  | .array items => .array (typedItems items)
  | .object members => .object (typedMembers members)
  | .null => .null
  | .bool b => .bool b
  | .string s => .string s
termination_by structural json => json

def typedItems : List Json → List Json
  | [] => []
  | v :: rest => typed v :: typedItems rest
termination_by structural items => items

def typedMembers : List (String × Json) → List (String × Json)
  | [] => []
  | (name, v) :: rest => (name, typed v) :: typedMembers rest
termination_by structural members => members

end

end DocumentBase.Json
