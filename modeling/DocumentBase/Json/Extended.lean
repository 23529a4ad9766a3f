import DocumentBase.Calendar.Reading
import DocumentBase.Json
import DocumentBase.Number.Width
import DocumentBase.Text.Base64
import DocumentBase.Value

/-!
# Values as JSON

Values that JSON does not have are written as objects with a dollar sign in the member's
name.  `Value.toJson` writes such texts in their relaxed form, in which numbers and recent
dates are plain; `Json.toValue?` reads them back, except that every integer is read as a
wide one.
-/

namespace DocumentBase

namespace Value

/-- The one-member object that stands for a value without a JSON form. -/
def tagged (tag : String) (content : Json) : Json :=
  .object [(tag, content)]

/-- Dates from 1970 on are written as text, earlier ones as a count. -/
def dateJson (instant : Instant) : Json :=
  tagged "$date"
    (if 0 ≤ instant then .string instant.internetText
    else tagged "$numberLong" (.string (toString (instant : Int))))

/-- An infinity or a NaN under a tag. -/
def taggedDouble (x : Double) : Json :=
  tagged "$numberDouble"
    (.string (x.sign ++ if x.isNaN then "NaN" else "Infinity"))

def objectIdJson (id : BitVec 96) : Json :=
  tagged "$oid" (.string id.toHex)

/-- The options of a regular expression are a set; they are written in order. -/
def sortedOptions (options : String) : String :=
  String.ofList (options.toList.mergeSort fun a b => a ≤ b)

mutual

/-- A value as JSON; `special` writes the doubles that are not finite. -/
def json (special : Double → Json) : Value → Json
  | .null => .null
  | .undefined => tagged "$undefined" (.bool true)
  | .minKey => tagged "$minKey" (.integer 1)
  | .maxKey => tagged "$maxKey" (.integer 1)
  | .bool b => .bool b
  | .int32 n => .integer n.toInt
  | .int64 n => .integer n.toInt
  | .double x => if x.isFinite then .number x else special x
  | .decimal x => tagged "$numberDecimal" (.string x.text)
  | .string text => .string text
  | .date instant => dateJson instant
  | .objectId id => objectIdJson id
  | .timestamp seconds increment =>
    tagged "$timestamp"
      (.object [("t", .integer seconds.toNat), ("i", .integer increment.toNat)])
  | .symbol text => tagged "$symbol" (.string text)
  | .regex pattern options =>
    tagged "$regularExpression"
      (.object [("pattern", .string pattern), ("options", .string (sortedOptions options))])
  | .binary subtype bytes =>
    tagged "$binary"
      (.object [("base64", .string (Base64.encode bytes)),
        ("subType", .string subtype.toBitVec.toHex)])
  | .pointer collection id =>
    tagged "$dbPointer" (.object [("$ref", .string collection), ("$id", objectIdJson id)])
  | .code source => tagged "$code" (.string source)
  | .scopedCode source scope =>
    .object [("$code", .string source), ("$scope", .object (jsonFields special scope))]
  | .array items => .array (jsonItems special items)
  | .document fields => .object (jsonFields special fields)
termination_by structural v => v

def jsonItems (special : Double → Json) : List Value → List Json
  | [] => []
  | v :: rest => json special v :: jsonItems special rest
termination_by structural items => items

def jsonFields (special : Double → Json) : List (String × Value) → List (String × Json)
  | [] => []
  | (key, v) :: rest => (key, json special v) :: jsonFields special rest
termination_by structural fields => fields

end

/-- The relaxed extended form. -/
def toJson (v : Value) : Json :=
  v.json taggedDouble

/-- The form for readers that know nothing of tags for numbers: what is not finite is null. -/
def toPlainJson (v : Value) : Json :=
  v.json fun _ => .null

/-- A natural number of 32 bits. -/
def word? : Value → Option UInt32
  | .int64 n =>
    if 0 ≤ n.toInt && n.toInt < shortWordBound then some (UInt32.ofNat n.toInt.toNat) else none
  | _ => none

/-- A number of so many hexadecimal digits. -/
def hexNumber? (count : Nat) (text : String) : Option Nat :=
  let digit? (c : Char) : Option Nat :=
    if c.isDigit then some (c.toNat - '0'.toNat)
    else if 'a' ≤ c && c ≤ 'f' then some (c.toNat - 'a'.toNat + 10)
    else if 'A' ≤ c && c ≤ 'F' then some (c.toNat - 'A'.toNat + 10)
    else none
  if text.length = count then
    (text.toList.mapM digit?).map fun digits => digits.foldl (fun n d => 16 * n + d) 0
  else none

/-- A number of a given width from its text. -/
def boundedInteger? (fits : Int → Bool) (text : String) : Option Int :=
  (decimalInteger? text.toList).filter fits

/-- The value under a tag, if the tag is known and its content has the right form. -/
def ofTag? : String → Value → Option Value
  | "$oid", .string text => (hexNumber? 24 text).map fun n => .objectId (BitVec.ofNat 96 n)
  | "$symbol", .string text => some (.symbol text)
  | "$numberInt", .string text => (boundedInteger? fits32 text).map fun n => .int32 (Int32.ofInt n)
  | "$numberLong", .string text => (boundedInteger? fits64 text).map fun n => .int64 (Int64.ofInt n)
  | "$numberDouble", .string text =>
    if text = "Infinity" then some (.double Double.infinity)
    else if text = "-Infinity" then some (.double Double.infinity.negate)
    else (Double.ofText? text).map .double
  | "$numberDecimal", .string text => (Decimal128.ofText? text).map .decimal
  | "$regularExpression", .document fields => do
    let pattern ← (Document.value? fields "pattern").bind text?
    let options ← (Document.value? fields "options").bind text?
    some (.regex pattern (sortedOptions options))
  | "$binary", .document fields => do
    let text ← (Document.value? fields "base64").bind text?
    let bytes ← Base64.decode? text
    let text ← (Document.value? fields "subType").bind text?
    let subtype ← hexNumber? 2 text
    some (.binary (UInt8.ofNat subtype) bytes)
  | "$dbPointer", .document fields => do
    let collection ← (Document.value? fields "$ref").bind text?
    match Document.value? fields "$id" with
    | some (.objectId id) => some (.pointer collection id)
    | _ => none
  | "$code", .string source => some (.code source)
  | "$timestamp", .document fields => do
    let seconds ← (Document.value? fields "t").bind word?
    let increment ← (Document.value? fields "i").bind word?
    some (.timestamp seconds increment)
  | "$date", .int64 n => some (.date n.toInt)
  | "$date", .string text => (Instant.ofInternetText? text).map .date
  | "$minKey", .int64 n => if n = 1 then some .minKey else none
  | "$maxKey", .int64 n => if n = 1 then some .maxKey else none
  | "$undefined", .bool true => some .undefined
  | _, _ => none

/-- A document, or the value that it stands for when all its keys are tags. -/
def ofTagged (d : Document) : Value :=
  let plain := Value.document d
  match d with
  | [(tag, content)] => (ofTag? tag content).getD plain
  | [("$code", .string source), ("$scope", .document scope)]
  | [("$scope", .document scope), ("$code", .string source)] => .scopedCode source scope
  | _ => plain

end Value

namespace Json

mutual

/-- The value that a JSON text stores.  An integer beyond 64 signed bits has none. -/
def toValue? : Json → Option Value
  | .null => some .null
  | .bool b => some (.bool b)
  | .integer n =>
    if fits64 n then some (.int64 (Int64.ofInt n)) else none
  | .number x => some (.double x)
  | .string text => some (.string text)
  | .array items => (valuesOf? items).map .array
  | .object members => (fieldsOf? members).map fun fields =>
    Value.ofTagged (Document.ofFields fields)
termination_by structural v => v

def valuesOf? : List Json → Option (List Value)
  | [] => some []
  | v :: rest => do
    let v ← toValue? v
    let rest ← valuesOf? rest
    some (v :: rest)
termination_by structural items => items

def fieldsOf? : List (String × Json) → Option (List (String × Value))
  | [] => some []
  | (name, v) :: rest => do
    let v ← toValue? v
    let rest ← fieldsOf? rest
    some ((name, v) :: rest)
termination_by structural members => members

end

end Json

end DocumentBase
