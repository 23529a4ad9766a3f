import DocumentBase.Text.Base64
import DocumentBase.Value

/-!
# Labels

The text by which a value is named in a message.  Text inside a label is put in quotes
without any escape.
-/

namespace DocumentBase.Value

def inQuotes (text : String) : String :=
  "\"" ++ text ++ "\""

mutual

def label : Value → String
  | .null => "null"
  | .undefined => "undefined"
  | .minKey => "MinKey"
  | .maxKey => "MaxKey"
  | .bool b => if b then "true" else "false"
  | .int32 n => toString n.toInt
  | .int64 n => toString n.toInt
  | .double x => x.label
  | .decimal x => x.text
  | .string text => inQuotes text
  | .date instant => "DateTime(" ++ inQuotes (Instant.label instant) ++ ")"
  | .objectId id => "ObjectId(" ++ inQuotes id.toHex ++ ")"
  | .timestamp seconds increment =>
    "Timestamp(" ++ toString seconds.toNat ++ ", " ++ toString increment.toNat ++ ")"
  | .symbol text => "Symbol(" ++ inQuotes text ++ ")"
  | .regex pattern options => "/" ++ pattern ++ "/" ++ options
  | .binary subtype bytes =>
    "Binary(0x" ++ String.ofList (Nat.toDigits 16 subtype.toNat) ++ ", "
      ++ Base64.encode bytes ++ ")"
  | .pointer collection id => "DbPointer(" ++ collection ++ ", " ++ id.toHex ++ ")"
  | .code source => source
  | .scopedCode source _ => source
  | .array items => "[" ++ ", ".intercalate (itemLabels items) ++ "]"
  | .document [] => "\x7b\x7d"
  | .document (field :: rest) =>
    "\x7b " ++ ", ".intercalate (fieldLabels (field :: rest)) ++ " \x7d"
termination_by structural v => v

def itemLabels : List Value → List String
  | [] => []
  | v :: rest => label v :: itemLabels rest
termination_by structural items => items

def fieldLabels : List (String × Value) → List String
  | [] => []
  | (key, v) :: rest => (inQuotes key ++ ": " ++ label v) :: fieldLabels rest
termination_by structural fields => fields

end

/-- The label of an identity: text stands for itself, without quotes. -/
def idLabel : Value → String
  | .string text => text
  | v => v.label

end DocumentBase.Value
