import DocumentBase.Error
import DocumentBase.Json
import DocumentBase.Value
import DocumentBase.Number.Width

/-!
# Records

A record has a fixed list of named fields.  It is written as an object or a document that
has these names, in any order and among others, or as an array of the fields in their order.
What is missing at the end of an array is missing from the record.
-/

namespace DocumentBase

namespace Json

/-- The members that a JSON value has as a record with these fields.  An array may not be longer
than the record. -/
def recordMembers (names : List String) : Json → Outcome Json
  | .object members => .ok (.object members)
  | .array items =>
    if items.length ≤ names.length then .ok (.object (names.zip items))
    else .error (.serialization "too many fields for a record")
  | _ => .error (.serialization "expected a record")

/-- A member of a record, read in the way that its type asks for; a missing one has no value. -/
def fieldAs {α : Type} (read : Json → Option α) (json : Json) (name : String) :
    Outcome (Option α) :=
  match json.member? name with
  | none => .ok none
  | some content =>
    match read content with
    | some a => .ok (some a)
    | none => .error (.serialization ("wrong type of " ++ name))

/-- A member that must not be missing. -/
def requiredAs {α : Type} (read : Json → Option α) (json : Json) (name : String) : Outcome α := do
  match ← fieldAs read json name with
  | some a => return a
  | none => throw (.serialization ("missing field " ++ name))

def bool? : Json → Option Bool
  | .bool b => some b
  | _ => none

def text? : Json → Option String
  | .string s => some s
  | _ => none

/-- A whole number in a range of words. -/
def integerIn? (least greatest : Int) : Json → Option Int
  | .integer n => if least ≤ n && n ≤ greatest then some n else none
  | _ => none

/-- A whole number that is not negative and fits into 64 bits. -/
def word? (json : Json) : Option Nat :=
  (json.integerIn? 0 (wordBound - 1)).map Int.toNat

end Json

namespace Value

/-- The fields that a value has as a record; surplus items of an array are ignored. -/
def recordFields (names : List String) : Value → Outcome Document
  | .document fields => .ok fields
  | .array items => .ok (names.zip items)
  | v => .error (.serialization ("expected a record, found " ++ v.typeName))

/-- A field of a record, read in the way that its type asks for. -/
def requiredAs {α : Type} (read : Value → Option α) (record : Document) (name : String) :
    Outcome α :=
  match (record.value? name).map read with
  | some (some a) => .ok a
  | some none => .error (.serialization ("wrong type of " ++ name))
  | none => .error (.serialization ("missing field " ++ name))

/-- An integer of either width in a range; doubles are no integers. -/
def integerIn? (least greatest : Int) (v : Value) : Option Int :=
  let n? : Option Int := match v with
    | .int32 n => some n.toInt
    | .int64 n => some n.toInt
    | _ => none
  n?.filter fun n => least ≤ n && n ≤ greatest

end Value

end DocumentBase
