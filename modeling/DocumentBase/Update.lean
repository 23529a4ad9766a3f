import DocumentBase.Error
import DocumentBase.Item

/-!
# Updates

An update changes some fields of one item.  It is checked before it is sent: it must name
fields that callers may change, and have the operands it needs.
-/

namespace DocumentBase

inductive Update where
  | set (fields : Document)
  /-- Appends values to an array. -/
  | push (field : String) (values : List Value)
  /-- Removes every occurrence of values from an array. -/
  | pull (field : String) (values : List Value)
  | increment (field : String) (operand : Value)
  | multiply (field : String) (operand : Value)
deriving Repr

namespace Update

/-- A field that callers may change. -/
def checkMutable (field : String) : Outcome Unit := do
  checkField field
  if Item.protectedFields.contains field || field = Item.updatedField then
    throw (.validation (.protectedField field))

def isNumeric : Value → Bool
  | .int32 _ | .int64 _ | .double _ => true
  | _ => false

def named : Update → List String
  | .set fields => Document.keys fields
  | .push field _ | .pull field _ | .increment field _ | .multiply field _ => [field]

/-- The operands are checked before the fields. -/
def checkOperands : Update → Outcome Unit
  | .set fields => if fields.isEmpty then .error (.validation .emptyUpdate) else .ok ()
  | .push field values | .pull field values =>
    if values.isEmpty then .error (.validation (.noUpdateValues field)) else .ok ()
  | .increment field operand | .multiply field operand =>
    if isNumeric operand then .ok () else .error (.validation (.operandNotNumeric field))

def validate (u : Update) : Outcome Unit := do
  u.checkOperands
  u.named.forM checkMutable

/-- The field that holds the time of the last change, as it is set with every update. -/
def stamp (now : Instant) : Value :=
  .document [(Item.updatedField, .date now)]

/-- An update as a document for a database server. -/
def render (now : Instant) : Update → Document
  | .set fields => [("$set", .document (Document.put fields Item.updatedField (.date now)))]
  | .push field values =>
    [("$push", .document [(field, .document [("$each", .array values)])]), ("$set", stamp now)]
  | .pull field values =>
    [("$pull", .document [(field, .document [("$in", .array values)])]), ("$set", stamp now)]
  | .increment field operand => [("$inc", .document [(field, operand)]), ("$set", stamp now)]
  | .multiply field operand => [("$mul", .document [(field, operand)]), ("$set", stamp now)]

end Update

end DocumentBase
