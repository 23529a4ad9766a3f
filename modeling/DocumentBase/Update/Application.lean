import DocumentBase.Update
import DocumentBase.Value.Comparison
import DocumentBase.Value.Path
import DocumentBase.Number.Width

/-!
# Applying updates

Arithmetic on integers is exact: a result that does not fit into 64 bits is an error, and
one of two narrow integers stays narrow while it fits.  As soon as one side is a double the
result is a double.  Every applied update sets the time of the last change.
-/

namespace DocumentBase

/-- A binary operation on integers and on doubles. -/
structure Arithmetic where
  integers : Int → Int → Int
  doubles : Double → Double → Double

namespace Arithmetic

def addition : Arithmetic := ⟨(· + ·), (· + ·)⟩

def multiplication : Arithmetic := ⟨(· * ·), (· * ·)⟩

def isNarrow : Value → Bool
  | .int32 _ => true
  | _ => false

/-- An integer result; narrow if both operands were and it fits. -/
def integerResult (field : String) (narrow : Bool) (n : Int) : Outcome Value :=
  if narrow && fits32 n then .ok (.int32 (Int32.ofInt n))
  else if fits64 n then .ok (.int64 (Int64.ofInt n))
  else .error (.invalidDocument (.overflow field))

def apply (op : Arithmetic) (field : String) (current operand : Value) : Outcome Value :=
  match current.integer?, operand.integer? with
  | some m, some n =>
    integerResult field (isNarrow current && isNarrow operand) (op.integers m n)
  | _, _ =>
    match current.number?, operand.number? with
    | some x, some y => .ok (.double (op.doubles x y))
    | _, _ => .error (.invalidDocument (.notNumeric field))

end Arithmetic

namespace Update

/-- The items after an append.  A field without a value counts as an empty array. -/
def appended (field : String) (current : Option Value) (values : List Value) : Outcome Value :=
  match current with
  | some (.array items) => .ok (.array (items ++ values))
  | none | some .null => .ok (.array values)
  | some _ => .error (.invalidDocument (.notArray field))

/-- The document after the change itself, without the stamp. -/
def change (d : Document) : Update → Outcome Document
  | .set fields =>
    .ok (fields.foldl (fun d (field, v) => d.setAt field v) d)
  | .push field values => do
    return d.setAt field (← appended field (d.at? field) values)
  | .pull field values =>
    match d.at? field with
    | some (.array items) =>
      .ok (d.setAt field (.array (items.filter fun item => !values.any fun v => v.same item)))
    | none => .ok d
    | some _ => .error (.invalidDocument (.notArray field))
  | .increment field operand =>
    match d.at? field with
    | none => .ok (d.setAt field operand)
    | some current => do
      return d.setAt field (← Arithmetic.addition.apply field current operand)
  | .multiply field operand => do
    let current := (d.at? field).getD (.int32 0)
    return d.setAt field (← Arithmetic.multiplication.apply field current operand)

def apply (u : Update) (now : Instant) (d : Document) : Outcome Document := do
  return (← u.change d).put Item.updatedField (.date now)

end Update

end DocumentBase
