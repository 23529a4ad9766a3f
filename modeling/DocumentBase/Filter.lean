import DocumentBase.Criteria
import DocumentBase.Pattern.Parser

/-!
# Filters

A filter collects criteria call by call.  The first invalid call is recorded and every later
one is ignored; the error comes out when the filter is built.  A call that asserts the same
thing of the same field as the calls that last wrote its operators is skipped, since it
would write what is there.
-/

namespace DocumentBase

/-- What a call asserted: its method and arguments. -/
structure Signature where
  method : String
  arguments : List Value

def Signature.same (s t : Signature) : Bool :=
  s.method == t.method && Value.identicalItems s.arguments t.arguments

/-- A condition on one field, as the operators that express it. -/
structure Assertion where
  method : String
  field : String
  arguments : List Value
  writes : List (String × Value)

namespace Assertion

def signature (a : Assertion) : Signature :=
  ⟨a.method, a.arguments⟩

/-- A field that may be named, and no argument missing. -/
def check (a : Assertion) : Outcome Unit := do
  checkField a.field
  if a.arguments.any fun v => match v with | .undefined => true | _ => false then
    throw (.validation (.missingValue a.field))

end Assertion

structure Filter where
  criteria : Criteria
  /-- Which assertion last wrote an operator of a field. -/
  applied : List ((String × String) × Signature)
  error : Option Error

namespace Filter

def empty : Filter := ⟨.empty, [], none⟩

def ofCriteria (c : Criteria) : Filter := ⟨c, [], none⟩

/-- The criteria, or the first error. -/
def build (f : Filter) : Outcome Criteria :=
  match f.error with
  | some e => .error e
  | none => .ok f.criteria

def fail (f : Filter) (e : Error) : Filter :=
  if f.error.isSome then f else { f with error := some e }

/-- Whether every operator that an assertion writes was last written by the same assertion. -/
def repeats (f : Filter) (a : Assertion) : Bool :=
  a.writes.all fun (operator, _) =>
    match f.applied.lookup (operator, a.field) with
    | some last => last.same a.signature
    | none => false

/-- Writes the operators of an assertion and remembers it. -/
def write (f : Filter) (a : Assertion) : Filter :=
  { f with
    criteria := a.writes.foldl
      (fun c (operator, operand) => c.merge a.field operator operand) f.criteria
    applied := a.writes.foldl
      (fun applied (operator, _) => ((operator, a.field), a.signature) :: applied) f.applied }

def assert (f : Filter) (a : Assertion) : Filter :=
  if f.error.isSome then f
  else
    match a.check with
    | .error e => f.fail e
    | .ok () => if f.repeats a then f else f.write a

/-- Combines the criteria of two filters.  The shape changes, so nothing counts as applied. -/
def combine (combine : Criteria → Criteria → Criteria) (f other : Filter) : Filter :=
  if f.error.isSome then f
  else
    match other.error with
    | some e => f.fail e
    | none => { f with criteria := combine f.criteria other.criteria, applied := [] }

/-- Where a text has to stand in the text of a field. -/
inductive Placement where
  | inside
  | atStart
  | atEnd
deriving DecidableEq, Repr

def Placement.method : Placement → String
  | .inside => "contains"
  | .atStart => "startsWith"
  | .atEnd => "endsWith"

/-- The pattern for a text at a place. -/
def Placement.pattern (p : Placement) (text : String) : String :=
  (if p = .atStart then "^" else "") ++ Pattern.literalText text
    ++ (if p = .atEnd then "$" else "")

/-- The calls by which a filter is built. -/
inductive Call where
  | compare (comparison : Comparison) (field : String) (operand : Value)
  | between (field : String) (low high : Value)
  | text (placement : Placement) (field text : String)
  /-- Membership; a value that is no list counts as a list of one. -/
  | among (comparison : Comparison) (field : String) (values : Value)
  | and (other : Filter)
  | or (other : Filter)
  | not (other : Filter)

def Call.isEmpty (field : String) : Call :=
  .compare .present field (.bool false)

def Call.isNotEmpty (field : String) : Call :=
  .compare .present field (.bool true)

def comparing (comparison : Comparison) (field : String) (operand : Value) : Assertion :=
  { method := comparison.operator
    field
    arguments := [operand]
    writes := [(comparison.operator, operand)] }

def bounding (field : String) (low high : Value) : Assertion :=
  { method := "between"
    field
    arguments := [low, high]
    writes := [("$gte", low), ("$lte", high)] }

/-- Text is compared without regard to case. -/
def placing (placement : Placement) (field text : String) : Assertion :=
  { method := placement.method
    field
    arguments := [.string text]
    writes := [("$regex", .string (placement.pattern text)), ("$options", .string "i")] }

def asItems : Value → List Value
  | .array items => items
  | v => [v]

def call (f : Filter) : Call → Filter
  | .compare comparison field operand => f.assert (comparing comparison field operand)
  | .between field low high => f.assert (bounding field low high)
  | .text placement field text => f.assert (placing placement field text)
  | .among comparison field values =>
    let items := asItems values
    if items.isEmpty then f.fail (.validation (.emptySet comparison.operator field))
    else f.assert (comparing comparison field (.array items))
  | .and other => f.combine .and other
  | .or other => f.combine .or other
  | .not other => f.combine .not other

def calls (f : Filter) (calls : List Call) : Filter :=
  calls.foldl call f

/-- Once an error is recorded, no call changes a filter. -/
@[simp]
theorem call_of_error {f : Filter} (h : f.error.isSome) (c : Call) : f.call c = f := by
  cases c <;> simp [call, assert, combine, fail, h]

end Filter

end DocumentBase
