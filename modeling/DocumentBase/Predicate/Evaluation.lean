import DocumentBase.Criteria
import DocumentBase.Pattern.Matching
import DocumentBase.Pattern.Parser
import DocumentBase.Value.Comparison
import DocumentBase.Value.Path

/-!
# Evaluating predicates

A comparison looks at the values that are reached at its field and at the items of reached
arrays; it holds when one of them satisfies it.  A field that is not reached equals null.
The children of a combination are evaluated from left to right, up to the one that decides.
-/

namespace DocumentBase

namespace Predicate

/-- Values together with the items of those that are arrays. -/
def withItems (candidates : List Value) : List Value :=
  candidates.flatMap fun v => v :: (v.items?.getD [])

def anyEqual (candidates : List Value) (operand : Value) : Bool :=
  match candidates with
  | [] =>
    match operand with
    | .null => true
    | _ => false
  | _ => (withItems candidates).any fun v => v.same operand

/-- Whether one of the candidates stands in an accepted order to the operand. -/
def anyOrdered (accepted : Ordering → Bool) (candidates : List Value) (operand : Value) : Bool :=
  (withItems candidates).any fun v => (v.compare? operand).any accepted

/-- Operands of `$exists` that ask for absence. -/
def asksForAbsence : Value → Bool
  | .bool b => !b
  | .null => true
  | .int32 n => n.toInt = 0
  | .int64 n => n.toInt = 0
  | _ => false

/-- The list that a set comparison needs as its operand. -/
def operandItems (field : String) (comparison : Comparison) (operand : Value) :
    Outcome (List Value) :=
  match operand with
  | .array items => .ok items
  | _ => .error (.validation (.operandNotArray comparison.title field))

def comparisonHolds (field : String) (comparison : Comparison) (operand : Value)
    (candidates : List Value) : Outcome Bool :=
  match comparison with
  | .eq => .ok (anyEqual candidates operand)
  | .ne => .ok (!anyEqual candidates operand)
  | .gt => .ok (anyOrdered (· == .gt) candidates operand)
  | .ge => .ok (anyOrdered (· != .lt) candidates operand)
  | .lt => .ok (anyOrdered (· == .lt) candidates operand)
  | .le => .ok (anyOrdered (· != .gt) candidates operand)
  | .oneOf => do
    let operands ← operandItems field comparison operand
    return operands.any (anyEqual candidates)
  | .allOf => do
    let operands ← operandItems field comparison operand
    return !operands.isEmpty && operands.all (anyEqual candidates)
  | .present => .ok (candidates.isEmpty == asksForAbsence operand)

/-- Whether one of the candidates is a text that matches. -/
def patternHolds (field pattern options : String) (candidates : List Value) : Outcome Bool :=
  match Pattern.parse? pattern (options.toList.contains 'i') with
  | some p => .ok ((withItems candidates).any fun v => v.text?.any p.occursIn)
  | none => .error (.validation (.badPattern field))

mutual

def holds (d : Document) : Predicate → Outcome Bool
  | .combined .and children => allHold d children
  | .combined .or children => anyHolds d children
  | .combined .nor children => do return !(← anyHolds d children)
  | .compared field comparison operand =>
    comparisonHolds field comparison operand (d.reachAt field)
  | .matching field pattern options => patternHolds field pattern options (d.reachAt field)
termination_by structural p => p

def allHold (d : Document) : List Predicate → Outcome Bool
  | [] => .ok true
  | p :: rest => do
    if ← holds d p then allHold d rest else return false
termination_by structural ps => ps

def anyHolds (d : Document) : List Predicate → Outcome Bool
  | [] => .ok false
  | p :: rest => do
    if ← holds d p then return true else anyHolds d rest
termination_by structural ps => ps

end

/-- The documents that satisfy a predicate, in their order; an error at any of them is the
result.  -/
def select (p : Predicate) : List Document → Outcome (List Document)
  | [] => .ok []
  | d :: rest => do
    let kept ← holds d p
    let others ← select p rest
    return if kept then d :: others else others

end Predicate

namespace Criteria

def holds (c : Criteria) (d : Document) : Outcome Bool := do
  (← c.predicate).holds d

def select (c : Criteria) (documents : List Document) : Outcome (List Document) := do
  (← c.predicate).select documents

end Criteria

end DocumentBase
