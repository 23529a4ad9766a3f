import DocumentBase.Error
import DocumentBase.Value

/-!
# Predicates

A predicate is a condition on a document: comparisons of the values at a path, pattern
matches, and combinations of these.
-/

namespace DocumentBase

/-- How a field is compared with an operand. -/
inductive Comparison where
  | eq
  | ne
  | gt
  | ge
  | lt
  | le
  /-- Equal to one value of a list. -/
  | oneOf
  /-- Equal to every value of a list that is not empty. -/
  | allOf
  | present
deriving DecidableEq, Repr

namespace Comparison

/-- The key of a comparison in a query document. -/
def operator : Comparison → String
  | .eq => "$eq"
  | .ne => "$ne"
  | .gt => "$gt"
  | .ge => "$gte"
  | .lt => "$lt"
  | .le => "$lte"
  | .oneOf => "$in"
  | .allOf => "$all"
  | .present => "$exists"

def title : Comparison → String
  | .eq => "Eq"
  | .ne => "Ne"
  | .gt => "Gt"
  | .ge => "Gte"
  | .lt => "Lt"
  | .le => "Lte"
  | .oneOf => "In"
  | .allOf => "All"
  | .present => "Exists"

def ofOperator? (key : String) : Option Comparison :=
  match key with
  | "$eq" => some .eq
  | "$ne" => some .ne
  | "$gt" => some .gt
  | "$gte" => some .ge
  | "$lt" => some .lt
  | "$lte" => some .le
  | "$in" => some .oneOf
  | "$all" => some .allOf
  | "$exists" => some .present
  | _ => none

@[simp]
theorem ofOperator?_operator (c : Comparison) : ofOperator? c.operator = some c := by
  cases c <;> rfl

end Comparison

/-- How several conditions are combined. -/
inductive Combinator where
  | and
  | or
  | nor
deriving DecidableEq, Repr

namespace Combinator

def key : Combinator → String
  | .and => "$and"
  | .or => "$or"
  | .nor => "$nor"

def ofKey? (key : String) : Option Combinator :=
  match key with
  | "$and" => some .and
  | "$or" => some .or
  | "$nor" => some .nor
  | _ => none

@[simp]
theorem ofKey?_key (c : Combinator) : ofKey? c.key = some c := by
  cases c <;> rfl

end Combinator

inductive Predicate where
  | combined (c : Combinator) (children : List Predicate)
  | compared (field : String) (comparison : Comparison) (operand : Value)
  | matching (field pattern options : String)
deriving Repr

namespace Predicate

/-- Several conditions at once.  A single one stands for itself. -/
def gather : List Predicate → Predicate
  | [p] => p
  | ps => .combined .and ps

end Predicate

/-- Whether a key is an operator and not the name of a field. -/
def isOperatorKey (key : String) : Bool :=
  key.toList.head? = some '$'

end DocumentBase
