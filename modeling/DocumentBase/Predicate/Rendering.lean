import DocumentBase.Criteria

/-!
# Writing predicates

A predicate is written as the query document of one entry, in which every condition is
explicit: conjunctions by their combinator, equalities by their operator.
-/

namespace DocumentBase

namespace Predicate

mutual

def render : Predicate → Document
  | .combined c children => [(c.key, .array (renderAll children))]
  | .compared field comparison operand =>
    [(field, .document [(comparison.operator, operand)])]
  | .matching field pattern options =>
    [(field, .document [("$regex", .string pattern), ("$options", .string options)])]
termination_by structural p => p

def renderAll : List Predicate → List Value
  | [] => []
  | p :: rest => .document (render p) :: renderAll rest
termination_by structural ps => ps

end

end Predicate

namespace Criteria

/-- Criteria for a database server: checked, and with every condition explicit. -/
def explicit (c : Criteria) : Outcome Document :=
  if c.isEmpty then .ok [] else do return (← c.predicate).render

end Criteria

end DocumentBase
