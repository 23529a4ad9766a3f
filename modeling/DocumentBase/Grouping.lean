import DocumentBase.Join

/-!
# Grouping

Rows are grouped by a key, and every group is summed up by accumulators.  An output name has
one accumulator, the one given last.
-/

namespace DocumentBase

inductive GroupKey where
  /-- All rows in one group. -/
  | all
  /-- The values of several fields together. -/
  | compound (names : List String)
  /-- The value of one field. -/
  | single (field : String)
deriving DecidableEq, Repr

def GroupKey.render : GroupKey → Value
  | .all => .null
  | .compound names =>
    .document (Document.ofFields
      (names.map fun field => (field, .string (fieldExpression field))))
  | .single field => .string (fieldExpression field)

inductive Accumulator where
  | avg (field : String)
  | min (field : String)
  | max (field : String)
  | sum (field : String)
  | count
  /-- The first row of the group. -/
  | firstRow
deriving DecidableEq, Repr

def Accumulator.render : Accumulator → Document
  | .avg field => [("$avg", .string (fieldExpression field))]
  | .min field => [("$min", .string (fieldExpression field))]
  | .max field => [("$max", .string (fieldExpression field))]
  | .sum field => [("$sum", .string (fieldExpression field))]
  | .count => [("$sum", .int32 1)]
  | .firstRow => [("$first", .string "$$ROOT")]

structure GroupSpec where
  key : GroupKey
  accumulators : List (String × Accumulator)
deriving DecidableEq, Repr

namespace GroupSpec

def ofKey (key : GroupKey) : GroupSpec := ⟨key, []⟩

def hasOutput (g : GroupSpec) (name : String) : Bool :=
  g.accumulators.any (·.1 = name)

/-- Sets the accumulator of an output name. -/
def upsert (g : GroupSpec) (name : String) (accumulator : Accumulator) : GroupSpec :=
  if g.hasOutput name then
    { g with accumulators := g.accumulators.map fun entry =>
        if entry.1 = name then (name, accumulator) else entry }
  else { g with accumulators := g.accumulators ++ [(name, accumulator)] }

def render (g : GroupSpec) : Document :=
  g.accumulators.foldl (fun d (name, accumulator) => d.put name (.document accumulator.render))
    [(Item.idField, g.key.render)]

end GroupSpec

end DocumentBase
