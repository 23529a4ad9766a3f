import DocumentBase.Filter
import DocumentBase.Query.Spec

/-!
# Queries

A query is built call by call.  The first call with an invalid argument is recorded and
comes out when the query is built, as does a pipeline that could not be assembled.
-/

namespace DocumentBase

structure Query where
  filter : Filter
  sort : SortSpec
  fields : List String
  joins : List Join
  skip : Nat
  limit : Option Nat
  assembler : Assembler
  out : Option String
  merge : Option String
  error : Option Error

/-- What is calculated from a field. -/
inductive Calculation where
  | avg
  | min
  | max
  | sum
deriving DecidableEq, Repr

namespace Calculation

def accumulator (field : String) : Calculation → Accumulator
  | .avg => .avg field
  | .min => .min field
  | .max => .max field
  | .sum => .sum field

/-- The output name of a calculation that is given none. -/
def output (field : String) : Calculation → String
  | .avg => field ++ "Avg"
  | .min => field ++ "Min"
  | .max => field ++ "Max"
  | .sum => field ++ "Sum"

end Calculation

namespace Query

def empty : Query :=
  { filter := .empty
    sort := .empty
    fields := []
    joins := []
    skip := 0
    limit := none
    assembler := .empty
    out := none
    merge := none
    error := none }

def ofFilter (f : Filter) : Query :=
  { empty with filter := f }

/-- Records an error, unless there is one already. -/
def fail (q : Query) (e : Error) : Query :=
  if q.error.isSome then q else { q with error := some e }

/-- The calls by which a query is built. -/
inductive Call where
  | narrow (call : Filter.Call)
  | order (field : String) (direction : Direction)
  | select (fields : List String)
  | attach (join : Join)
  | limit (n : Nat)
  | skip (n : Nat)
  | groupBy (fields : List String)
  | calculate (calculation : Calculation) (field output : String)
  | count
  | having (filter : Filter)
  | out (collection : String)
  | mergeInto (collection : String)
  | stage (stage : Stage)

/-- Goes on with the value of a step, or records its error. -/
def orFail {α : Type} (q : Query) (step : Outcome α) (next : α → Query) : Query :=
  match step with
  | .ok v => next v
  | .error e => q.fail e

/-- Asks for fields, each once, up to the first one that is not allowed. -/
def selectFields (q : Query) : List String → Query
  | [] => q
  | field :: rest =>
    match checkField field with
    | .error e => q.fail e
    | .ok () =>
      selectFields
        (if q.fields.contains field then q else { q with fields := q.fields ++ [field] }) rest

def call (q : Query) : Call → Query
  | .narrow call => { q with filter := q.filter.call call }
  | .order field direction =>
    q.orFail (checkField field) fun () =>
      if q.assembler.isGrouped then
        { q with assembler := q.assembler.sortGroups field direction }
      else { q with sort := q.sort.push field direction }
  | .select fields => q.selectFields fields
  | .attach join => q.orFail join.validate fun () => { q with joins := q.joins ++ [join] }
  | .limit n =>
    if n = 0 then q.fail (.validation .zeroLimit) else { q with limit := some n }
  | .skip n => { q with skip := n }
  | .groupBy fields =>
    q.orFail (q.assembler.groupBy fields) fun assembler => { q with assembler }
  | .calculate calculation field output =>
    q.orFail
      (do
        checkField field
        q.assembler.calculate output (calculation.accumulator field))
      fun assembler => { q with assembler }
  | .count => { q with assembler := q.assembler.count }
  | .having filter =>
    q.orFail filter.build fun criteria =>
      { q with assembler := q.assembler.addHaving criteria }
  | .out collection => { q with out := some collection }
  | .mergeInto collection => { q with merge := some collection }
  | .stage stage => { q with assembler := q.assembler.push stage.slot stage }

def calls (q : Query) (calls : List Call) : Query :=
  calls.foldl call q

def spec (q : Query) (criteria : Criteria) : QuerySpec :=
  { criteria
    sort := q.sort
    fields := q.fields
    joins := q.joins
    skip := q.skip
    limit := q.limit
    assembler := q.assembler
    out := q.out
    merge := q.merge }

/-- Checks a query: its own errors, then its targets, then its filter, and last whether its
first page compiles.  -/
def build (q : Query) : Outcome QuerySpec := do
  if let some e := q.error then throw e
  if q.out.isSome && q.merge.isSome then throw (.validation .twoTargets)
  let spec := q.spec (← q.filter.build)
  let _ ← spec.compile (Page.of 1 (spec.pageSize 1) spec.skip) none false
  return spec

end Query

end DocumentBase
