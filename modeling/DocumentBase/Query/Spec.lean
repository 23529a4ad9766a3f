import DocumentBase.Page
import DocumentBase.Pipeline.Assembler
import DocumentBase.Query.Request

/-!
# Query specifications

A specification is a query that has been checked.  For a page it compiles to a find request,
or to a pipeline when it joins, projects, groups, adds stages or writes; the number of its
rows is found by a request of its own, which leaves out what cannot change the number.
-/

namespace DocumentBase

/-- The output of a pipeline that counts rows. -/
def totalField : String := "total"

structure QuerySpec where
  criteria : Criteria
  sort : SortSpec
  fields : List String
  joins : List Join
  skip : Nat
  limit : Option Nat
  assembler : Assembler
  out : Option String
  merge : Option String
deriving Repr

namespace QuerySpec

/-- The number of rows on a page: at least one. -/
def pageSize (q : QuerySpec) (default : Nat) : Nat :=
  max (q.limit.getD default) 1

def isGrouped (q : QuerySpec) : Bool :=
  q.assembler.isGrouped

/-- Whether fields other than the identity were asked for. -/
def hasProjection (q : QuerySpec) : Bool :=
  q.fields.any (· ≠ Item.idField)

/-- Whether a find request is not enough. -/
def requiresPipeline (q : QuerySpec) : Bool :=
  !q.joins.isEmpty || q.hasProjection || q.assembler.isGrouped || q.assembler.hasExtraStages
    || q.out.isSome || q.merge.isSome

/-- The criteria of the query for the items of an owner, or for all items. -/
def ownedCriteria (q : QuerySpec) (owner : Option String) : Criteria :=
  match owner with
  | some owner => (Criteria.fieldIs Item.ownerField owner).and q.criteria
  | none => q.criteria

def selectionStages (q : QuerySpec) (owner : Option String) : List (Slot × Stage) :=
  (owner.map fun owner =>
      (Slot.ownership, Stage.select (Criteria.fieldIs Item.ownerField owner))).toList
    ++ (if q.criteria.isEmpty then [] else [(.select, .select q.criteria)])

/-- The joins whose references are to be counted, with the output of the count. -/
def countedJoins (q : QuerySpec) : List (String × Join) :=
  q.joins.filterMap fun join => join.countField.map fun output => (output, join)

def unwoundJoins (q : QuerySpec) : List Join :=
  q.joins.filter (·.unwound)

/-- References are counted before any join replaces them. -/
def joinStages (q : QuerySpec) : List (Slot × Stage) :=
  (if q.countedJoins.isEmpty then [] else [(.referenceLength, .referenceLength q.countedJoins)])
    ++ q.joins.map (fun join => (.lookup, .lookup join))
    ++ q.unwoundJoins.map (fun join => (.unwind, .unwind join.output))

/-- The fields asked for, and those that joins read. -/
def projection (q : QuerySpec) : Projection :=
  .keep (q.joins.foldl
    (fun fields join => if fields.contains join.field then fields else fields ++ [join.field])
    q.fields)

def pageStages (q : QuerySpec) (page : Page) (owner : Option String) : List (Slot × Stage) :=
  q.selectionStages owner
    ++ (if q.sort.isEmpty then [] else [(.sort, .sort q.sort)])
    ++ (if q.hasProjection then [(.project, .project q.projection)] else [])
    ++ q.joinStages
    ++ (if 0 < page.offset then [(.skip, .skip page.offset)] else [])
    ++ [(.limit, .limit page.size)]
    ++ (q.out.map fun collection => (Slot.out, Stage.out collection)).toList
    ++ (q.merge.map fun collection => (Slot.merge, Stage.merge collection)).toList

def compile (q : QuerySpec) (page : Page) (owner : Option String) (forcePipeline : Bool) :
    Outcome Request :=
  if !forcePipeline && !q.requiresPipeline then
    .ok (.find
      { criteria := q.ownedCriteria owner
        sort := q.sort
        skip := page.offset
        limit := page.size })
  else do
    return .aggregate (← q.assembler.assemble (q.pageStages page owner) .results)

/-- The stages that decide how many rows there are. -/
def countingStages (q : QuerySpec) (owner : Option String) : List (Slot × Stage) :=
  q.selectionStages owner
    ++ q.unwoundJoins.flatMap fun join =>
      [(.lookup, .lookup join), (.unwind, .unwind join.output)]

def countRequest (q : QuerySpec) (owner : Option String) : Outcome CountRequest :=
  if !q.assembler.isGrouped && !q.assembler.hasExtraStages && q.unwoundJoins.isEmpty then
    .ok (.documents (q.ownedCriteria owner))
  else do
    let pipeline ← q.assembler.assemble (q.countingStages owner) .counting
    return .pipeline (pipeline ++ [.count totalField])

/-- A pipeline that counts the distinct values of a field: one group for each value, then one
group of all these. -/
def distinctCountPipeline (q : QuerySpec) (field : String) (owner : Option String) :
    Outcome Pipeline := do
  checkField field
  return (q.selectionStages owner).map Prod.snd
    ++ [.group (GroupSpec.ofKey (.single field)),
      .group ((GroupSpec.ofKey .all).upsert "count" .count)]

def distinctCriteria (q : QuerySpec) (owner : Option String) : Criteria :=
  q.ownedCriteria owner

end QuerySpec

end DocumentBase
