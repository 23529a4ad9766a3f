import DocumentBase.Criteria
import DocumentBase.Grouping

/-!
# Stages

A stage turns the rows of a pipeline into other rows.  Each stage has a slot in a fixed
order, and pipelines are put together by these slots and not by the order of requests.
-/

namespace DocumentBase

inductive Projection where
  /-- These fields and the identity. -/
  | keep (fields : List String)
  /-- All fields but these. -/
  | drop (fields : List String)
deriving DecidableEq, Repr

def Projection.render : Projection → Document
  | .keep fields => Document.ofFields (fields.map fun field => (field, .int32 1))
  | .drop fields => Document.ofFields (fields.map fun field => (field, .int32 0))

inductive Stage where
  | select (criteria : Criteria)
  | sort (spec : SortSpec)
  | group (spec : GroupSpec)
  | project (projection : Projection)
  /-- Stores how many references the joined fields hold. -/
  | referenceLength (fields : List (String × Join))
  | lookup (join : Join)
  /-- One row for each item of an array. -/
  | unwind (path : String)
  | skip (n : Nat)
  | limit (n : Nat)
  /-- A single row that holds the number of rows. -/
  | count (field : String)
  /-- The rows become a collection. -/
  | out (collection : String)
  /-- The rows are stored in a collection under their identities. -/
  | merge (collection : String)
deriving Repr

/-- The places of a pipeline, in their order. -/
inductive Slot where
  /-- Rows of the acting identity only. -/
  | ownership
  | select
  | sort
  | group
  /-- Conditions on groups. -/
  | having
  | groupSort
  /-- Removal of what only the sort of groups needed. -/
  | groupCleanup
  | project
  | referenceLength
  | lookup
  | unwind
  | skip
  | limit
  | count
  | out
  | merge
deriving DecidableEq, Repr

namespace Slot

def rank : Slot → Nat
  | .ownership => 0
  | .select => 1
  | .sort => 2
  | .group => 3
  | .having => 4
  | .groupSort => 5
  | .groupCleanup => 6
  | .project => 7
  | .referenceLength => 8
  | .lookup => 9
  | .unwind => 10
  | .skip => 11
  | .limit => 12
  | .count => 13
  | .out => 14
  | .merge => 15

/-- Whether the stages of a slot decide which rows there are. -/
def affectsRows : Slot → Bool
  | .ownership | .select | .group | .having | .lookup | .unwind => true
  | _ => false

end Slot

namespace Stage

def operator : Stage → String
  | .select _ => "$match"
  | .sort _ => "$sort"
  | .group _ => "$group"
  | .project _ => "$project"
  | .referenceLength _ => "$addFields"
  | .lookup _ => "$lookup"
  | .unwind _ => "$unwind"
  | .skip _ => "$skip"
  | .limit _ => "$limit"
  | .count _ => "$count"
  | .out _ => "$out"
  | .merge _ => "$merge"

/-- The slot of a stage that is added without one. -/
def slot : Stage → Slot
  | .select _ => .select
  | .sort _ => .sort
  | .group _ => .group
  | .project _ => .project
  | .referenceLength _ => .referenceLength
  | .lookup _ => .lookup
  | .unwind _ => .unwind
  | .skip _ => .skip
  | .limit _ => .limit
  | .count _ => .count
  | .out _ => .out
  | .merge _ => .merge

def isGroup : Stage → Bool
  | .group _ => true
  | _ => false

def isWrite : Stage → Bool
  | .out _ | .merge _ => true
  | _ => false

def body : Stage → Value
  | .select criteria => .document criteria.document
  | .sort spec => .document spec.render
  | .group spec => .document spec.render
  | .project projection => .document projection.render
  | .referenceLength fields =>
    .document (Document.ofFields
      (fields.map fun (output, join) => (output, join.lengthExpression)))
  | .lookup join => .document join.lookupBody
  | .unwind path =>
    .document
      [("path", .string (fieldExpression path)), ("preserveNullAndEmptyArrays", .bool true)]
  | .skip n => wideInteger n
  | .limit n => wideInteger n
  | .count field => .string field
  | .out collection => .string collection
  | .merge collection =>
    .document
      [("into", .string collection), ("on", .string Item.idField),
        ("whenMatched", .string "replace"), ("whenNotMatched", .string "insert")]

/-- A stage as a document for a database server. -/
def render (s : Stage) : Document :=
  [(s.operator, s.body)]

end Stage

/-- Stages in the order in which they run. -/
abbrev Pipeline := List Stage

namespace Pipeline

def groupCount (p : Pipeline) : Nat :=
  p.countP Stage.isGroup

def render (p : Pipeline) : List Document :=
  p.map Stage.render

end Pipeline

end DocumentBase
