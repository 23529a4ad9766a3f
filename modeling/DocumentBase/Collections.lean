import DocumentBase.Pipeline.Execution
import DocumentBase.Query.Request
import DocumentBase.Update.Application
import DocumentBase.Value.Label

/-!
# Collections in memory

Reads and writes of the collections that are held in memory.  A missing collection reads as
an empty one, without looking at the criteria.  Identities are compared as values: the first
document whose identity equals the given one is meant.
-/

namespace DocumentBase.Collections

/-! ### Reading -/

def find (c : Collections) (name : String) (request : FindRequest) : Outcome (List Document) :=
  match c.rows? name with
  | none => .ok []
  | some rows => do
    let selected ← request.criteria.select rows
    return ((request.sort.sort selected).drop request.skip).take request.limit

def count (c : Collections) (name : String) (criteria : Criteria) : Outcome Nat :=
  match c.rows? name with
  | none => .ok 0
  | some rows => do return (← criteria.select rows).length

def size (c : Collections) (name : String) : Nat :=
  (c.rows name).length

/-- Adds a value to those seen, unless an equal one is there. -/
def addDistinct (seen : List Value) (v : Value) : List Value :=
  if seen.any fun other => other.same v then seen else seen ++ [v]

/-- The values that are reached at a field, with arrays replaced by their items. -/
def fieldValues (field : String) (d : Document) : List Value :=
  (d.reachAt field).flatMap fun v => v.items?.getD [v]

/-- The values of a field among the documents that meet the criteria, each once. -/
def distinct (c : Collections) (name field : String) (criteria : Criteria) :
    Outcome (List Value) :=
  match c.rows? name with
  | none => .ok []
  | some rows => do
    return ((← criteria.select rows).flatMap (fieldValues field)).foldl addDistinct []

def findById (c : Collections) (name : String) (id : Value) : Option Document :=
  let rows := c.rows name
  (positionOf? rows id).bind fun position => rows[position]?

/-- The rows of a pipeline and the collections afterwards.  A pipeline that writes has no rows. -/
def aggregate (c : Collections) (name : String) (pipeline : Pipeline) :
    Outcome (List Document × Collections) := do
  let rows ← pipeline.run c (c.rows name)
  match pipeline.sink? with
  | some sink => return ([], sink.apply c rows)
  | none => return (rows, c)

/-! ### Writing -/

/-- Adds a document whose identity is free. -/
def insertOne (c : Collections) (name : String) (d : Document) : Outcome Collections :=
  let rows := c.rows name
  match d.value? Item.idField with
  | some id =>
    if (positionOf? rows id).isSome then .error (.alreadyExists id.idLabel name)
    else .ok (c.store name (rows ++ [d]))
  | none => .ok (c.store name (rows ++ [d]))

/-- Puts a document in the place of the one with an identity, if there is one. -/
def replaceOne (c : Collections) (name : String) (id : Value) (d : Document) :
    Option Document × Collections :=
  let rows := c.rows name
  match positionOf? rows id with
  | some position => (some d, c.store name (rows.set position d))
  | none => (none, c)

/-- Applies an update to the document with an identity, if there is one. -/
def updateOne (c : Collections) (name : String) (id : Value) (u : Update) (now : Instant) :
    Outcome (Option Document × Collections) :=
  match c.findById name id with
  | some d => do return c.replaceOne name id (← u.apply now d)
  | none => .ok (none, c)

/-- Takes out the document with an identity, if there is one. -/
def deleteOne (c : Collections) (name : String) (id : Value) : Option Document × Collections :=
  let rows := c.rows name
  match positionOf? rows id with
  | some position => (rows[position]?, c.store name (rows.eraseIdx position))
  | none => (none, c)

/-! ### Collections as a whole -/

/-- Creates an empty collection; one that exists is left as it is. -/
def create (c : Collections) (name : String) : Collections :=
  if (c.rows? name).isSome then c else c.store name []

def drop (c : Collections) (name : String) : Outcome Collections :=
  if (c.rows? name).isSome then .ok (c.discard name) else .error (.collectionNotFound name)

/-- The names of all collections in alphabetical order. -/
def names (c : Collections) : List String :=
  stableSort (fun a b => a < b) (c.map Prod.fst)

end DocumentBase.Collections
