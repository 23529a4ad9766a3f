import DocumentBase.Predicate.Evaluation
import DocumentBase.Stage
import DocumentBase.Number.Width

/-!
# Running pipelines

Stages run one after the other over a list of rows; lookups read other collections.  A
pipeline that writes produces a sink beside its rows: what is to be done with them is
decided by its last writing stage.
-/

namespace DocumentBase

/-- Collections by name, in the order of their creation. -/
abbrev Collections := List (String × List Document)

namespace Collections

def rows? : Collections → String → Option (List Document)
  | [], _ => none
  | (name, rows) :: rest, wanted => if name = wanted then some rows else rows? rest wanted

/-- The documents of a collection; a missing collection is empty. -/
def rows (c : Collections) (name : String) : List Document :=
  (c.rows? name).getD []

/-- Makes the documents of a collection what is given. -/
def store : Collections → String → List Document → Collections
  | [], name, rows => [(name, rows)]
  | (other, old) :: rest, name, rows =>
    if other = name then (other, rows) :: rest else (other, old) :: store rest name rows

def discard (c : Collections) (name : String) : Collections :=
  c.filter fun entry => entry.1 ≠ name

@[simp]
theorem rows?_store_self (c : Collections) (name : String) (rows : List Document) :
    (c.store name rows).rows? name = some rows := by
  induction c with
  | nil => simp [store, rows?]
  | cons entry rest ih =>
    obtain ⟨other, old⟩ := entry
    by_cases h : other = name <;> simp [store, rows?, h, ih]

theorem rows?_store_ne (c : Collections) {name other : String} (rows : List Document)
    (h : name ≠ other) : (c.store name rows).rows? other = c.rows? other := by
  induction c with
  | nil => simp [store, rows?, h]
  | cons entry rest ih =>
    obtain ⟨first, old⟩ := entry
    by_cases hf : first = name
    · subst hf
      simp [store, rows?, h]
    · simp [store, rows?, hf, ih]

end Collections

/-! ### Accumulators -/

namespace Accumulator

/-- A sum of integers in 64 bits; once it overflows it stays without a value. -/
def addInteger (sum : Option Int) (n : Int) : Option Int :=
  sum.bind fun sum =>
    if fits64 (sum + n) then some (sum + n) else none

/-- A sum while it is being formed: the exact one as long as there is one, and the one in
doubles.  -/
structure Sum where
  exact : Option Int
  /-- Whether a wide integer was added. -/
  wide : Bool
  double : Double

def Sum.zero : Sum := ⟨some 0, false, Double.zero⟩

/-- Adds a number; other values do not count. -/
def Sum.add (s : Sum) (v : Value) : Sum :=
  match v with
  | .int32 n =>
    ⟨addInteger s.exact n.toInt, s.wide, s.double + Double.ofInt n.toInt⟩
  | .int64 n =>
    ⟨addInteger s.exact n.toInt, true, s.double + Double.ofInt n.toInt⟩
  | .double x => ⟨none, s.wide, s.double + x⟩
  | _ => s

/-- An integer in 32 bits if it fits, and in 64 otherwise. -/
def narrow (n : Int) : Value :=
  if fits32 n then .int32 (Int32.ofInt n) else .int64 (Int64.ofInt n)

def Sum.value (s : Sum) : Value :=
  match s.exact with
  | some n => if s.wide then .int64 (Int64.ofInt n) else narrow n
  | none => .double s.double

def sumOf (values : List Value) : Value :=
  (values.foldl Sum.add Sum.zero).value

def meanOf (values : List Value) : Value :=
  match values.filterMap Value.number? with
  | [] => .null
  | first :: rest =>
    .double (rest.foldl (· + ·) first / Double.ofInt (rest.length + 1))

def isNull : Value → Bool
  | .null => true
  | _ => false

/-- The first value that no later one passes in the wanted direction.  Null does not count. -/
def extremeOf (wanted : Ordering) (values : List Value) : Value :=
  match values.filter fun v => !isNull v with
  | [] => .null
  | first :: rest =>
    rest.foldl (fun best v => if v.sortCompare best == wanted then v else best) first

/-- What an accumulator makes of the rows of a group. -/
def apply (members : List Document) : Accumulator → Value
  | .avg field => meanOf (members.filterMap fun d => d.at? field)
  | .min field => extremeOf .lt (members.filterMap fun d => d.at? field)
  | .max field => extremeOf .gt (members.filterMap fun d => d.at? field)
  | .sum field => sumOf (members.filterMap fun d => d.at? field)
  | .count => narrow members.length
  | .firstRow => (members.head?.map Value.document).getD .null

end Accumulator

/-! ### Groups -/

namespace GroupKey

def ofRow (key : GroupKey) (row : Document) : Value :=
  match key with
  | .all => .null
  | .single field => (row.at? field).getD .null
  | .compound names =>
    .document (Document.ofFields
      (names.filterMap fun name => (row.at? name).map fun v => (name, v)))

end GroupKey

namespace GroupSpec

/-- Groups in the order of their first rows, each with its key. -/
abbrev Groups := List (Value × List Document)

/-- Puts a row into the group of its key, or into a new one. -/
def place (row : Document) (key : Value) : Groups → Groups
  | [] => [(key, [row])]
  | (existing, members) :: rest =>
    if existing.same key then (existing, members ++ [row]) :: rest
    else (existing, members) :: place row key rest

def groups (g : GroupSpec) (rows : List Document) : Groups :=
  rows.foldl (fun groups row => place row (g.key.ofRow row) groups) []

/-- The row that a group is summed up in. -/
def summary (g : GroupSpec) (key : Value) (members : List Document) : Document :=
  g.accumulators.foldl (fun d (name, accumulator) => d.put name (accumulator.apply members))
    [(Item.idField, key)]

def run (g : GroupSpec) (rows : List Document) : List Document :=
  (g.groups rows).map fun (key, members) => g.summary key members

end GroupSpec

/-! ### Stages that change rows -/

namespace Projection

def startRow (fields : List String) (row : Document) : Document :=
  if fields.contains Item.idField then []
  else
    match row.value? Item.idField with
    | some id => [(Item.idField, id)]
    | none => []

def run (projection : Projection) (row : Document) : Document :=
  match projection with
  | .keep fields =>
    fields.foldl
      (fun kept field =>
        match row.at? field with
        | some v => kept.setAt field v
        | none => kept)
      (startRow fields row)
  | .drop fields => fields.foldl Document.removeAt row

end Projection

namespace Join

def references (j : Join) (row : Document) : List Value :=
  match row.at? j.field with
  | some (.array items) => items
  | some v => [v]
  | none => []

/-- Whether a document is one of those referred to. -/
def accepts (j : Join) (references : List Value) (target : Document) : Bool :=
  (target.reachAt j.foreign).any fun v => references.any fun reference => v.same reference

def attached (j : Join) (targets : List Document) (row : Document) : List Document :=
  (j.sort.sort (targets.filter (j.accepts (j.references row)))).take j.limit

def run (j : Join) (targets : List Document) (row : Document) : Document :=
  row.setAt j.output (.array ((j.attached targets row).map Value.document))

/-- The number of references of a row, 0 when there is no array. -/
def referenceCount (j : Join) (row : Document) : Value :=
  match row.at? j.field with
  | some (.array items) => .int32 (Int32.ofNat items.length)
  | _ => .int32 0

end Join

/-- One row for each item of an array.  A row without items stays, without an empty array. -/
def unwindRow (path : String) (row : Document) : List Document :=
  match row.at? path with
  | some (.array []) => [row.removeAt path]
  | some (.array items) => items.map fun item => row.setAt path item
  | _ => [row]

/-! ### Pipelines -/

/-- What becomes of the rows of a pipeline that writes. -/
inductive Sink where
  | replace (collection : String)
  | merge (collection : String)
deriving DecidableEq, Repr

namespace Stage

def run (collections : Collections) (s : Stage) (rows : List Document) :
    Outcome (List Document) :=
  match s with
  | .select criteria => criteria.select rows
  | .sort spec => .ok (spec.sort rows)
  | .group spec => .ok (spec.run rows)
  | .project projection => .ok (rows.map projection.run)
  | .referenceLength fields =>
    .ok (rows.map fun row =>
      fields.foldl (fun row (output, join) => row.setAt output (join.referenceCount row)) row)
  | .lookup join => .ok (rows.map (join.run (collections.rows join.collection)))
  | .unwind path => .ok (rows.flatMap (unwindRow path))
  | .skip n => .ok (rows.drop n)
  | .limit n => .ok (rows.take n)
  | .count field =>
    .ok (if rows.isEmpty then [] else [[(field, .int32 (Int32.ofNat rows.length))]])
  | .out _ => .ok rows
  | .merge _ => .ok rows

def sink? : Stage → Option Sink
  | .out collection => some (.replace collection)
  | .merge collection => some (.merge collection)
  | _ => none

end Stage

namespace Pipeline

def run (collections : Collections) : Pipeline → List Document → Outcome (List Document)
  | [], rows => .ok rows
  | stage :: rest, rows => do
    let rows ← stage.run collections rows
    run collections rest rows

/-- What the last writing stage asks for. -/
def sink? (p : Pipeline) : Option Sink :=
  (p.filterMap Stage.sink?).getLast?

end Pipeline

/-- The place of the document with an identity. -/
def positionOf? (rows : List Document) (id : Value) : Option Nat :=
  rows.findIdx? fun d => (d.value? Item.idField).any fun other => other.same id

/-- Stores a row over the document with its identity, or at the end. -/
def upsertRow (documents : List Document) (row : Document) : List Document :=
  match (row.value? Item.idField).bind (positionOf? documents) with
  | some position => documents.set position row
  | none => documents ++ [row]

namespace Sink

def apply (collections : Collections) (rows : List Document) : Sink → Collections
  | .replace collection => collections.store collection rows
  | .merge collection =>
    collections.store collection (rows.foldl upsertRow (collections.rows collection))

end Sink

end DocumentBase
