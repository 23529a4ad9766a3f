import DocumentBase.Error
import DocumentBase.Item
import DocumentBase.Sorting

/-!
# Joins

A join replaces the references in a field by the documents of another collection that they
point to: sorted, by their creation unless said otherwise, and limited in number.
-/

namespace DocumentBase

/-- An integer as a 64-bit value of a stage; it wraps around beyond the largest one. -/
def wideInteger (n : Nat) : Value :=
  .int64 (Int64.ofNat n)

def fieldExpression (field : String) : String :=
  "$" ++ field

structure Join where
  /-- The field that holds one reference or a list of them. -/
  field : String
  collection : String
  /-- The field of the other collection that references are compared with. -/
  foreign : String
  /-- Where the documents are stored. -/
  output : String
  limit : Nat
  sort : SortSpec
  /-- Where the number of references is stored. -/
  countField : Option String
  /-- Whether every row is to hold one document. -/
  unwound : Bool
deriving DecidableEq, Repr

namespace Join

/-- Joins references to identities, in place of the references. -/
def on (field collection : String) : Join :=
  { field
    collection
    foreign := Item.idField
    output := field
    limit := 50
    sort := SortSpec.empty.push Item.createdField .ascending
    countField := none
    unwound := false }

def validate (j : Join) : Outcome Unit := do
  checkField j.field
  checkField j.foreign
  checkField j.output
  match j.countField with
  | some field => checkField field
  | none => pure ()
  if Text.isBlank j.collection then throw (.validation .emptyJoinTarget)
  if j.limit = 0 then throw (.validation (.emptyJoin j.field))

/-- The references of a row as a list, a single one included. -/
def referenceList : Value :=
  .document [("$cond", .array
    [.document [("$isArray", .string "$$refs")], .string "$$refs", .array [.string "$$refs"]])]

def lookupBody (j : Join) : Document :=
  let selection := Value.document [("$match", .document [("$expr", .document
    [("$in", .array [.string (fieldExpression j.foreign), referenceList])])])]
  let sorting :=
    if j.sort.isEmpty then [] else [Value.document [("$sort", .document j.sort.render)]]
  let limiting := Value.document [("$limit", wideInteger j.limit)]
  [("from", .string j.collection),
    ("let", .document [("refs", .string (fieldExpression j.field))]),
    ("pipeline", .array ([selection] ++ sorting ++ [limiting])),
    ("as", .string j.output)]

def lengthExpression (j : Join) : Value :=
  let path := Value.string (fieldExpression j.field)
  .document [("$cond", .array
    [.document [("$isArray", path)], .document [("$size", path)], .int32 0])]

end Join

end DocumentBase
