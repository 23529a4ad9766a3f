import DocumentBase.Json.Extended
import DocumentBase.Error
import DocumentBase.Number.Width

/-!
# Items

A stored document is an item: it has an identity, the dates of its creation and last change,
and the owner who created it if one is known.  A new item is stamped with all four; a
replacement takes over what the stored item has under the protected fields, absence
included.
-/

namespace DocumentBase

namespace Item

def idField : String := "_id"

def createdField : String := "_createdDate"

def updatedField : String := "_updatedDate"

def ownerField : String := "_owner"

/-- The fields that no change of an item may touch. -/
def protectedFields : List String := [idField, createdField, ownerField]

/-- Stamps a new item; `fresh` becomes its identity if it has none. -/
def stampNew (item : Document) (fresh : Value) (owner : Option String) (now : Instant) :
    Document :=
  let item := if item.has idField then item else item.put idField fresh
  let item := (item.put createdField (.date now)).put updatedField (.date now)
  match owner with
  | some owner => item.put ownerField (.string owner)
  | none => item.without ownerField

/-- Gives a document what another one has under `field`, be it nothing. -/
def inherit (existing replacement : Document) (field : String) : Document :=
  match existing.value? field with
  | some value => replacement.put field value
  | none => replacement.without field

/-- Stamps the replacement of a stored item. -/
def stampReplacement (replacement existing : Document) (now : Instant) : Document :=
  (protectedFields.foldl (inherit existing) replacement).put updatedField (.date now)

end Item

namespace Value

def maxWord : Nat := wordBound - 1

/-- A number as a count: not negative, without its fraction, at most the largest word. -/
def count? : Value → Option Nat
  | .int32 n => if 0 ≤ n.toInt then some n.toInt.toNat else none
  | .int64 n => if 0 ≤ n.toInt then some n.toInt.toNat else none
  | .double x =>
    if x.isNaN || x.place < 0 then none
    else if !x.isFinite then some maxWord
    else some (min maxWord x.wholePart)
  | _ => none

end Value

namespace Json

/-- The document that a JSON object stores. -/
def toDocument (json : Json) : Outcome Document :=
  match json.toValue? with
  | some (.document fields) => .ok fields
  | some other => .error (.invalidDocument (.notADocument other.typeName))
  | none => .error (.serialization "integer out of range")

end Json

end DocumentBase
