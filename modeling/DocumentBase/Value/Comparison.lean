import DocumentBase.Value

/-!
# Comparing values

Numbers of every width are compared as doubles, and only values of one kind compare at all.
`same` is equality for filters, identities and group keys: arrays item by item, documents as
maps from keys to values.  `sortCompare` orders all values for sorting: the kinds by rank,
then the values of a kind where they have an order.
-/

namespace DocumentBase.Value

/-- What a value counts as in comparisons.  Types without an order of their own count as null. -/
inductive Kind where
  | null
  | number
  | text
  | document
  | array
  | bool
  | date
deriving DecidableEq, Repr

/-- The order of the kinds in a sort. -/
def Kind.rank : Kind → Nat
  | .null => 0
  | .number => 1
  | .text => 2
  | .document => 3
  | .array => 4
  | .bool => 5
  | .date => 6

def kind : Value → Kind
  | .int32 _ | .int64 _ | .double _ => .number
  | .string _ => .text
  | .document _ => .document
  | .array _ => .array
  | .bool _ => .bool
  | .date _ => .date
  | _ => .null

def number? : Value → Option Double
  | .int32 n => some (Double.ofInt n.toInt)
  | .int64 n => some (Double.ofInt n.toInt)
  | .double x => some x
  | _ => none

/-- An integer of either width. -/
def integer? : Value → Option Int
  | .int32 n => some n.toInt
  | .int64 n => some n.toInt
  | _ => none

/-- Equality of values that hold no other values. -/
def sameScalar : Value → Value → Bool
  | .bool a, .bool b => a == b
  | .string a, .string b => a == b
  | .date a, .date b => a == b
  | v, w =>
    match v.number?, w.number? with
    | some x, some y => x.same y
    | _, _ => v.kind == .null && w.kind == .null

mutual

/-- Equality of values.  A NaN is equal to nothing, not even to itself. -/
def same : Value → Value → Bool
  | .array a, .array b => sameItems a b
  | .document a, .document b => sameFields [] a b && (Document.keys b).all (Document.has a)
  | v, w => sameScalar v w
termination_by structural v _ => v

def sameItems : List Value → List Value → Bool
  | [], [] => true
  | v :: vs, w :: ws => same v w && sameItems vs ws
  | _, _ => false
termination_by structural vs _ => vs

/-- Every field has an equal value under its key in the other document.  A key that was
passed before is shadowed. -/
def sameFields (passed : List String) : List (String × Value) → Document → Bool
  | [], _ => true
  | (key, v) :: rest, other =>
    (passed.contains key ||
      match other.value? key with
      | some w => same v w
      | none => false)
    && sameFields (key :: passed) rest other
termination_by structural fields _ => fields

end

/-- The order of two values inside a kind, where it has one. -/
def compare? : Value → Value → Option Ordering
  | .bool a, .bool b => some (compare a b)
  | .string a, .string b => some (compare a b)
  | .date a, .date b => some (compare a b)
  | v, w =>
    match v.number?, w.number? with
    | some x, some y => x.compare? y
    | _, _ => none

/-- The order of a sort.  Values of one kind without an order between them are tied. -/
def sortCompare (v w : Value) : Ordering :=
  (compare v.kind.rank w.kind.rank).then ((v.compare? w).getD .eq)

theorem kind_eq_number_iff (v : Value) : v.kind = .number ↔ v.number?.isSome := by
  cases v <;> simp [kind, number?]

end DocumentBase.Value
