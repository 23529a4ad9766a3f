import DocumentBase.Value.Comparison
import DocumentBase.Value.Path

/-!
# Sorting

A list is sorted by inserting its items one after the other behind the last item that they
do not come before, so items that are tied keep their order.  Documents are compared key by
key; a document without a value at a key counts as having null there.
-/

namespace DocumentBase

/-- Inserts an item into a sorted list that is given from its end. -/
def insertFromEnd {α : Type} (before : α → α → Bool) (x : α) : List α → List α
  | [] => [x]
  | y :: ys => if before x y then y :: insertFromEnd before x ys else x :: y :: ys

/-- Sorts a list and keeps the order of tied items. -/
def stableSort {α : Type} (before : α → α → Bool) (xs : List α) : List α :=
  (xs.foldl (fun sorted x => insertFromEnd before x sorted) []).reverse

theorem perm_insertFromEnd {α : Type} (before : α → α → Bool) (x : α) (ys : List α) :
    (insertFromEnd before x ys).Perm (x :: ys) := by
  induction ys with
  | nil => exact .refl _
  | cons y ys ih =>
    rw [insertFromEnd]
    split
    · exact (ih.cons y).trans (.swap x y ys)
    · exact .refl _

theorem perm_stableSort {α : Type} (before : α → α → Bool) (xs : List α) :
    (stableSort before xs).Perm xs := by
  have step : ∀ (xs acc : List α),
      (xs.foldl (fun sorted x => insertFromEnd before x sorted) acc).Perm (xs.reverse ++ acc) := by
    intro xs
    induction xs with
    | nil => exact fun acc => .refl _
    | cons x xs ih =>
      intro acc
      refine (ih _).trans ?_
      simpa using (perm_insertFromEnd before x acc).append_left xs.reverse
  exact (List.reverse_perm _).trans ((step xs []).trans (by simp))

inductive Direction where
  | ascending
  | descending
deriving DecidableEq, Repr

namespace Direction

/-- The number that stands for a direction in a stage. -/
def sign : Direction → Int32
  | .ascending => 1
  | .descending => -1

/-- The order of two values as seen in this direction. -/
def apply : Direction → Ordering → Ordering
  | .ascending, order => order
  | .descending, order => order.swap

end Direction

/-- The fields to sort by, the most important one first. -/
structure SortSpec where
  keys : List (String × Direction)
deriving DecidableEq, Repr, Inhabited

namespace SortSpec

def empty : SortSpec := ⟨[]⟩

def isEmpty (s : SortSpec) : Bool :=
  s.keys.isEmpty

/-- Adds a key, or changes the direction of a key in its place. -/
def push (s : SortSpec) (field : String) (direction : Direction) : SortSpec :=
  if s.keys.any (·.1 = field) then
    ⟨s.keys.map fun key => if key.1 = field then (field, direction) else key⟩
  else ⟨s.keys ++ [(field, direction)]⟩

def render (s : SortSpec) : Document :=
  Document.ofFields (s.keys.map fun (field, direction) => (field, .int32 direction.sign))

def sortValue (d : Document) (field : String) : Value :=
  (d.at? field).getD .null

def compareKeys (left right : Document) : List (String × Direction) → Ordering
  | [] => .eq
  | (field, direction) :: rest =>
    (direction.apply ((sortValue left field).sortCompare (sortValue right field))).then
      (compareKeys left right rest)

def compare (s : SortSpec) (left right : Document) : Ordering :=
  compareKeys left right s.keys

def sort (s : SortSpec) (documents : List Document) : List Document :=
  stableSort (fun left right => s.compare left right == .lt) documents

end SortSpec

end DocumentBase
