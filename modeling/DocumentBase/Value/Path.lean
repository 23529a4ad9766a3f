import DocumentBase.Number.Reading
import DocumentBase.Value
import DocumentBase.Number.Width

/-!
# Paths

A dotted path names a field inside nested documents.  `get?`, `set` and `remove` descend
through documents only; `set` replaces whatever else it meets on the way by a new document.
`reach` also enters arrays, by index and through each of their documents, and collects every
value that it arrives at.
-/

namespace DocumentBase

/-- The segments of a dotted path. -/
abbrev Path := List String

namespace Path

/-- Cuts a list of characters at every dot; there is one segment more than dots. -/
def segments : List Char → List (List Char)
  | [] => [[]]
  | c :: rest =>
    if c = '.' then [] :: segments rest
    else
      match segments rest with
      | [] => [[c]]
      | first :: others => (c :: first) :: others

def ofString (text : String) : Path :=
  (segments text.toList).map String.ofList

/-- A segment as the index of an array item: a decimal numeral that fits into 64 bits, with
a plus sign in front or none. -/
def index? (segment : String) : Option Nat :=
  let digits := match segment.toList with
    | '+' :: rest => rest
    | text => text
  (decimalDigits? digits).filter (· < wordBound)

theorem segments_ne_nil (text : List Char) : segments text ≠ [] := by
  cases text with
  | nil => simp [segments]
  | cons c rest =>
    rw [segments]
    split
    · simp
    · split <;> simp

theorem ofString_ne_nil (text : String) : ofString text ≠ [] := by
  simp [ofString, segments_ne_nil]

end Path

namespace Document

/-- The document at `key`, or an empty one when there is something else or nothing. -/
def child (d : Document) (key : String) : Document :=
  match d.value? key with
  | some (.document fields) => fields
  | _ => []

def get? : Path → Document → Option Value
  | [], _ => none
  | [key], d => d.value? key
  | key :: rest, d =>
    match d.value? key with
    | some (.document fields) => get? rest fields
    | _ => none

def set (value : Value) : Path → Document → Document
  | [], d => d
  | [key], d => d.put key value
  | key :: rest, d => d.put key (.document (set value rest (d.child key)))

/-- Takes the value at a path out of a document. -/
def remove : Path → Document → Option Value × Document
  | [], d => (none, d)
  | [key], d => (d.value? key, d.without key)
  | key :: rest, d =>
    match d.value? key with
    | some (.document fields) =>
      let (removed, remaining) := remove rest fields
      (removed, d.put key (.document remaining))
    | _ => (none, d)

end Document

namespace Value

/-- The values at a path below a value.  An array is entered by index when the segment
is a numeral, and through each of its documents. -/
def reach : Path → Value → List Value
  | [], v => [v]
  | key :: rest, .document fields => ((Document.value? fields key).map (reach rest)).getD []
  | key :: rest, .array items =>
    let indexed := (Path.index? key).bind fun i => items[i]?
    (indexed.map (reach rest)).getD [] ++
      items.flatMap fun item =>
        match item with
        | .document fields => ((Document.value? fields key).map (reach rest)).getD []
        | _ => []
  | _ :: _, _ => []

end Value

namespace Document

/-- The values at a path of a document. -/
def reach (path : Path) (d : Document) : List Value :=
  Value.reach path (.document d)

def at? (d : Document) (path : String) : Option Value :=
  d.get? (Path.ofString path)

def setAt (d : Document) (path : String) (value : Value) : Document :=
  d.set value (Path.ofString path)

def removeAt (d : Document) (path : String) : Document :=
  (d.remove (Path.ofString path)).2

def reachAt (d : Document) (path : String) : List Value :=
  d.reach (Path.ofString path)

end Document

end DocumentBase
