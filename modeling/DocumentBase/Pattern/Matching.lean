import DocumentBase.Pattern

/-!
# Matching

A pattern carries a set of places in a text, where a match may begin, to the set of places
where it may end.  Sets are increasing lists of indices, so a repetition can stop as soon as
nothing new is reached.  A text matches when the pattern carries the set of all its places
to a set that is not empty.
-/

namespace DocumentBase

/-- Adds a place to an increasing list. -/
def insertPlace (place : Nat) : List Nat → List Nat
  | [] => [place]
  | first :: rest =>
    if place < first then place :: first :: rest
    else if place = first then first :: rest
    else first :: insertPlace place rest

def unionPlaces (left right : List Nat) : List Nat :=
  right.foldl (fun places place => insertPlace place places) left

/-- Takes a step `count` times, or until it changes nothing. -/
def stepExactly (step : List Nat → List Nat) : Nat → List Nat → List Nat
  | 0, places => places
  | count + 1, places =>
    let next := step places
    if next = places then places else stepExactly step count next

/-- All places reached from `newest` in up to `count` steps, on top of those `seen`. -/
def stepUpTo (step : List Nat → List Nat) : Nat → List Nat → List Nat → List Nat
  | 0, seen, _ => seen
  | count + 1, seen, newest =>
    let fresh := (step newest).filter fun place => !seen.contains place
    if fresh.isEmpty then seen
    else stepUpTo step count (unionPlaces seen fresh) fresh

/-- Letters and digits of ASCII and the underscore. -/
def isWordChar (c : Char) : Bool :=
  c.isAlphanum || c = '_'

namespace Boundary

/-- Whether a boundary lies between two characters; at an end of the text there is none. -/
def between (b : Boundary) (before after : Option Char) : Bool :=
  let wordBefore := before.any isWordChar
  let wordAfter := after.any isWordChar
  match b with
  | .textStart => before.isNone
  | .textEnd => after.isNone
  | .lineStart => before.isNone || before = some '\n'
  | .lineEnd => after.isNone || after = some '\n'
  | .anyLineStart =>
    before.isNone || before = some '\n' || (before = some '\r' && after ≠ some '\n')
  | .anyLineEnd =>
    after.isNone || after = some '\r' || (after = some '\n' && before ≠ some '\r')
  | .word => wordBefore != wordAfter
  | .noWord => wordBefore == wordAfter
  | .wordStart => !wordBefore && wordAfter
  | .wordEnd => wordBefore && !wordAfter
  | .wordStartHalf => !wordBefore
  | .wordEndHalf => !wordAfter

def holds (b : Boundary) (text : Array Char) (place : Nat) : Bool :=
  b.between (if place = 0 then none else text[place - 1]?) text[place]?

end Boundary

namespace Pattern

mutual

/-- Where a match may end that begins at one of the places. -/
def ends (text : Array Char) : Pattern → List Nat → List Nat
  | .empty, places => places
  | .one k, places =>
    places.filterMap fun place =>
      match text[place]? with
      | some c => if k.contains c then some (place + 1) else none
      | none => none
  | .boundary b, places => places.filter (b.holds text)
  | .group p, places => ends text p places
  | .repeated p least most, places =>
    let start := stepExactly (ends text p) least places
    let more := match most with
      | some most => most - least
      | none => text.size + 1
    stepUpTo (ends text p) more start start
  | .sequence ps, places => endsInTurn text ps places
  | .choice ps, places => endsOfAny text ps places
termination_by structural p => p

def endsInTurn (text : Array Char) : List Pattern → List Nat → List Nat
  | [], places => places
  | p :: ps, places => endsInTurn text ps (ends text p places)
termination_by structural ps => ps

def endsOfAny (text : Array Char) : List Pattern → List Nat → List Nat
  | [], _ => []
  | p :: ps, places => unionPlaces (ends text p places) (endsOfAny text ps places)
termination_by structural ps => ps

end

def occursIn (p : Pattern) (text : String) : Bool :=
  let chars := text.toList.toArray
  !(p.ends chars (List.range (chars.size + 1))).isEmpty

end Pattern

end DocumentBase
