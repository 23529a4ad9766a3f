/-!
# Text patterns

The syntax trees of patterns, as `regex-lite` has them.  A class holds the characters of its ranges,
or all others; when case is ignored a letter of the ASCII alphabet belongs to a class as soon as its
other case does.

Patterns of any size are accepted: the limit on the size of a compiled pattern is left out, and so
are the texts of the errors about a text that is no pattern.
-/

namespace DocumentBase

/-- A part of a class. -/
inductive ClassItem where
  /-- The code points from `first` to `last`. -/
  | range (first last : Nat)
  /-- The code points outside of all the ranges. -/
  | outside (ranges : List (Nat × Nat))
deriving DecidableEq, Repr

def ClassItem.contains (code : Nat) : ClassItem → Bool
  | .range first last => first ≤ code && code ≤ last
  | .outside ranges => ranges.all fun (first, last) => code < first || last < code

structure CharClass where
  items : List ClassItem
  negated : Bool := false
  ignoreCase : Bool := false
deriving DecidableEq, Repr

/-- The other case of an ASCII letter. -/
def otherCase (c : Char) : Char :=
  if c.isUpper then c.toLower else if c.isLower then c.toUpper else c

namespace CharClass

def lists (items : List ClassItem) (c : Char) : Bool :=
  items.any (ClassItem.contains c.toNat)

def contains (k : CharClass) (c : Char) : Bool :=
  (lists k.items c || (k.ignoreCase && lists k.items (otherCase c))) != k.negated

def single (c : Char) (ignoreCase : Bool) : CharClass :=
  { items := [.range c.toNat c.toNat], ignoreCase }

end CharClass

/-- A condition on a place between two characters. -/
inductive Boundary where
  | textStart
  | textEnd
  | lineStart
  | lineEnd
  /-- Lines that end in a carriage return, a newline, or both in this order. -/
  | anyLineStart
  | anyLineEnd
  | word
  | noWord
  | wordStart
  | wordEnd
  | wordStartHalf
  | wordEndHalf
deriving DecidableEq, Repr

inductive Pattern where
  | empty
  | one (k : CharClass)
  | boundary (b : Boundary)
  | group (p : Pattern)
  | repeated (p : Pattern) (least : Nat) (most : Option Nat)
  | sequence (ps : List Pattern)
  | choice (ps : List Pattern)
deriving Repr, Inhabited

namespace Pattern

/-- A sequence without needless nesting. -/
def ofSequence : List Pattern → Pattern
  | [] => .empty
  | [p] => p
  | ps => .sequence ps

/-- A choice without needless nesting. -/
def ofChoice : List Pattern → Pattern
  | [p] => p
  | ps => .choice ps

mutual

/-- How deep a pattern is nested. -/
def height : Pattern → Nat
  | .group p => p.height + 1
  | .repeated p _ _ => p.height + 1
  | .sequence ps => heights ps + 1
  | .choice ps => heights ps + 1
  | _ => 0
termination_by structural p => p

def heights : List Pattern → Nat
  | [] => 0
  | p :: ps => max p.height (heights ps)
termination_by structural ps => ps

end

end Pattern

end DocumentBase
