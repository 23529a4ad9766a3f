import DocumentBase.Item

/-!
# Pages

A page is a stretch of the rows of a result.  Pages are counted from 1, and rows that are
skipped explicitly come before page 1, so pages below 1 may hold some of them.
-/

namespace DocumentBase

structure Page where
  number : Int
  size : Nat
  skip : Nat
deriving DecidableEq, Repr, Inhabited

namespace Page

/-- A page of at least one row. -/
def of (number : Int) (size skip : Nat) : Page :=
  ⟨number, max size 1, skip⟩

/-- The number of rows before a page, kept within the range of a word. -/
def offset (p : Page) : Nat :=
  (max 0 (min (p.skip + (p.number - 1) * p.size) (Value.maxWord : Int))).toNat

/-- Whether rows remain after a page. -/
def hasNext (p : Page) (total : Nat) : Bool :=
  min (p.offset + p.size) Value.maxWord < total

/-- Whether there are rows for a full page before this one. -/
def hasPrev (p : Page) : Bool :=
  p.size ≤ p.offset

/-- How many pages all the rows fill. -/
def totalPages (p : Page) (total : Nat) : Nat :=
  (total + p.size - 1) / p.size

def next (p : Page) : Page :=
  { p with number := p.number + 1 }

/-- The page before, or the same one when there is no full page before it. -/
def prev (p : Page) : Page :=
  if p.hasPrev then { p with number := p.number - 1 } else p

end Page

end DocumentBase
