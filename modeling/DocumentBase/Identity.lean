import DocumentBase.Error

/-!
# Acting identities

An operation may act as somebody: new items belong to that identity, and owned reads see
only its items.  Reads accept a visitor, writes do not.
-/

namespace DocumentBase

structure Identity where
  id : String
  roles : List String
deriving DecidableEq, Repr

/-- Finds the acting identity, given whether a visitor will do. -/
abbrev IdentityProvider := Bool → Outcome (Option Identity)

namespace IdentityProvider

def anonymous : IdentityProvider := fun _ => .ok none

def fixed (identity : Identity) : IdentityProvider := fun _ => .ok (some identity)

/-- An identity for those operations only that accept a visitor. -/
def visitor (identity : Identity) : IdentityProvider := fun acceptsVisitor =>
  .ok (if acceptsVisitor then some identity else none)

def failing (e : Error) : IdentityProvider := fun _ => .error e

end IdentityProvider

end DocumentBase
