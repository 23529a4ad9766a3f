import DocumentBase.Record

/-!
# Options of an operation

Every operation runs with options.  As a record they may be left out, singly or at the end.
-/

namespace DocumentBase

structure OperationOptions where
  suppressHooks : Bool
  /-- The operation has no acting identity. -/
  suppressAuth : Bool
  consistentRead : Bool
  useCache : Bool
  /-- Totals are counted and not estimated. -/
  exactCount : Bool
  /-- Reads see only items of the acting identity. -/
  onlyOwned : Bool
  /-- A collection is released as soon as the operation is done with it. -/
  eagerCleanup : Bool
deriving DecidableEq, Repr

namespace OperationOptions

def default : OperationOptions :=
  { suppressHooks := false
    suppressAuth := false
    consistentRead := false
    useCache := false
    exactCount := true
    onlyOwned := false
    eagerCleanup := false }

instance : Inhabited OperationOptions := ⟨default⟩

def names : List String :=
  ["suppressHooks", "suppressAuth", "consistentRead", "useCache", "exactCount", "onlyOwned",
    "eagerCleanup"]

def ofJson (json : Json) : Outcome OperationOptions := do
  let record ← json.recordMembers names
  let flag (name : String) (otherwise : Bool) : Outcome Bool := do
    return (← Json.fieldAs Json.bool? record name).getD otherwise
  return {
    suppressHooks := ← flag "suppressHooks" default.suppressHooks
    suppressAuth := ← flag "suppressAuth" default.suppressAuth
    consistentRead := ← flag "consistentRead" default.consistentRead
    useCache := ← flag "useCache" default.useCache
    exactCount := ← flag "exactCount" default.exactCount
    onlyOwned := ← flag "onlyOwned" default.onlyOwned
    eagerCleanup := ← flag "eagerCleanup" default.eagerCleanup }

def toJson (o : OperationOptions) : Json :=
  .object
    [("suppressHooks", .bool o.suppressHooks), ("suppressAuth", .bool o.suppressAuth),
      ("consistentRead", .bool o.consistentRead), ("useCache", .bool o.useCache),
      ("exactCount", .bool o.exactCount), ("onlyOwned", .bool o.onlyOwned),
      ("eagerCleanup", .bool o.eagerCleanup)]

end OperationOptions

end DocumentBase
