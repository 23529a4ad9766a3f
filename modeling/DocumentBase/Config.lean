import DocumentBase.Record

/-!
# Configuration of a store

A configuration names the database and sizes pages and caches.  As a record it may be left
out, singly or at the end.  Caches measure time in whole seconds.
-/

namespace DocumentBase

structure StoreConfig where
  database : String
  defaultPageSize : Nat
  cacheTtlSeconds : Nat
  cacheSweepSeconds : Nat
  cacheCapacity : Nat
deriving DecidableEq, Repr

namespace StoreConfig

def default : StoreConfig :=
  { database := "default"
    defaultPageSize := 50
    cacheTtlSeconds := 60
    cacheSweepSeconds := 30
    cacheCapacity := 10000 }

instance : Inhabited StoreConfig := ⟨default⟩

def wholeSeconds (milliseconds : Nat) : Nat :=
  milliseconds / 1000

def withCacheTtl (c : StoreConfig) (milliseconds : Nat) : StoreConfig :=
  { c with cacheTtlSeconds := wholeSeconds milliseconds }

def withCacheSweepInterval (c : StoreConfig) (milliseconds : Nat) : StoreConfig :=
  { c with cacheSweepSeconds := wholeSeconds milliseconds }

/-- The database is checked first, then the page size, then the capacity. -/
def validate (c : StoreConfig) : Outcome Unit := do
  if Text.isBlank c.database then throw (.initialization .emptyDatabaseName)
  if c.defaultPageSize = 0 then throw (.initialization .zeroPageSize)
  if c.cacheCapacity = 0 then throw (.initialization .zeroCapacity)

/-- The fields of a configuration as a record. -/
def names : List String :=
  ["database", "defaultPageSize", "cacheTtlSecs", "cacheSweepIntervalSecs", "cacheCapacity"]

def ofJson (json : Json) : Outcome StoreConfig := do
  let record ← json.recordMembers names
  let word (name : String) (otherwise : Nat) : Outcome Nat := do
    return (← Json.fieldAs Json.word? record name).getD otherwise
  return {
    database := (← Json.fieldAs Json.text? record "database").getD default.database
    defaultPageSize := ← word "defaultPageSize" default.defaultPageSize
    cacheTtlSeconds := ← word "cacheTtlSecs" default.cacheTtlSeconds
    cacheSweepSeconds := ← word "cacheSweepIntervalSecs" default.cacheSweepSeconds
    cacheCapacity := ← word "cacheCapacity" default.cacheCapacity }

def toJson (c : StoreConfig) : Json :=
  .object
    [("database", .string c.database), ("defaultPageSize", .integer c.defaultPageSize),
      ("cacheTtlSecs", .integer c.cacheTtlSeconds),
      ("cacheSweepIntervalSecs", .integer c.cacheSweepSeconds),
      ("cacheCapacity", .integer c.cacheCapacity)]

end StoreConfig

end DocumentBase
