import DocumentBase.Error
import DocumentBase.Value

/-!
# Result caches

A cache keeps values under keys until they expire.  Expired entries are dropped when they
are read, and by a sweep that runs with writes: when the cache is full, or when the last
sweep is long enough ago.  Moments are readings of a clock that never goes back.
-/

namespace DocumentBase

structure CacheEntry where
  value : Value
  /-- The first moment at which the entry has expired. -/
  expires : Nat

structure ResultCache where
  /-- How long a value lives unless said otherwise. -/
  ttl : Nat
  sweepInterval : Nat
  capacity : Nat
  /-- Entries with different keys, the oldest key first. -/
  entries : List (String × CacheEntry)
  lastSweep : Nat

namespace ResultCache

def empty (ttl sweepInterval capacity now : Nat) : ResultCache :=
  { ttl, sweepInterval, capacity, entries := [], lastSweep := now }

/-- The entry under a key, expired or not. -/
def entry? (c : ResultCache) (key : String) : Option CacheEntry :=
  c.entries.lookup key

/-- The number of entries, with those that have expired and were not dropped yet. -/
def size (c : ResultCache) : Nat :=
  c.entries.length

def isEmpty (c : ResultCache) : Bool :=
  c.entries.isEmpty

def drop (c : ResultCache) (key : String) : ResultCache :=
  { c with entries := c.entries.filter fun entry => entry.1 ≠ key }

/-- Reads a key, and drops its entry if it has expired. -/
def get (c : ResultCache) (key : String) (now : Nat) : Option Value × ResultCache :=
  match c.entry? key with
  | none => (none, c)
  | some entry => if now < entry.expires then (some entry.value, c) else (none, c.drop key)

/-- Drops all expired entries. -/
def sweep (c : ResultCache) (now : Nat) : ResultCache :=
  { c with
    entries := c.entries.filter fun entry => now < entry.2.expires
    lastSweep := now }

/-- Drops all expired entries and counts them. -/
def evictExpired (c : ResultCache) (now : Nat) : Nat × ResultCache :=
  let swept := c.sweep now
  (c.size - swept.size, swept)

/-- Whether there is no room for a key. -/
def isFullFor (c : ResultCache) (key : String) : Bool :=
  c.capacity ≤ c.size && (c.entry? key).isNone

/-- Puts an entry in the place of the one with its key, or at the end. -/
def place (entries : List (String × CacheEntry)) (key : String) (entry : CacheEntry) :
    List (String × CacheEntry) :=
  match entries with
  | [] => [(key, entry)]
  | (other, old) :: rest =>
    if other = key then (key, entry) :: rest else (other, old) :: place rest key entry

/-- Stores a value for a while.  This fails if the cache is full of other entries even after a
sweep.  -/
def setFor (c : ResultCache) (key : String) (value : Value) (ttl now : Nat) :
    Outcome Unit × ResultCache :=
  let c :=
    if c.isFullFor key || c.sweepInterval ≤ now - c.lastSweep then c.sweep now else c
  if c.isFullFor key then (.error (.backend (.cacheFull c.capacity)), c)
  else (.ok (), { c with entries := place c.entries key ⟨value, now + ttl⟩ })

/-- Stores a value for the time that is usual in this cache. -/
def set (c : ResultCache) (key : String) (value : Value) (now : Nat) :
    Outcome Unit × ResultCache :=
  c.setFor key value c.ttl now

def flush (c : ResultCache) : ResultCache :=
  { c with entries := [] }

end ResultCache

/-- What a cached result is the answer to. -/
structure CacheKey where
  database : String
  collection : String
  page : Int
  /-- The text of the request. -/
  query : String
deriving DecidableEq, Repr

/-- The parts of a key with colons between them. -/
def CacheKey.render (k : CacheKey) : String :=
  k.database ++ ":" ++ k.collection ++ ":" ++ toString k.page ++ ":" ++ k.query

end DocumentBase
