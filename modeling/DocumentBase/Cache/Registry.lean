import DocumentBase.Cache
import DocumentBase.Config

/-!
# Cache registries

A registry has one cache for each category of cached things.  Categories are flushed by
name; all names are read before anything is flushed.
-/

namespace DocumentBase

inductive CacheCategory where
  | permissions
  /-- Found documents and distinct values. -/
  | query
  /-- Rows of pipelines. -/
  | aggregate
  | connectionSecrets
  | helperSecrets
  | connectionClients
deriving DecidableEq, Repr

namespace CacheCategory

def all : List CacheCategory :=
  [.permissions, .query, .aggregate, .connectionSecrets, .helperSecrets, .connectionClients]

def name : CacheCategory → String
  | .permissions => "permissions"
  | .query => "query"
  | .aggregate => "aggregate"
  | .connectionSecrets => "connectionSecrets"
  | .helperSecrets => "helperSecrets"
  | .connectionClients => "connectionClients"

def ofName (name : String) : Outcome CacheCategory :=
  match all.find? fun c => c.name = name with
  | some c => .ok c
  | none => .error (.validation (.unknownCategory name))

/-- The categories that a name stands for: its own one, or both kinds of secrets. -/
def named (name : String) : Outcome (List CacheCategory) :=
  if name = "secrets" then .ok [.connectionSecrets, .helperSecrets]
  else (ofName name).map fun c => [c]

end CacheCategory

structure CacheRegistry where
  cache : CacheCategory → ResultCache

namespace CacheRegistry

/-- Empty caches with the sizes of a configuration. -/
def ofConfig (config : StoreConfig) (now : Nat) : CacheRegistry :=
  ⟨fun _ =>
    ResultCache.empty config.cacheTtlSeconds config.cacheSweepSeconds config.cacheCapacity now⟩

/-- The registry with another cache for a category. -/
def store (r : CacheRegistry) (category : CacheCategory) (cache : ResultCache) : CacheRegistry :=
  ⟨fun other => if other = category then cache else r.cache other⟩

@[simp]
theorem cache_store_self (r : CacheRegistry) (category : CacheCategory) (cache : ResultCache) :
    (r.store category cache).cache category = cache := by
  simp [store]

theorem cache_store_ne (r : CacheRegistry) {category other : CacheCategory} (cache : ResultCache)
    (h : other ≠ category) : (r.store category cache).cache other = r.cache other := by
  simp [store, h]

def flushCategory (r : CacheRegistry) (category : CacheCategory) : CacheRegistry :=
  r.store category (r.cache category).flush

def flushAll (r : CacheRegistry) : CacheRegistry :=
  CacheCategory.all.foldl flushCategory r

/-- Flushes the named categories, or all of them if none is named. -/
def flush (r : CacheRegistry) (names : List String) : Outcome CacheRegistry :=
  if names.isEmpty then .ok r.flushAll
  else do
    let categories ← names.mapM CacheCategory.named
    return categories.flatten.foldl flushCategory r

def size (r : CacheRegistry) : Nat :=
  CacheCategory.all.foldl (fun total category => total + (r.cache category).size) 0

end CacheRegistry

end DocumentBase
