import DocumentBase.Cache.Registry
import DocumentBase.Collections
import DocumentBase.Hook

/-!
# Actions

An action reads its environment, changes the world, and has a result or fails.  A failure
keeps the changes that were made before it.  The world keeps an account of what others could
see: calls of hooks, and collections that were acquired or released.
-/

namespace DocumentBase

structure AcquireOptions where
  suppressAuth : Bool
  consistentRead : Bool
deriving DecidableEq, Repr

/-- What actions depend on and do not change. -/
structure Environment where
  /-- The date that items are stamped with. -/
  date : Instant
  /-- The reading of the clock that caches go by. -/
  moment : Nat
  /-- The identities that are drawn for new items, one after the other. -/
  fresh : Nat → String
  /-- Whether the storage hands out a collection. -/
  access : String → AcquireOptions → Outcome Unit

/-- Something that others could see. -/
inductive Event where
  | called (call : HookCall)
  | acquired (collection : String) (options : AcquireOptions)
  | released (collection : String)

structure World where
  collections : Collections
  /-- All cache registries; stores that share caches share a place. -/
  registries : Nat → CacheRegistry
  /-- How many identities were drawn. -/
  drawn : Nat
  /-- The account of events, the latest one first. -/
  events : List Event

def Action (α : Type) : Type := Environment → World → Outcome α × World

namespace Action

/-- The result of an action and the world afterwards. -/
def run {α : Type} (a : Action α) (env : Environment) (w : World) : Outcome α × World := a env w

instance : Monad Action where
  pure a := fun _ w => (.ok a, w)
  bind a next := fun env w =>
    match a env w with
    | (.ok result, w) => next result env w
    | (.error e, w) => (.error e, w)

/-- A result that needs no world. -/
def ofOutcome {α : Type} (result : Outcome α) : Action α := fun _ w => (result, w)

instance : MonadLift Outcome Action := ⟨ofOutcome⟩

def environment : Action Environment := fun env w => (.ok env, w)

def record (event : Event) : Action Unit := fun _ w =>
  (.ok (), { w with events := event :: w.events })

def draw : Action Value := fun env w =>
  (.ok (.string (env.fresh w.drawn)), { w with drawn := w.drawn + 1 })

def read {α : Type} (f : Collections → Outcome α) : Action α := fun _ w => (f w.collections, w)

/-- Changes the collections, or fails and leaves them as they are. -/
def change {α : Type} (f : Collections → Outcome (α × Collections)) : Action α := fun _ w =>
  match f w.collections with
  | .ok (result, collections) => (.ok result, { w with collections })
  | .error e => (.error e, w)

/-- Changes one cache of a registry. -/
def onCache {α : Type} (place : Nat) (category : CacheCategory)
    (f : ResultCache → Nat → α × ResultCache) : Action α := fun env w =>
  let registry := w.registries place
  let (result, cache) := f (registry.cache category) env.moment
  (.ok result,
    { w with registries := fun other =>
        if other = place then registry.store category cache else w.registries other })

/-- Changes a registry as a whole, or fails and leaves it as it is. -/
def onRegistry (place : Nat) (f : CacheRegistry → Outcome CacheRegistry) : Action Unit :=
  fun _ w =>
    match f (w.registries place) with
    | .ok registry =>
      (.ok (),
        { w with registries := fun other =>
            if other = place then registry else w.registries other })
    | .error e => (.error e, w)

/-- Turns a failure into a result. -/
def attempt {α : Type} (a : Action α) : Action (Outcome α) := fun env w =>
  let (result, w) := a env w
  (.ok result, w)

/-- Says of a failure which operation it happened in. -/
def inOperation {α : Type} (operation : Operation) (collection : String) (a : Action α) :
    Action α := fun env w =>
  let (result, w) := a env w
  (result.mapError (·.inOperation operation.name collection), w)

theorem run_bind_of_ok {α β : Type} {a : Action α} {next : α → Action β} {env : Environment}
    {w w' : World} {result : α} (h : a.run env w = (.ok result, w')) :
    (a >>= next).run env w = (next result).run env w' := by
  simp only [run] at h
  simp [run, bind, h]

theorem run_bind_of_error {α β : Type} {a : Action α} {next : α → Action β} {env : Environment}
    {w w' : World} {e : Error} (h : a.run env w = (.error e, w')) :
    (a >>= next).run env w = (.error e, w') := by
  simp only [run] at h
  simp [run, bind, h]

end Action

end DocumentBase
