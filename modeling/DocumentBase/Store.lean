import DocumentBase.Identity
import DocumentBase.Options
import DocumentBase.Store.Action

/-!
# Stores

A store has a configuration, hooks, caches and somebody who acts.  A view of one of its
collections adds the options that its operations run with.  Every operation acquires its
collection once; errors that happen while the collection is held say in which operation this
was.
-/

namespace DocumentBase

structure Store where
  config : StoreConfig
  hooks : Hooks
  /-- The place of the store's caches among all registries. -/
  caches : Nat
  identity : IdentityProvider

namespace Store

/-- A store with the usual configuration, without hooks and identities. -/
def basic (caches : Nat) : Store :=
  { config := .default, hooks := .empty, caches, identity := .anonymous }

/-- A store whose configuration has been checked. -/
def build (s : Store) : Outcome Store := do
  s.config.validate
  return s

def flushCaches (s : Store) (names : List String) : Action Unit :=
  Action.onRegistry s.caches fun registry => registry.flush names

def createCollection (name : String) : Action Unit :=
  Action.change fun c => .ok ((), c.create name)

def dropCollection (name : String) : Action Unit :=
  Action.change fun c => do return ((), ← c.drop name)

def listCollections : Action (List String) :=
  Action.read fun c => .ok c.names

/-- Ends a store: nothing stays in its caches. -/
def shutdown (s : Store) : Action Unit :=
  Action.onRegistry s.caches fun registry => .ok registry.flushAll

end Store

structure CollectionView where
  store : Store
  name : String
  options : OperationOptions

def Store.collection (s : Store) (name : String) : CollectionView :=
  ⟨s, name, .default⟩

namespace CollectionView

/-- The context of an operation, given whether a visitor may act. -/
def context (v : CollectionView) (acceptsVisitor : Bool) : Outcome HookContext := do
  let actor ← if v.options.suppressAuth then .ok none else v.store.identity acceptsVisitor
  return {
    database := v.store.config.database
    collection := v.name
    identity := actor.map (·.id)
    roles := (actor.map (·.roles)).getD [] }

/-- The owner that reads are restricted to. -/
def owner (v : CollectionView) (context : HookContext) : Outcome (Option String) :=
  if v.options.onlyOwned then
    match context.identity with
    | some owner => .ok (some owner)
    | none => .error (.validation .noIdentity)
  else .ok none

def recordCalls (calls : List HookCall) : Action Unit :=
  calls.forM fun call => Action.record (.called call)

/-- Sends an argument through the hook before an operation. -/
def before (v : CollectionView) (operation : Operation) (payload : Payload)
    (context : HookContext) : Action Payload := do
  if v.options.suppressHooks then return payload
  recordCalls (v.store.hooks.calls ⟨.before, operation⟩ payload context)
  v.store.hooks.runBefore operation payload context

/-- Sends a result through the hook after an operation. -/
def after (v : CollectionView) (operation : Operation) (result : Payload)
    (context : HookContext) : Action Payload := do
  if v.options.suppressHooks then return result
  recordCalls (v.store.hooks.calls ⟨.after, operation⟩ result context)
  return v.store.hooks.runAfter operation result context

def acquireOptions (v : CollectionView) : AcquireOptions :=
  ⟨v.options.suppressAuth, v.options.consistentRead⟩

/-- Acquires the collection.  The attempt counts as an event even if it is refused. -/
def acquire (v : CollectionView) (operation : Operation) : Action Unit := do
  Action.record (.acquired v.name v.acquireOptions)
  let env ← Action.environment
  Action.inOperation operation v.name (Action.ofOutcome (env.access v.name v.acquireOptions))

/-- Releases the collection if that is not left to the storage. -/
def release (v : CollectionView) : Action Unit :=
  if v.options.eagerCleanup then Action.record (.released v.name) else pure ()

/-- Runs an action while the collection is held, and releases it in any case. -/
def holding {α : Type} (v : CollectionView) (operation : Operation) (a : Action α) :
    Action α := do
  v.acquire operation
  let result ← (a.inOperation operation v.name).attempt
  v.release
  result

end CollectionView

end DocumentBase
