import DocumentBase.Query
import DocumentBase.Update

/-!
# Hooks

A hook runs before an operation, on its argument, or after it, on its result.  It may leave
the payload as it is or replace it by one of the same kind.  A hook that fails, or answers
with another kind, stops an operation that writes; everywhere else the payload stays as it
was.
-/

namespace DocumentBase

/-- The operations that hooks can be attached to. -/
inductive Operation where
  | get
  | query
  | count
  | distinct
  | aggregate
  | insert
  | update
  | replace
  | push
  | pull
  | increment
  | multiply
  | remove
deriving DecidableEq, Repr

namespace Operation

def name : Operation → String
  | .get => "get"
  | .query => "query"
  | .count => "count"
  | .distinct => "distinct"
  | .aggregate => "aggregate"
  | .insert => "insert"
  | .update => "update"
  | .replace => "replace"
  | .push => "push"
  | .pull => "pull"
  | .increment => "increment"
  | .multiply => "multiply"
  | .remove => "remove"

/-- The name as the end of a longer one. -/
def title : Operation → String
  | .get => "Get"
  | .query => "Query"
  | .count => "Count"
  | .distinct => "Distinct"
  | .aggregate => "Aggregate"
  | .insert => "Insert"
  | .update => "Update"
  | .replace => "Replace"
  | .push => "Push"
  | .pull => "Pull"
  | .increment => "Increment"
  | .multiply => "Multiply"
  | .remove => "Remove"

def all : List Operation :=
  [.get, .query, .count, .distinct, .aggregate, .insert, .update, .replace, .push, .pull,
    .increment, .multiply, .remove]

def ofName? (name : String) : Option Operation :=
  all.find? fun operation => operation.name = name

def isMutating : Operation → Bool
  | .get | .query | .count | .distinct | .aggregate => false
  | _ => true

end Operation

inductive HookPhase where
  | before
  | after
deriving DecidableEq, Repr

structure HookName where
  phase : HookPhase
  operation : Operation
deriving DecidableEq, Repr

def HookName.render (n : HookName) : String :=
  (match n.phase with
    | .before => "before"
    | .after => "after") ++ n.operation.title

/-- Where a hook is called, and who acts. -/
structure HookContext where
  database : String
  collection : String
  identity : Option String
  roles : List String
deriving DecidableEq, Repr

/-- The argument or the result of an operation. -/
inductive Payload where
  | query (query : Query)
  | itemId (id : Value)
  | item (item : Document)
  | patch (id : Value) (update : Update)
  | items (items : List Value)
  | maybeItem (item : Option Document)
  | count (n : Nat)

namespace Payload

inductive Kind where
  | query
  | itemId
  | item
  | patch
  | items
  | maybeItem
  | count
deriving DecidableEq, Repr

def Kind.name : Kind → String
  | .query => "query"
  | .itemId => "item id"
  | .item => "item"
  | .patch => "patch"
  | .items => "items"
  | .maybeItem => "optional item"
  | .count => "count"

def kind : Payload → Kind
  | .query _ => .query
  | .itemId _ => .itemId
  | .item _ => .item
  | .patch _ _ => .patch
  | .items _ => .items
  | .maybeItem _ => .maybeItem
  | .count _ => .count

/-- The error of a payload that should have been of another kind. -/
def mismatch (expected : Kind) (p : Payload) : Error :=
  .validation (.payloadKind expected.name p.kind.name)

def asQuery : Payload → Outcome Query
  | .query q => .ok q
  | other => .error (other.mismatch .query)

def asItemId : Payload → Outcome Value
  | .itemId id => .ok id
  | other => .error (other.mismatch .itemId)

def asItem : Payload → Outcome Document
  | .item d => .ok d
  | other => .error (other.mismatch .item)

def asPatch : Payload → Outcome (Value × Update)
  | .patch id update => .ok (id, update)
  | other => .error (other.mismatch .patch)

def asItems : Payload → Outcome (List Value)
  | .items values => .ok values
  | other => .error (other.mismatch .items)

def asMaybeItem : Payload → Outcome (Option Document)
  | .maybeItem d => .ok d
  | other => .error (other.mismatch .maybeItem)

def asCount : Payload → Outcome Nat
  | .count n => .ok n
  | other => .error (other.mismatch .count)

end Payload

/-- A hook fails with a message, or answers with a replacement or nothing. -/
abbrev Hook := Payload → HookContext → Except String (Option Payload)

structure HookCall where
  name : HookName
  payload : Payload
  context : HookContext

/-- Hooks by collection and name, at most one for each. -/
structure Hooks where
  table : List ((String × HookName) × Hook)

namespace Hooks

def empty : Hooks := ⟨[]⟩

def isEmpty (h : Hooks) : Bool :=
  h.table.isEmpty

def hook? (h : Hooks) (collection : String) (name : HookName) : Option Hook :=
  h.table.lookup (collection, name)

def contains (h : Hooks) (collection : String) (name : HookName) : Bool :=
  (h.hook? collection name).isSome

/-- Adds a hook in place of any other one of that name. -/
def register (h : Hooks) (collection : String) (name : HookName) (hook : Hook) : Hooks :=
  ⟨((collection, name), hook) :: h.table.filter fun entry => entry.1 ≠ (collection, name)⟩

/-- What the hook of a name answers; without one the payload stays. -/
def invoke (h : Hooks) (name : HookName) (payload : Payload) (context : HookContext) :
    Except String (Option Payload) :=
  match h.hook? context.collection name with
  | some hook => hook payload context
  | none => .ok none

/-- The calls that `invoke` makes. -/
def calls (h : Hooks) (name : HookName) (payload : Payload) (context : HookContext) :
    List HookCall :=
  if h.contains context.collection name then [⟨name, payload, context⟩] else []

/-- The payload after a hook, which has to keep its kind. -/
def run (h : Hooks) (name : HookName) (payload : Payload) (context : HookContext) :
    Except String Payload :=
  match h.invoke name payload context with
  | .ok none => .ok payload
  | .ok (some replacement) =>
    if replacement.kind = payload.kind then .ok replacement
    else
      .error ("returned a " ++ replacement.kind.name ++ " payload where a " ++ payload.kind.name
        ++ " payload was expected")
  | .error message => .error message

/-- The argument of an operation after its hook.  A failure counts only if the operation writes. -/
def runBefore (h : Hooks) (operation : Operation) (payload : Payload) (context : HookContext) :
    Outcome Payload :=
  let name := HookName.mk .before operation
  match h.run name payload context with
  | .ok replacement => .ok replacement
  | .error message =>
    if operation.isMutating then
      .error (.hookFailure name.render context.collection message)
    else .ok payload

/-- The result of an operation after its hook.  A failure never counts. -/
def runAfter (h : Hooks) (operation : Operation) (result : Payload) (context : HookContext) :
    Payload :=
  match h.run ⟨.after, operation⟩ result context with
  | .ok replacement => replacement
  | .error _ => result

/-- Hooks keep the kind of a payload. -/
theorem kind_of_run {h : Hooks} {name : HookName} {payload replacement : Payload}
    {context : HookContext} (hr : h.run name payload context = .ok replacement) :
    replacement.kind = payload.kind := by
  unfold run at hr
  split at hr
  · cases hr; rfl
  · split at hr
    · cases hr; assumption
    · cases hr
  · cases hr

/-- Whatever a hook answers, a result keeps its kind. -/
@[simp]
theorem kind_runAfter (h : Hooks) (operation : Operation) (result : Payload)
    (context : HookContext) : (h.runAfter operation result context).kind = result.kind := by
  unfold runAfter
  split
  next he => exact kind_of_run he
  next => rfl

end Hooks

end DocumentBase
