import DocumentBase.Store
import DocumentBase.Value.Clean

/-!
# Writing to a store

Items are cleaned before they are written: no key that looks like an operator, and no code.
New items are stamped, replacements keep what is protected.  Each operation writes at most
once and checks everything before, so a failure leaves the collections as they were.
-/

namespace DocumentBase.CollectionView

/-- Sends an item through the hook after an operation that wrote it. -/
def written (v : CollectionView) (operation : Operation) (item : Document)
    (context : HookContext) : Action Document := do
  let result ← v.after operation (.item item) context
  result.asItem

def prepareInsert (v : CollectionView) (item : Document) (context : HookContext) :
    Action Document := do
  let payload ← v.before .insert (.item item) context
  let item ← Document.clean (← payload.asItem)
  let fresh ← Action.draw
  let env ← Action.environment
  return Item.stampNew item fresh context.identity env.date

/-- A replacement as it is to be stamped, and the identity of the item that it replaces. -/
def prepareReplace (v : CollectionView) (id : Value) (item : Document) (context : HookContext) :
    Action (Value × Document) := do
  let payload ← v.before .replace (.item (item.put Item.idField id)) context
  let item ← payload.asItem
  match item.value? Item.idField with
  | none => Action.ofOutcome (.error (.invalidDocument .noIdentity))
  | some id => return (id, ← Document.clean item)

def insertRow (v : CollectionView) (item : Document) : Action Unit :=
  Action.change fun c => do return ((), ← c.insertOne v.name item)

def findRow (v : CollectionView) (id : Value) : Action (Option Document) :=
  Action.read fun c => .ok (c.findById v.name id)

def replaceRow (v : CollectionView) (id : Value) (item : Document) : Action (Option Document) :=
  Action.change fun c => .ok (c.replaceOne v.name id item)

/-- A result that must not be missing. -/
def required (v : CollectionView) (id : Value) : Option Document → Outcome Document
  | some item => .ok item
  | none => .error (.notFound id.idLabel v.name)

def insert (v : CollectionView) (item : Document) : Action Document := do
  let context ← v.context false
  let item ← v.prepareInsert item context
  v.holding .insert (v.insertRow item)
  v.written .insert item context

/-- Stores an item in place of the one with an identity, which has to exist. -/
def replace (v : CollectionView) (id : Value) (item : Document) : Action Document := do
  let context ← v.context false
  let (id, item) ← v.prepareReplace id item context
  let replaced ← v.holding .replace do
    match ← v.findRow id with
    | none => return none
    | some existing =>
      let env ← Action.environment
      v.replaceRow id (Item.stampReplacement item existing env.date)
  v.written .replace (← v.required id replaced) context

/-- Stores an item as a replacement or as a new one, while the collection is held. -/
def saveRow (v : CollectionView) (item : Document) (context : HookContext) :
    Action (Operation × Document) := do
  let existing ← match item.value? Item.idField with
    | some id => v.findRow id
    | none => pure none
  match item.value? Item.idField, existing with
  | some id, some existing =>
    let (id, item) ← v.prepareReplace id item context
    let env ← Action.environment
    let replaced ← v.replaceRow id (Item.stampReplacement item existing env.date)
    return (.replace, ← v.required id replaced)
  | _, _ =>
    let item ← v.prepareInsert item context
    (v.insertRow item).inOperation .insert v.name
    return (.insert, item)

/-- Stores an item: in place of the one with its identity if there is one, as a new one
otherwise.  -/
def save (v : CollectionView) (item : Document) : Action Document := do
  let context ← v.context false
  let (operation, saved) ← v.holding .replace (v.saveRow item context)
  v.written operation saved context

/-- The values that an update stores are cleaned as items are. -/
def cleanUpdate : Update → Outcome Update
  | .set fields => do return .set (← Document.clean fields)
  | .push field values => do return .push field (← values.mapM Value.clean)
  | other => .ok other

/-- Changes the item with an identity, which has to exist. -/
def patch (v : CollectionView) (operation : Operation) (id : Value) (update : Update) :
    Action Document := do
  let context ← v.context false
  let payload ← v.before operation (.patch id update) context
  let (id, update) ← payload.asPatch
  update.validate
  let update ← cleanUpdate update
  let env ← Action.environment
  let updated ← v.holding operation
    (Action.change fun c => c.updateOne v.name id update env.date)
  v.written operation (← v.required id updated) context

def update (v : CollectionView) (id : Value) (fields : Document) : Action Document :=
  v.patch .update id (.set fields)

def push (v : CollectionView) (id : Value) (field : String) (values : List Value) :
    Action Document :=
  v.patch .push id (.push field values)

def pull (v : CollectionView) (id : Value) (field : String) (values : List Value) :
    Action Document :=
  v.patch .pull id (.pull field values)

def increment (v : CollectionView) (id : Value) (field : String) (operand : Value) :
    Action Document :=
  v.patch .increment id (.increment field operand)

def multiply (v : CollectionView) (id : Value) (field : String) (operand : Value) :
    Action Document :=
  v.patch .multiply id (.multiply field operand)

/-- Takes out the item with an identity, if there is one. -/
def remove (v : CollectionView) (id : Value) : Action (Option Document) := do
  let context ← v.context false
  let payload ← v.before .remove (.itemId id) context
  let id ← payload.asItemId
  let removed ← v.holding .remove (Action.change fun c => .ok (c.deleteOne v.name id))
  let result ← v.after .remove (.maybeItem removed) context
  result.asMaybeItem

end DocumentBase.CollectionView
