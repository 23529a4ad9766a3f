import DocumentBase.Hook

/-!
# Ready-made hooks

Hooks for common purposes.  One that is made for payloads of a certain kind fails on all
others.
-/

namespace DocumentBase.Hook

/-- Leaves every payload as it is. -/
def idle : Hook := fun _ _ => .ok none

def failing (message : String) : Hook := fun _ _ => .error message

def answering (p : Payload) : Hook := fun _ _ => .ok (some p)

/-- Puts something in place of a payload whose content can be taken out, and fails otherwise. -/
def replacing {α : Type} (content : Payload → Outcome α) (next : α → Payload) : Hook :=
  fun p _ => ((content p).mapError Error.message).map fun a => some (next a)

/-- Goes on building a query. -/
def refining (calls : List Query.Call) : Hook :=
  replacing Payload.asQuery fun q => .query (q.calls calls)

/-- Sends an operation to another identity. -/
def redirecting (id : Value) : Hook :=
  replacing Payload.asItemId fun _ => .itemId id

/-- Exchanges the change of a patch. -/
def amending (update : Update) : Hook :=
  replacing Payload.asPatch fun patch => .patch patch.1 update

def unsetting (field : String) : Hook :=
  replacing Payload.asItem fun d => .item (d.without field)

def scaling (factor : Nat) : Hook :=
  replacing Payload.asCount fun n => .count (n * factor)

def reversing : Hook :=
  replacing Payload.asItems fun values => .items values.reverse

def concealing : Hook :=
  replacing Payload.asMaybeItem fun _ => .maybeItem none

/-- A document with a field set; every other value as it is. -/
def withField (field : String) (value : Value) : Value → Value
  | .document fields => .document (Document.put fields field value)
  | other => other

/-- Sets a field: in an item, in each of several items, or among the fields that a patch sets. -/
def setting (field : String) (value : Value) : Hook := fun p context =>
  match p with
  | .patch id (.set fields) => .ok (some (.patch id (.set (Document.put fields field value))))
  | .items values => .ok (some (.items (values.map (withField field value))))
  | .maybeItem (some d) => .ok (some (.maybeItem (some (Document.put d field value))))
  | other => replacing Payload.asItem (fun d => .item (d.put field value)) other context

end DocumentBase.Hook
