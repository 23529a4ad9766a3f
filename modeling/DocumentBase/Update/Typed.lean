import DocumentBase.Update
import DocumentBase.Value.Typed

/-!
# Updates as typed JSON

An update is written as an object that names its kind, its field, and its operands in typed
form.
-/

namespace DocumentBase.Update

/-- The typed form of an update; `date` writes the dates. -/
def typed (date : Instant → Json) (u : Update) : Json :=
  let changing (kind field name : String) (content : Json) : Json :=
    .object [("kind", .string kind), ("field", .string field), (name, content)]
  match u with
  | .set fields =>
    .object [("kind", .string "set"), ("fields", (Value.document fields).typed date)]
  | .push field values => changing "push" field "values" ((Value.array values).typed date)
  | .pull field values => changing "pull" field "values" ((Value.array values).typed date)
  | .increment field operand => changing "increment" field "by" (operand.typed date)
  | .multiply field operand => changing "multiply" field "by" (operand.typed date)

def ofTyped? (json : Json) : Option Update := do
  let field := (json.member? "field").bind Json.text?
  let content (name : String) := (json.member? name).bind Value.ofTyped?
  match ← (json.member? "kind").bind Json.text? with
  | "set" => return .set (← (content "fields").bind Value.fields?)
  | "push" => return .push (← field) (← (content "values").bind Value.items?)
  | "pull" => return .pull (← field) (← (content "values").bind Value.items?)
  | "increment" => return .increment (← field) (← content "by")
  | "multiply" => return .multiply (← field) (← content "by")
  | _ => none

end DocumentBase.Update
