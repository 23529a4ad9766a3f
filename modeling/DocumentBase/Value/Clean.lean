import DocumentBase.Error
import DocumentBase.Value

/-!
# Clean values

A value can be stored when no key at any depth is empty, starts with a dollar sign or has a
NUL, and when it holds no code.  Cleaning rebuilds a value key by key and gives it back
unchanged, or says what is wrong with it.
-/

namespace DocumentBase.Value

def isKey (key : String) : Bool :=
  !(key.isEmpty || key.toList.head? = some '$' || key.toList.contains '\x00')

def checkKey (key : String) : Outcome Unit :=
  if isKey key then .ok () else .error (.invalidDocument (.forbiddenKey key))

mutual

def clean : Value → Outcome Value
  | .code _ => .error (.invalidDocument .codeValue)
  | .scopedCode _ _ => .error (.invalidDocument .codeValue)
  | .array items => do
    let items ← cleanItems items
    return .array items
  | .document fields => do
    let fields ← cleanFields fields
    return .document fields
  | v => return v
termination_by structural v => v

def cleanItems : List Value → Outcome (List Value)
  | [] => return []
  | v :: rest => do
    let v ← clean v
    let rest ← cleanItems rest
    return v :: rest
termination_by structural items => items

def cleanFields : List (String × Value) → Outcome (List (String × Value))
  | [] => return []
  | (key, v) :: rest => do
    checkKey key
    let v ← clean v
    let rest ← cleanFields rest
    return (key, v) :: rest
termination_by structural fields => fields

end

end DocumentBase.Value

namespace DocumentBase.Document

def clean (d : Document) : Outcome Document :=
  Value.cleanFields d

end DocumentBase.Document
