import DocumentBase.Predicate

/-!
# Criteria

Criteria are a query document: an implicit conjunction of entries, each a field with its
operators (or with a plain value, meaning equality) or a combinator with a list of further
criteria.  Empty criteria match everything.  Reading criteria as a predicate is the only
place where a query document is checked.
-/

namespace DocumentBase

structure Criteria where
  document : Document
deriving Repr, Inhabited

namespace Criteria

def empty : Criteria := ⟨[]⟩

def isEmpty (c : Criteria) : Bool :=
  c.document.isEmpty

/-- The criterion that a field equals a text, written as a plain value. -/
def fieldIs (field text : String) : Criteria :=
  ⟨[(field, .string text)]⟩

/-- Adds an operator to a field.  What is at the field already is kept if it is a document,
and replaced otherwise. -/
def merge (c : Criteria) (field operator : String) (operand : Value) : Criteria :=
  match c.document.value? field with
  | some (.document operators) =>
    ⟨c.document.put field (.document (Document.put operators operator operand))⟩
  | _ => ⟨c.document.put field (.document [(operator, operand)])⟩

/-- Puts `other` beside `c` under a combinator.  Criteria that are nothing but this combinator
take `other` as a further child. -/
def combine (combinator : Combinator) (c other : Criteria) : Criteria :=
  if other.isEmpty then c
  else if c.isEmpty then other
  else
    match c.document with
    | [(key, .array children)] =>
      if key = combinator.key then ⟨[(key, .array (children ++ [.document other.document]))]⟩
      else ⟨[(combinator.key, .array [.document c.document, .document other.document])]⟩
    | _ => ⟨[(combinator.key, .array [.document c.document, .document other.document])]⟩

def and (c other : Criteria) : Criteria :=
  combine .and c other

def or (c other : Criteria) : Criteria :=
  combine .or c other

/-- Excludes what `other` matches, as an entry beside those of `c`. -/
def not (c other : Criteria) : Criteria :=
  if other.isEmpty then c
  else
    match c.document.value? Combinator.nor.key with
    | some (.array children) =>
      ⟨c.document.put Combinator.nor.key (.array (children ++ [.document other.document]))⟩
    | _ => ⟨c.document.put Combinator.nor.key (.array [.document other.document])⟩

/-! ### Reading criteria -/

/-- One operator of a field.  The options of a pattern are looked up among all the operators. -/
def parseOperator (field : String) (operators : Document) (key : String) (operand : Value) :
    Outcome (List Predicate) :=
  if key = "$regex" then
    match operand with
    | .string pattern =>
      let options := ((operators.value? "$options").bind Value.text?).getD ""
      .ok [.matching field pattern options]
    | _ => .error (.validation (.patternNotText field))
  else if key = "$options" then .ok []
  else
    match Comparison.ofOperator? key with
    | some comparison => .ok [.compared field comparison operand]
    | none => .error (.validation (.unsupportedOperator key field))

def parseOperators (field : String) (operators : Document) :
    List (String × Value) → Outcome (List Predicate)
  | [] => .ok []
  | (key, operand) :: rest => do
    let first ← parseOperator field operators key operand
    let others ← parseOperators field operators rest
    return first ++ others

/-- Whether a document holds operators and nothing else. -/
def isOperators (d : Document) : Bool :=
  !d.isEmpty && d.all fun field => isOperatorKey field.1

def parseField (field : String) (value : Value) : Outcome (List Predicate) :=
  match value with
  | .document operators =>
    if isOperators operators then parseOperators field operators operators
    else .ok [.compared field .eq value]
  | _ => .ok [.compared field .eq value]

mutual

def parseEntry (key : String) (value : Value) : Outcome (List Predicate) :=
  match Combinator.ofKey? key, value with
  | some combinator, .array children => do
    let children ← parseChildren key children
    return [.combined combinator children]
  | some _, _ => .error (.validation (.notAList key))
  | none, value =>
    if isOperatorKey key then .error (.validation (.unsupportedCombinator key))
    else parseField key value
termination_by structural value

def parseChildren (key : String) : List Value → Outcome (List Predicate)
  | [] => .ok []
  | .document entries :: rest => do
    let clauses ← parseEntries entries
    let others ← parseChildren key rest
    return Predicate.gather clauses :: others
  | _ :: _ => .error (.validation (.childNotDocument key))
termination_by structural children => children

def parseEntries : List (String × Value) → Outcome (List Predicate)
  | [] => .ok []
  | (key, value) :: rest => do
    let first ← parseEntry key value
    let others ← parseEntries rest
    return first ++ others
termination_by structural entries => entries

end

def predicate (c : Criteria) : Outcome Predicate := do
  return Predicate.gather (← parseEntries c.document)

end Criteria

end DocumentBase
