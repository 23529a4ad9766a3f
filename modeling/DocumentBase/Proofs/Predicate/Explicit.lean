import DocumentBase.Predicate.Rendering
import DocumentBase.Proofs.Predicate.Combining
import DocumentBase.Proofs.Predicate.Reading

/-!
# Criteria that are written out

Criteria for a database server are the predicate that was read, written with one explicit
condition in each entry.  What is written is read as the same predicate, so it selects the same
documents and is not changed by being written again.  This rests on the names of fields: reading
lets no operator pass as a field, and a field that is none keeps its place when it is written.
-/

namespace DocumentBase

/-! ### Fields are no operators -/

namespace Predicate

/-- None of some names could be taken for an operator. -/
def PlainNames (names : List String) : Prop :=
  ∀ name ∈ names, isOperatorKey name = false

theorem plainNames_append {names more : List String} :
    PlainNames (names ++ more) ↔ PlainNames names ∧ PlainNames more :=
  List.forall_mem_append

theorem fieldsOf_append (ps qs : List Predicate) :
    fieldsOf (ps ++ qs) = fieldsOf ps ++ fieldsOf qs := by
  induction ps with
  | nil => rfl
  | cons p rest ih => rw [List.cons_append, fieldsOf, fieldsOf, ih, List.append_assoc]

theorem fields_gather (ps : List Predicate) : (gather ps).fields = fieldsOf ps := by
  match ps with
  | [] => rfl
  | [p] => exact (List.append_nil p.fields).symm
  | p :: q :: rest => rfl

end Predicate

namespace Criteria

open Predicate

theorem eq_key_of_ofKey? {key : String} {combinator : Combinator}
    (h : Combinator.ofKey? key = some combinator) : key = combinator.key := by
  unfold Combinator.ofKey? at h
  split at h <;> cases h <;> rfl

theorem isOperatorKey_key (combinator : Combinator) : isOperatorKey combinator.key = true := by
  cases combinator <;> decide

theorem ofKey?_of_plain {name : String} (h : isOperatorKey name = false) :
    Combinator.ofKey? name = none := by
  cases hkey : Combinator.ofKey? name with
  | none => rfl
  | some combinator =>
      rw [eq_key_of_ofKey? hkey, isOperatorKey_key] at h
      cases h

/-- An entry whose key is no operator is a field with its conditions. -/
theorem parseEntry_of_plain {name : String} (h : isOperatorKey name = false) (value : Value) :
    parseEntry name value = parseField name value := by
  rw [parseEntry.eq_def, ofKey?_of_plain h]
  simp [h]

theorem fieldsOf_parseOperator {field key : String} {operators : Document} {operand : Value}
    {clauses : List Predicate} (h : parseOperator field operators key operand = .ok clauses) :
    ∀ name ∈ fieldsOf clauses, name = field := by
  unfold parseOperator at h
  split at h
  · split at h
    · cases h
      simp [fieldsOf, fields]
    · cases h
  split at h
  · cases h
    simp [fieldsOf]
  · split at h
    · cases h
      simp [fieldsOf, fields]
    · cases h

theorem fieldsOf_parseOperators {field : String} {operators : Document} (entries : Document)
    {clauses : List Predicate} (h : parseOperators field operators entries = .ok clauses) :
    ∀ name ∈ fieldsOf clauses, name = field := by
  induction entries generalizing clauses with
  | nil =>
      cases h
      simp [fieldsOf]
  | cons entry rest ih =>
      rw [parseOperators] at h
      obtain ⟨first, hfirst, h⟩ := Outcome.bind_eq_ok.mp h
      obtain ⟨others, hothers, h⟩ := Outcome.bind_eq_ok.mp h
      obtain rfl := Outcome.pure_eq_ok.mp h
      rw [fieldsOf_append]
      exact List.forall_mem_append.mpr ⟨fieldsOf_parseOperator hfirst, ih hothers⟩

theorem fieldsOf_parseField {field : String} {value : Value} {clauses : List Predicate}
    (h : parseField field value = .ok clauses) : ∀ name ∈ fieldsOf clauses, name = field := by
  unfold parseField at h
  split at h
  · split at h
    · exact fieldsOf_parseOperators _ h
    · cases h
      simp [fieldsOf, fields]
  · cases h
    simp [fieldsOf, fields]

theorem plainNames_parseField {field : String} {value : Value} {clauses : List Predicate}
    (hplain : isOperatorKey field = false) (h : parseField field value = .ok clauses) :
    PlainNames (fieldsOf clauses) :=
  fun name hname => fieldsOf_parseField h name hname ▸ hplain

/-- An entry is a combinator with its children, or a field with its conditions. -/
theorem parseEntry_eq_ok {key : String} {value : Value} {clauses : List Predicate} :
    parseEntry key value = .ok clauses ↔
      (∃ combinator children predicates, key = Combinator.key combinator ∧
        value = .array children ∧ parseChildren key children = .ok predicates ∧
        clauses = [.combined combinator predicates]) ∨
      isOperatorKey key = false ∧ parseField key value = .ok clauses := by
  constructor
  · intro h
    cases hkey : Combinator.ofKey? key with
    | some combinator =>
        obtain rfl := eq_key_of_ofKey? hkey
        cases value with
        | array children =>
            rw [parseEntry_key] at h
            obtain ⟨predicates, hpredicates, h⟩ := Outcome.bind_eq_ok.mp h
            cases h
            exact .inl ⟨combinator, children, predicates, rfl, rfl, hpredicates, rfl⟩
        | _ =>
            rw [parseEntry.eq_def, hkey] at h
            cases h
    | none =>
        rw [parseEntry.eq_def, hkey] at h
        cases hplain : isOperatorKey key with
        | true => simp [hplain] at h
        | false => exact .inr ⟨rfl, by simpa [hplain] using h⟩
  · rintro (⟨combinator, children, predicates, rfl, rfl, hpredicates, rfl⟩ | ⟨hplain, h⟩)
    · rw [parseEntry_key, hpredicates]
      rfl
    · rw [parseEntry_of_plain hplain, h]

mutual

theorem plainNames_parseEntry (key : String) : ∀ (value : Value) {clauses : List Predicate},
    parseEntry key value = .ok clauses → PlainNames (fieldsOf clauses)
  | value, clauses, h => by
    cases value with
    | array items =>
        rcases parseEntry_eq_ok.mp h with
          ⟨combinator, children, predicates, -, hvalue, hpredicates, rfl⟩ | ⟨hplain, hfield⟩
        · rw [← Value.array.inj hvalue] at hpredicates
          have hnames := plainNames_parseChildren key items hpredicates
          simpa [fieldsOf, fields] using hnames
        · exact plainNames_parseField hplain hfield
    | _ =>
        rcases parseEntry_eq_ok.mp h with ⟨_, _, _, _, hvalue, _⟩ | ⟨hplain, hfield⟩
        · cases hvalue
        · exact plainNames_parseField hplain hfield
termination_by structural value => value

theorem plainNames_parseChildren (key : String) : ∀ (children : List Value)
    {predicates : List Predicate}, parseChildren key children = .ok predicates →
      PlainNames (fieldsOf predicates)
  | [], predicates, h => by
    cases h
    exact nofun
  | child :: rest, predicates, h => by
    cases child with
    | document entries =>
        rw [parseChildren] at h
        obtain ⟨clauses, hclauses, h⟩ := Outcome.bind_eq_ok.mp h
        obtain ⟨others, hothers, h⟩ := Outcome.bind_eq_ok.mp h
        cases h
        rw [fieldsOf, fields_gather]
        exact plainNames_append.mpr
          ⟨plainNames_parseEntries entries hclauses, plainNames_parseChildren key rest hothers⟩
    | _ => cases h
termination_by structural children => children

/-- Whatever a document of criteria is parsed to asks about fields, never about an operator. -/
theorem plainNames_parseEntries : ∀ (entries : List (String × Value)) {clauses : List Predicate},
    parseEntries entries = .ok clauses → PlainNames (fieldsOf clauses)
  | [], clauses, h => by
    cases h
    exact nofun
  | (key, value) :: rest, clauses, h => by
    rw [parseEntries] at h
    obtain ⟨first, hfirst, h⟩ := Outcome.bind_eq_ok.mp h
    obtain ⟨others, hothers, h⟩ := Outcome.bind_eq_ok.mp h
    cases h
    rw [fieldsOf_append]
    exact plainNames_append.mpr
      ⟨plainNames_parseEntry key value hfirst, plainNames_parseEntries rest hothers⟩
termination_by structural entries => entries

end

/-- Reading criteria lets no operator pass as a field, at any depth. -/
theorem plainNames_of_predicate {c : Criteria} {p : Predicate} (h : c.predicate = .ok p) :
    PlainNames p.fields := by
  obtain ⟨clauses, hclauses, rfl⟩ := predicate_eq_ok.mp h
  rw [fields_gather]
  exact plainNames_parseEntries c.document hclauses

/-! ### Reading what is written -/

theorem parseOperator_comparison (field : String) (operators : Document) (comparison : Comparison)
    (operand : Value) :
    parseOperator field operators comparison.operator operand =
      .ok [.compared field comparison operand] := by
  have hregex : comparison.operator ≠ "$regex" := by cases comparison <;> decide
  have hoptions : comparison.operator ≠ "$options" := by cases comparison <;> decide
  rw [parseOperator.eq_def, if_neg hregex, if_neg hoptions, Comparison.ofOperator?_operator]

theorem parseOperator_pattern {operators : Document} {options : String}
    (h : operators.value? "$options" = some (.string options)) (field pattern : String) :
    parseOperator field operators "$regex" (.string pattern) =
      .ok [.matching field pattern options] := by
  rw [parseOperator, if_pos rfl, h]
  rfl

theorem parseOperator_options (field : String) (operators : Document) (operand : Value) :
    parseOperator field operators "$options" operand = .ok [] := by
  rw [parseOperator.eq_def, if_neg (by decide), if_pos rfl]

theorem isOperatorKey_operator (comparison : Comparison) :
    isOperatorKey comparison.operator = true := by
  cases comparison <;> decide

theorem parseField_comparison (field : String) (comparison : Comparison) (operand : Value) :
    parseField field (.document [(comparison.operator, operand)]) =
      .ok [.compared field comparison operand] := by
  have hoperators : isOperators [(comparison.operator, operand)] = true := by
    simp [isOperators, isOperatorKey_operator]
  rw [parseField, if_pos hoperators, parseOperators, parseOperator_comparison]
  rfl

theorem parseField_pattern (field pattern options : String) :
    parseField field
        (.document [("$regex", .string pattern), ("$options", .string options)]) =
      .ok [.matching field pattern options] := by
  have hoperators :
      isOperators [("$regex", .string pattern), ("$options", .string options)] = true := by
    simp [isOperators, isOperatorKey]
  have hoptions : Document.value?
      [("$regex", .string pattern), ("$options", .string options)] "$options" =
        some (.string options) := by
    simp [Document.value?_cons]
  rw [parseField, if_pos hoperators, parseOperators, parseOperator_pattern hoptions,
    parseOperators, parseOperator_options]
  rfl

mutual

/-- What is written of a predicate is read as this predicate and nothing else. -/
theorem parseEntries_render : ∀ p : Predicate, PlainNames p.fields →
    parseEntries p.render = .ok [p]
  | .combined combinator children, h => by
    rw [render, parseEntries_singleton, parseEntry_key,
      parseChildren_renderAll combinator.key children h]
    rfl
  | .compared field comparison operand, h => by
    rw [render, parseEntries_singleton, parseEntry_of_plain (h field List.mem_cons_self),
      parseField_comparison]
  | .matching field pattern options, h => by
    rw [render, parseEntries_singleton, parseEntry_of_plain (h field List.mem_cons_self),
      parseField_pattern]
termination_by structural p => p

/-- Predicates that were written as the children of a combinator are read back. -/
theorem parseChildren_renderAll (key : String) : ∀ ps : List Predicate,
    PlainNames (fieldsOf ps) → parseChildren key (renderAll ps) = .ok ps
  | [], _ => rfl
  | p :: rest, h => by
    obtain ⟨hfirst, hrest⟩ := plainNames_append.mp h
    rw [renderAll, parseChildren, parseEntries_render p hfirst,
      parseChildren_renderAll key rest hrest]
    rfl
termination_by structural ps => ps

end

/-- A predicate that was written out is read back, provided that no field of it looks like an
operator. -/
theorem predicate_render {p : Predicate} (h : PlainNames p.fields) :
    predicate ⟨p.render⟩ = .ok p := by
  rw [predicate, parseEntries_render p h]
  rfl

/-! ### Explicit criteria -/

/-- The explicit form writes out what the criteria are parsed to. -/
theorem explicit_of_predicate {c : Criteria} {p : Predicate} (hsome : c.isEmpty = false)
    (h : c.predicate = .ok p) : c.explicit = .ok p.render := by
  rw [explicit, hsome, h]
  rfl

theorem isEmpty_render (p : Predicate) : isEmpty ⟨p.render⟩ = false := by
  cases p <;> rfl

/-- Criteria that can be read can be written out.  What is written is read as the same predicate,
holds of the same documents and is written as it is; criteria that cannot be read are refused
with the error of reading them. -/
theorem explicit_reads_back (c : Criteria) :
    match c.predicate with
    | .ok p => ∃ written, c.explicit = .ok written ∧
        predicate ⟨written⟩ = .ok p ∧
        (∀ d, holds ⟨written⟩ d = c.holds d) ∧
        explicit ⟨written⟩ = .ok written
    | .error e => c.isEmpty = false ∧ c.explicit = .error e := by
  obtain ⟨document⟩ := c
  cases document with
  | nil => exact ⟨[], rfl, rfl, fun _ => rfl, rfl⟩
  | cons entry rest =>
      cases h : predicate ⟨entry :: rest⟩ with
      | error e =>
          refine ⟨rfl, ?_⟩
          rw [explicit, h]
          rfl
      | ok p =>
          have hread := predicate_render (plainNames_of_predicate h)
          refine ⟨p.render, explicit_of_predicate rfl h, hread, fun d => ?_,
            explicit_of_predicate (isEmpty_render p) hread⟩
          rw [holds_eq hread, holds_eq h]

/-- Implicit equality, a conjunction of one and the options of a pattern, written out. -/
example :
    explicit ⟨[("$and", .array [.document [("state", .string "draft")]]),
      ("name", .document [("$options", .string "i"), ("$regex", .string "^a")])]⟩ =
    .ok [("$and", .array [
      .document [("$and", .array [.document [("state", .document [("$eq", .string "draft")])]])],
      .document [("name", .document
        [("$regex", .string "^a"), ("$options", .string "i")])]])] := rfl

end Criteria

end DocumentBase
