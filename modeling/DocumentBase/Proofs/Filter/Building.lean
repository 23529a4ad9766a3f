import DocumentBase.Proofs.Filter.Repetition
import DocumentBase.Proofs.Pattern.Literal
import DocumentBase.Proofs.Predicate.Conditions
import DocumentBase.Proofs.Predicate.Explicit

/-!
# Filters that are built by calls

A filter that starts empty and is built by calls can be read and evaluated, whatever the values
given to the calls are.  Its criteria have entries of two kinds: a field with operators that calls
wrote, and a combinator with children that are such criteria again.  Every call keeps them so.
An operand always stands behind its operator, so it is never taken for operators itself.
-/

namespace DocumentBase

namespace Criteria

open Predicate

/-! ### Operators of a field -/

/-- The operators that criteria have for a field. -/
def operators (c : Criteria) (field : String) : Document :=
  ((c.document.value? field).bind Value.fields?).getD []

/-- An operator is merged into the operators that the field has, and into none if it has something
else. -/
theorem merge_eq (c : Criteria) (field operator : String) (operand : Value) :
    c.merge field operator operand =
      ⟨c.document.put field (.document ((c.operators field).put operator operand))⟩ := by
  rw [merge, operators]
  cases c.document.value? field with
  | none => rfl
  | some v => cases v <;> rfl

theorem put_ne_nil (d : Document) (key : String) (v : Value) : d.put key v ≠ [] := by
  cases d with
  | nil => exact List.cons_ne_nil _ _
  | cons field rest =>
      rw [Document.put]
      split <;> exact List.cons_ne_nil _ _

/-- Operators written one after the other. -/
def putAll (operators : Document) (writes : List (String × Value)) : Document :=
  writes.foldl (fun written write => written.put write.1 write.2) operators

theorem putAll_ne_nil (operators : Document) {writes : List (String × Value)}
    (hsome : writes ≠ []) : putAll operators writes ≠ [] := by
  induction writes generalizing operators with
  | nil => exact absurd rfl hsome
  | cons first rest ih =>
      cases rest with
      | nil => exact put_ne_nil operators first.1 first.2
      | cons second more => exact ih _ (List.cons_ne_nil _ _)

/-- Operators that are merged one after the other become one document at the field. -/
theorem mergeAll_eq (c : Criteria) (field : String) {writes : List (String × Value)}
    (hsome : writes ≠ []) :
    c.mergeAll field writes =
      ⟨c.document.put field (.document (putAll (c.operators field) writes))⟩ := by
  induction writes generalizing c with
  | nil => exact absurd rfl hsome
  | cons first rest ih =>
      rw [mergeAll_cons, merge_eq]
      cases rest with
      | nil => rfl
      | cons second more =>
          rw [ih _ (List.cons_ne_nil _ _)]
          simp [operators, Value.fields?, putAll]

/-- An operator with an operand that stands for one of the given conditions on a field. -/
inductive Expresses (given : List Predicate) (field : String) : String × Value → Prop
  | comparison {comparison : Comparison} {operand : Value}
      (h : .compared field comparison operand ∈ given) :
      Expresses given field (comparison.operator, operand)
  | pattern {pattern : String} (h : .matching field pattern "i" ∈ given) :
      Expresses given field ("$regex", .string pattern)
  | options : Expresses given field ("$options", .string "i")

/-- Operators that stand for given conditions on a field.  A pattern has options, and options
stand beside a pattern. -/
structure Express (given : List Predicate) (field : String) (operators : Document) : Prop where
  each : ∀ entry ∈ operators, Expresses given field entry
  options : operators.has "$regex" = operators.has "$options"

theorem express_nil (given : List Predicate) (field : String) : Express given field [] :=
  ⟨nofun, rfl⟩

/-! ### Reading operators -/

section Operators

variable {given : List Predicate} {field : String}

theorem Expresses.isOperatorKey {entry : String × Value} (h : Expresses given field entry) :
    isOperatorKey entry.1 = true := by
  cases h with
  | comparison => exact isOperatorKey_operator _
  | pattern => exact (by decide : DocumentBase.isOperatorKey "$regex" = true)
  | options => exact (by decide : DocumentBase.isOperatorKey "$options" = true)

theorem operator_ne_pattern (comparison : Comparison) :
    comparison.operator ≠ "$regex" ∧ comparison.operator ≠ "$options" := by
  cases comparison <;> decide

theorem pattern_ne_options : "$regex" ≠ "$options" := by decide

/-- The only options that calls write ask for case to be ignored. -/
theorem Expresses.options_eq {entry : String × Value} (h : Expresses given field entry)
    (hkey : entry.1 = "$options") : entry.2 = .string "i" := by
  cases h with
  | comparison => exact absurd hkey (operator_ne_pattern _).2
  | pattern => exact absurd hkey pattern_ne_options
  | options => rfl

/-- An operator that is there has an operand, and both stand for a condition. -/
theorem Express.exists_of_has {operators : Document} (h : Express given field operators)
    {key : String} (hkey : operators.has key = true) :
    ∃ operand, operators.value? key = some operand ∧ Expresses given field (key, operand) := by
  obtain ⟨operand, hoperand⟩ := Option.isSome_iff_exists.mp hkey
  exact ⟨operand, hoperand, h.each _ (Document.mem_of_value? hoperand)⟩

/-- Behind a pattern the options can be looked up. -/
theorem Express.value?_options {operators : Document} (h : Express given field operators)
    {operand : Value} (hmem : ("$regex", operand) ∈ operators) :
    operators.value? "$options" = some (.string "i") := by
  have hregex := Value.has_of_mem_keys (List.mem_map_of_mem (f := Prod.fst) hmem)
  obtain ⟨options, hoptions, hexpresses⟩ := h.exists_of_has (h.options ▸ hregex)
  rw [hoptions, ← hexpresses.options_eq rfl]

/-- Operators are not all options. -/
theorem Express.exists_condition {operators : Document} (h : Express given field operators)
    (hsome : operators ≠ []) : ∃ entry ∈ operators, entry.1 ≠ "$options" := by
  obtain ⟨⟨key, operand⟩, hmem⟩ := List.exists_mem_of_ne_nil operators hsome
  by_cases hkey : key = "$options"
  · subst hkey
    have hoptions := Value.has_of_mem_keys (List.mem_map_of_mem (f := Prod.fst) hmem)
    obtain ⟨pattern, hpattern, -⟩ := h.exists_of_has (h.options.trans hoptions)
    exact ⟨_, Document.mem_of_value? hpattern, pattern_ne_options⟩
  · exact ⟨_, hmem, hkey⟩

/-- Something was read that is made of given conditions. -/
def Reads (given : List Predicate) (read : Outcome (List Predicate)) : Prop :=
  ∃ clauses, read = .ok clauses ∧ clauses ≠ [] ∧ ∀ p ∈ clauses, MadeOf given p

theorem Expresses.parseOperator {operators : Document} {entry : String × Value}
    (h : Expresses given field entry)
    (hoptions : entry.1 = "$regex" → operators.value? "$options" = some (.string "i")) :
    ∃ clauses, parseOperator field operators entry.1 entry.2 = .ok clauses ∧
      (entry.1 ≠ "$options" → clauses ≠ []) ∧ ∀ p ∈ clauses, MadeOf given p := by
  cases h with
  | comparison h =>
      exact ⟨_, parseOperator_comparison field operators _ _, fun _ => List.cons_ne_nil _ _,
        List.forall_mem_singleton.mpr (madeOf_compared h)⟩
  | pattern h =>
      exact ⟨_, parseOperator_pattern (hoptions rfl) field _, fun _ => List.cons_ne_nil _ _,
        List.forall_mem_singleton.mpr (madeOf_matching h)⟩
  | options => exact ⟨[], parseOperator_options field operators _, fun h => absurd rfl h, nofun⟩

/-- Operators that stand for conditions are read as these conditions, and as at least one if any of
them is more than the options of a pattern. -/
theorem parseOperators_of_expresses {operators : Document} (entries : Document)
    (h : ∀ entry ∈ entries, Expresses given field entry)
    (hoptions : ∀ entry ∈ entries, entry.1 = "$regex" →
      operators.value? "$options" = some (.string "i")) :
    ∃ clauses, parseOperators field operators entries = .ok clauses ∧
      ((∃ entry ∈ entries, entry.1 ≠ "$options") → clauses ≠ []) ∧
      ∀ p ∈ clauses, MadeOf given p := by
  induction entries with
  | nil => exact ⟨[], rfl, fun ⟨_, hentry, _⟩ => (nomatch hentry), nofun⟩
  | cons entry rest ih =>
      obtain ⟨hentry, hrest⟩ := List.forall_mem_cons.mp h
      obtain ⟨hregex, hrestoptions⟩ := List.forall_mem_cons.mp hoptions
      obtain ⟨first, hfirst, hfirstsome, hfirstmade⟩ := hentry.parseOperator hregex
      obtain ⟨others, hothers, hotherssome, hothersmade⟩ := ih hrest hrestoptions
      refine ⟨first ++ others, ?_, ?_, List.forall_mem_append.mpr ⟨hfirstmade, hothersmade⟩⟩
      · rw [parseOperators, hfirst, hothers]
        rfl
      · rintro ⟨condition, hmem, hkey⟩ hnil
        obtain ⟨hfirstnil, hothersnil⟩ := List.append_eq_nil_iff.mp hnil
        rcases List.mem_cons.mp hmem with rfl | hmem
        · exact hfirstsome hkey hfirstnil
        · exact hotherssome ⟨condition, hmem, hkey⟩ hothersnil

/-- Operators that stand for conditions are told from a plain value. -/
theorem Express.isOperators {operators : Document} (h : Express given field operators)
    (hsome : operators ≠ []) : isOperators operators = true := by
  simp only [Criteria.isOperators, Bool.and_eq_true, List.all_eq_true, Bool.not_eq_true',
    List.isEmpty_eq_false_iff]
  exact ⟨hsome, fun entry hentry => (h.each entry hentry).isOperatorKey⟩

/-- A field with operators is read as their conditions. -/
theorem Express.reads {operators : Document} (h : Express given field operators)
    (hsome : operators ≠ []) : Reads given (parseField field (.document operators)) := by
  have hoptions : ∀ entry ∈ operators, entry.1 = "$regex" →
      operators.value? "$options" = some (.string "i") := by
    rintro ⟨key, operand⟩ hentry rfl
    exact h.value?_options hentry
  obtain ⟨clauses, hclauses, hconditions, hmade⟩ :=
    parseOperators_of_expresses operators h.each hoptions
  exact ⟨clauses, by rw [parseField, if_pos (h.isOperators hsome), hclauses],
    hconditions (h.exists_condition hsome), hmade⟩

/-! ### Writing operators -/

theorem has_put (d : Document) (key : String) (v : Value) (other : String) :
    (d.put key v).has other = (decide (key = other) || d.has other) := by
  by_cases h : key = other
  · subst h
    simp [Document.has]
  · simp [Document.has, Document.value?_put_ne d v h, h]

/-- Another comparison on the field may be written beside the operators, or over one of them. -/
theorem Express.put_comparison {operators : Document} (h : Express given field operators)
    {comparison : Comparison} {operand : Value}
    (hgiven : .compared field comparison operand ∈ given) :
    Express given field (operators.put comparison.operator operand) := by
  obtain ⟨hregex, hoptions⟩ := operator_ne_pattern comparison
  constructor
  · intro entry hentry
    rcases Document.mem_put hentry with rfl | hentry
    · exact .comparison hgiven
    · exact h.each entry hentry
  · simp [has_put, hregex, hoptions, h.options]

/-- A pattern is written with its options, so that neither stands without the other. -/
theorem Express.put_pattern {operators : Document} (h : Express given field operators)
    {pattern : String} (hgiven : .matching field pattern "i" ∈ given) :
    Express given field
      ((operators.put "$regex" (.string pattern)).put "$options" (.string "i")) := by
  constructor
  · intro entry hentry
    rcases Document.mem_put hentry with rfl | hentry
    · exact .options
    rcases Document.mem_put hentry with rfl | hentry
    · exact .pattern hgiven
    · exact h.each entry hentry
  · simp [has_put]

end Operators

/-! ### Entries -/

/-- An entry that stands for given conditions: a field with operators, or a combinator with
children. -/
inductive EntryOf (given : List Predicate) : String × Value → Prop
  | field {field : String} {operators : Document} (hplain : isOperatorKey field = false)
      (hsome : operators ≠ []) (h : Express given field operators) :
      EntryOf given (field, .document operators)
  | combined (combinator : Combinator) {children : List Value}
      (h : Reads given (parseChildren combinator.key children)) :
      EntryOf given (combinator.key, .array children)

/-- Criteria whose entries stand for given conditions. -/
def ConsistsOf (given : List Predicate) (c : Criteria) : Prop :=
  ∀ entry ∈ c.document, EntryOf given entry

section Entries

variable {given : List Predicate}

/-- An entry is read as what it stands for. -/
theorem EntryOf.reads {entry : String × Value} (h : EntryOf given entry) :
    Reads given (parseEntry entry.1 entry.2) := by
  cases h with
  | field hplain hsome h =>
      rw [parseEntry_of_plain hplain]
      exact h.reads hsome
  | combined combinator h =>
      obtain ⟨predicates, hpredicates, hsome, hmade⟩ := h
      refine ⟨[.combined combinator predicates], ?_, List.cons_ne_nil _ _,
        List.forall_mem_singleton.mpr (madeOf_combined combinator hsome hmade)⟩
      rw [parseEntry_key, hpredicates]
      rfl

/-- The children of a combinator are read as what they stand for. -/
theorem EntryOf.reads_children {entry : String × Value} (h : EntryOf given entry)
    {children : List Value} (hvalue : entry.2 = .array children) :
    Reads given (parseChildren entry.1 children) := by
  cases h with
  | field => cases hvalue
  | combined combinator h =>
      cases hvalue
      exact h

/-- An entry under the name of a field has the operators of that field. -/
theorem EntryOf.express {entry : String × Value} (h : EntryOf given entry)
    (hplain : isOperatorKey entry.1 = false) :
    ∃ operators, entry.2 = .document operators ∧ Express given entry.1 operators := by
  cases h with
  | field _ _ h => exact ⟨_, rfl, h⟩
  | combined combinator h =>
      rw [isOperatorKey_key] at hplain
      cases hplain

/-- Entries are read one after the other, and at least one condition comes of them. -/
theorem reads_parseEntries {entries : Document} (h : ∀ entry ∈ entries, EntryOf given entry)
    (hsome : entries ≠ []) : Reads given (parseEntries entries) := by
  induction entries with
  | nil => exact absurd rfl hsome
  | cons entry rest ih =>
      obtain ⟨hentry, hrest⟩ := List.forall_mem_cons.mp h
      obtain ⟨first, hfirst, hfirstsome, hfirstmade⟩ := hentry.reads
      by_cases hnil : rest = []
      · subst hnil
        exact ⟨first, by rw [parseEntries_singleton, hfirst], hfirstsome, hfirstmade⟩
      · obtain ⟨others, hothers, -, hothersmade⟩ := ih hrest hnil
        refine ⟨first ++ others, ?_, List.append_ne_nil_of_left_ne_nil hfirstsome others,
          List.forall_mem_append.mpr ⟨hfirstmade, hothersmade⟩⟩
        rw [parseEntries, hfirst, hothers]
        rfl

/-- Criteria that are not empty are read as a predicate made of their conditions. -/
theorem ConsistsOf.exists_predicate {c : Criteria} (h : ConsistsOf given c)
    (hsome : c.isEmpty = false) : ∃ p, c.predicate = .ok p ∧ MadeOf given p := by
  obtain ⟨clauses, hclauses, hne, hmade⟩ :=
    reads_parseEntries h (List.isEmpty_eq_false_iff.mp hsome)
  exact ⟨gather clauses, predicate_eq_ok.mpr ⟨clauses, hclauses, rfl⟩, madeOf_gather hne hmade⟩

theorem consistsOf_singleton {entry : String × Value} (h : EntryOf given entry) :
    ConsistsOf given ⟨[entry]⟩ :=
  List.forall_mem_singleton.mpr h

/-- Criteria may get another entry, in place of one or beside all others. -/
theorem ConsistsOf.put {c : Criteria} (h : ConsistsOf given c) {key : String} {v : Value}
    (hentry : EntryOf given (key, v)) : ConsistsOf given ⟨c.document.put key v⟩ := by
  intro entry hmem
  rcases Document.mem_put hmem with rfl | hmem
  · exact hentry
  · exact h entry hmem

theorem ConsistsOf.entry_of_value? {c : Criteria} (h : ConsistsOf given c) {key : String}
    {v : Value} (hv : c.document.value? key = some v) : EntryOf given (key, v) :=
  h _ (Document.mem_of_value? hv)

/-! ### Calls on criteria -/

/-- One more child joins the others. -/
theorem Reads.concat {key : String} {children : List Value}
    (h : Reads given (parseChildren key children)) {b : Criteria} {q : Predicate}
    (hb : b.predicate = .ok q) (hq : MadeOf given q) :
    Reads given (parseChildren key (children ++ [.document b.document])) := by
  obtain ⟨predicates, hpredicates, -, hmade⟩ := h
  exact ⟨predicates ++ [q], parseChildren_concat hpredicates hb, by simp,
    List.forall_mem_append.mpr ⟨hmade, List.forall_mem_singleton.mpr hq⟩⟩

theorem reads_singleton {key : String} {b : Criteria} {q : Predicate}
    (hb : b.predicate = .ok q) (hq : MadeOf given q) :
    Reads given (parseChildren key [.document b.document]) :=
  ⟨[q], parseChildren_singleton hb, List.cons_ne_nil _ _, List.forall_mem_singleton.mpr hq⟩

/-- Criteria may be combined with others that stand for given conditions. -/
theorem ConsistsOf.combine {a b : Criteria} (ha : ConsistsOf given a) (hb : ConsistsOf given b)
    (combinator : Combinator) : ConsistsOf given (combine combinator a b) := by
  cases hmore : b.isEmpty with
  | true => rwa [combine_of_isEmpty_right combinator a hmore]
  | false =>
      cases hsome : a.isEmpty with
      | true => rwa [combine_of_isEmpty_left combinator b hsome]
      | false =>
          obtain ⟨p, hp, hpmade⟩ := ha.exists_predicate hsome
          obtain ⟨q, hq, hqmade⟩ := hb.exists_predicate hmore
          have hpair : ConsistsOf given
              ⟨[(combinator.key, .array [.document a.document, .document b.document])]⟩ :=
            consistsOf_singleton
              (.combined combinator ((reads_singleton hp hpmade).concat hq hqmade))
          rw [Criteria.combine, hmore, hsome, if_neg Bool.false_ne_true,
            if_neg Bool.false_ne_true]
          split
          next key children hdocument =>
            split
            next hkey =>
              subst hkey
              have hentry : EntryOf given (combinator.key, .array children) :=
                ha _ (hdocument ▸ List.mem_cons_self)
              exact consistsOf_singleton
                (.combined combinator ((hentry.reads_children rfl).concat hq hqmade))
            next => exact hpair
          next => exact hpair

/-- Criteria may exclude others that stand for given conditions. -/
theorem ConsistsOf.not {a b : Criteria} (ha : ConsistsOf given a) (hb : ConsistsOf given b) :
    ConsistsOf given (a.not b) := by
  cases hmore : b.isEmpty with
  | true => rwa [a.not_of_isEmpty hmore]
  | false =>
      obtain ⟨q, hq, hqmade⟩ := hb.exists_predicate hmore
      rw [a.not_eq hmore]
      refine ha.put (.combined .nor ?_)
      rw [excluded]
      cases hnor : a.document.value? Combinator.nor.key with
      | none => exact reads_singleton hq hqmade
      | some v =>
          cases v with
          | array children =>
              exact ((ha.entry_of_value? hnor).reads_children rfl).concat hq hqmade
          | _ => exact reads_singleton hq hqmade

/-- The operators for a field stand for conditions on that field. -/
theorem ConsistsOf.operators {c : Criteria} (h : ConsistsOf given c) {field : String}
    (hplain : isOperatorKey field = false) : Express given field (c.operators field) := by
  rw [Criteria.operators]
  cases hv : c.document.value? field with
  | none => exact express_nil given field
  | some v =>
      obtain ⟨operators, rfl, hoperators⟩ := (h.entry_of_value? hv).express hplain
      exact hoperators

/-- Operators that stand for conditions together with those that are there may be merged into
criteria. -/
theorem ConsistsOf.mergeAll {c : Criteria} (h : ConsistsOf given c) {field : String}
    (hplain : isOperatorKey field = false) {writes : List (String × Value)} (hsome : writes ≠ [])
    (hwrites : Express given field (putAll (c.operators field) writes)) :
    ConsistsOf given (c.mergeAll field writes) := by
  rw [mergeAll_eq c field hsome]
  exact h.put (.field hplain (putAll_ne_nil _ hsome) hwrites)

end Entries

end Criteria

/-! ### Filters -/

namespace Filter

open Predicate Criteria

/-- A call of the interface, and the conditions that it states of a field. -/
inductive Call.States : Call → List Predicate → Prop
  | compare {comparison : Comparison} (h : comparison.takesList = false) (field : String)
      (operand : Value) :
      States (.compare comparison field operand) [.compared field comparison operand]
  | between (field : String) (low high : Value) :
      States (.between field low high) [.compared field .ge low, .compared field .le high]
  | text (placement : Placement) (field text : String) :
      States (.text placement field text) [.matching field (placement.pattern text) "i"]
  | among {comparison : Comparison} (h : comparison.takesList = true) (field : String)
      (values : Value) :
      States (.among comparison field values)
        [.compared field comparison (.array (asItems values))]

/-- A filter that is built by calls of the interface, and the conditions stated by these calls and
by those that built the filters it was combined with. -/
inductive Built : Filter → List Predicate → Prop
  | empty : Built .empty []
  | state {f : Filter} {stated conditions : List Predicate} {c : Call} (hf : Built f stated)
      (hc : c.States conditions) : Built (f.call c) (stated ++ conditions)
  | and {f g : Filter} {stated others : List Predicate} (hf : Built f stated)
      (hg : Built g others) : Built (f.call (.and g)) (stated ++ others)
  | or {f g : Filter} {stated others : List Predicate} (hf : Built f stated)
      (hg : Built g others) : Built (f.call (.or g)) (stated ++ others)
  | not {f g : Filter} {stated others : List Predicate} (hf : Built f stated)
      (hg : Built g others) : Built (f.call (.not g)) (stated ++ others)

/-- The conditions that a call states can be evaluated on every document. -/
theorem Call.States.isTotal {c : Call} {conditions : List Predicate}
    (h : c.States conditions) : ∀ q ∈ conditions, q.IsTotal := by
  cases h with
  | compare h field operand =>
      exact List.forall_mem_singleton.mpr (isTotal_compared h field operand)
  | between field low high =>
      exact List.forall_mem_cons.mpr ⟨isTotal_compared rfl field low,
        List.forall_mem_singleton.mpr (isTotal_compared rfl field high)⟩
  | text placement field text =>
      exact List.forall_mem_singleton.mpr
        (isTotal_matching (placement.isSome_parse?_pattern text _) field)
  | among _ field values =>
      exact List.forall_mem_singleton.mpr (isTotal_compared_array _ field _)

/-- The conditions that a filter states can be evaluated on every document. -/
theorem Built.isTotal {f : Filter} {stated : List Predicate} (h : Built f stated) :
    ∀ q ∈ stated, q.IsTotal := by
  induction h with
  | empty => exact List.forall_mem_nil _
  | state _ hc hf => exact List.forall_mem_append.mpr ⟨hf, hc.isTotal⟩
  | and _ _ hf hg | or _ _ hf hg | not _ _ hf hg => exact List.forall_mem_append.mpr ⟨hf, hg⟩

/-! ### Calls without errors -/

theorem build_eq_ok {f : Filter} {c : Criteria} :
    f.build = .ok c ↔ f.error = none ∧ f.criteria = c := by
  rw [build]
  cases f.error with
  | none => simp
  | some e => simp

/-- A filter without an error after a call had none before it. -/
theorem error_of_call {f : Filter} {c : Call} (h : (f.call c).error = none) : f.error = none := by
  by_contra hsome
  rw [call_of_error (Option.isSome_iff_ne_none.mpr hsome)] at h
  exact hsome h

theorem error_fail_ne_none (f : Filter) (e : Error) : (f.fail e).error ≠ none := by
  intro h
  rw [fail] at h
  split at h
  next hsome => simp [h] at hsome
  next => cases h

/-- An assertion without error was checked, and it was skipped or written. -/
theorem assert_cases {f : Filter} {a : Assertion} (h : (f.assert a).error = none) :
    a.check = .ok () ∧ (f.assert a = f ∨ f.assert a = f.write a) := by
  unfold assert at h ⊢
  split at h
  next hsome => simp [h] at hsome
  next hnone =>
    rw [if_neg hnone]
    cases hcheck : a.check with
    | error e =>
        rw [hcheck] at h
        exact absurd h (f.error_fail_ne_none e)
    | ok =>
        dsimp only
        split
        · exact ⟨rfl, .inl rfl⟩
        · exact ⟨rfl, .inr rfl⟩

/-- A field that passes its check is not taken for an operator. -/
theorem isOperatorKey_of_check {a : Assertion} (h : a.check = .ok ()) :
    isOperatorKey a.field = false := by
  obtain ⟨_, hfield, _⟩ := Outcome.bind_eq_ok.mp h
  rw [checkField] at hfield
  split at hfield
  · cases hfield
  split at hfield
  · cases hfield
  next hallowed =>
    rw [isOperatorKey, decide_eq_false_iff_not]
    intro hdollar
    exact hallowed (by simp [hdollar])

/-- A call that states conditions makes an assertion whose operators stand for them. -/
theorem Call.States.exists_assertion {c : Call} {conditions : List Predicate}
    (h : c.States conditions) {f : Filter} (hok : (f.call c).error = none) :
    ∃ a, f.call c = f.assert a ∧ a.writes ≠ [] ∧
      ∀ given operators, (∀ q ∈ conditions, q ∈ given) → Express given a.field operators →
        Express given a.field (putAll operators a.writes) := by
  cases h with
  | compare _ field operand =>
      refine ⟨_, rfl, List.cons_ne_nil _ _, fun given operators hgiven hoperators => ?_⟩
      exact hoperators.put_comparison (List.forall_mem_singleton.mp hgiven)
  | between field low high =>
      refine ⟨_, rfl, List.cons_ne_nil _ _, fun given operators hgiven hoperators => ?_⟩
      obtain ⟨hlow, hhigh⟩ := List.forall_mem_cons.mp hgiven
      have hfirst := hoperators.put_comparison hlow
      exact hfirst.put_comparison (List.forall_mem_singleton.mp hhigh)
  | text placement field text =>
      refine ⟨_, rfl, List.cons_ne_nil _ _, fun given operators hgiven hoperators => ?_⟩
      exact hoperators.put_pattern (List.forall_mem_singleton.mp hgiven)
  | @among comparison _ field values =>
      have hitems : (asItems values).isEmpty = false := by
        by_contra hempty
        rw [Bool.not_eq_false] at hempty
        rw [call, if_pos hempty] at hok
        exact f.error_fail_ne_none _ hok
      refine ⟨comparing comparison field (.array (asItems values)), ?_, List.cons_ne_nil _ _,
        fun given operators hgiven hoperators => ?_⟩
      · rw [call, hitems, if_neg Bool.false_ne_true]
      · exact hoperators.put_comparison (List.forall_mem_singleton.mp hgiven)

/-! ### What is built -/

/-- A combination without error is one of two filters without errors. -/
theorem consistsOf_combine {given : List Predicate}
    {combination : Criteria → Criteria → Criteria}
    (hcombination : ∀ {a b}, ConsistsOf given a → ConsistsOf given b →
      ConsistsOf given (combination a b))
    {f g : Filter} (hok : (f.combine combination g).error = none)
    (hf : f.error = none → ConsistsOf given f.criteria)
    (hg : g.error = none → ConsistsOf given g.criteria) :
    ConsistsOf given (f.combine combination g).criteria := by
  unfold combine at hok ⊢
  split at hok
  next hsome => simp [hok] at hsome
  next hnone =>
    rw [if_neg hnone]
    cases hother : g.error with
    | some e =>
        rw [hother] at hok
        exact absurd hok (f.error_fail_ne_none e)
    | none =>
        have hbefore : f.error = none := by simpa using hnone
        exact hcombination (hf hbefore) (hg hother)

/-- The criteria of a filter consist of the conditions that were stated. -/
theorem Built.consistsOf {f : Filter} {stated : List Predicate} (h : Built f stated)
    (hok : f.error = none) {given : List Predicate} (hgiven : ∀ q ∈ stated, q ∈ given) :
    ConsistsOf given f.criteria := by
  induction h with
  | empty => exact List.forall_mem_nil _
  | state _ hc ih =>
      obtain ⟨hstated, hconditions⟩ := List.forall_mem_append.mp hgiven
      have hbefore := ih (error_of_call hok) hstated
      obtain ⟨a, hcall, hsome, hexpress⟩ := hc.exists_assertion hok
      rw [hcall] at hok ⊢
      obtain ⟨hcheck, hskipped | hwritten⟩ := assert_cases hok
      · rwa [hskipped]
      · have hplain := isOperatorKey_of_check hcheck
        rw [hwritten]
        exact hbefore.mergeAll hplain hsome
          (hexpress given _ hconditions (hbefore.operators hplain))
  | and _ _ ihf ihg =>
      obtain ⟨hstated, hothers⟩ := List.forall_mem_append.mp hgiven
      exact consistsOf_combine (fun ha hb => ha.combine hb .and) hok (ihf · hstated)
        (ihg · hothers)
  | or _ _ ihf ihg =>
      obtain ⟨hstated, hothers⟩ := List.forall_mem_append.mp hgiven
      exact consistsOf_combine (fun ha hb => ha.combine hb .or) hok (ihf · hstated)
        (ihg · hothers)
  | not _ _ ihf ihg =>
      obtain ⟨hstated, hothers⟩ := List.forall_mem_append.mp hgiven
      exact consistsOf_combine (fun ha hb => ha.not hb) hok (ihf · hstated) (ihg · hothers)

/-- Whatever values the calls were given, the criteria that were built can be read, hold or do not
hold of every document, and are written for a server without empty lists of children.  They are
read as conditions that the calls stated, each with its whole operand. -/
theorem Built.runs_on_all_documents {f : Filter} {stated : List Predicate} (h : Built f stated)
    {c : Criteria} (hbuild : f.build = .ok c) :
    ∃ p, c.predicate = .ok p ∧ (∀ q ∈ p.conditions, q ∈ stated) ∧
      (∀ d, ∃ held, c.holds d = .ok held) ∧
      ∃ written, c.explicit = .ok written ∧
        (c.isEmpty = false → areFilledEntries written = true) := by
  obtain ⟨hok, rfl⟩ := build_eq_ok.mp hbuild
  cases hsome : f.criteria.isEmpty with
  | true =>
      have hempty : f.criteria = ⟨[]⟩ := congrArg Criteria.mk (List.isEmpty_iff.mp hsome)
      rw [hempty]
      exact ⟨.combined .and [], rfl, nofun, fun _ => ⟨true, rfl⟩, [], rfl, nofun⟩
  | false =>
      have hconsists := h.consistsOf hok fun _ hq => hq
      obtain ⟨p, hp, hmade⟩ := hconsists.exists_predicate hsome
      have htotal : p.IsTotal :=
        p.isTotal_of_conditions fun q hq => h.isTotal q (hmade.conditions q hq)
      refine ⟨p, hp, hmade.conditions, fun d => ?_, p.render, explicit_of_predicate hsome hp,
        fun _ => ?_⟩
      · rw [holds_eq hp]
        exact htotal d
      · rw [areFilledEntries_render, hmade.filled]

/-! ### A filter with operators in its operands -/

namespace BuildingExample

def named : Filter := Filter.empty.call (.text .atStart "name" "a.b")

def tagged : Filter := Filter.empty.call (.among .oneOf "tag" (.string "x"))

/-- The operand of the first comparison is a document with an operator as its key. -/
def drafts : Filter :=
  (((Filter.empty.call (.compare .eq "state" (.document [("$gt", .int32 1)]))).call
    (.between "age" (.int32 3) (.int32 9))).call (.or named)).call (.not tagged)

theorem built_named : Built named [.matching "name" "^a\\.b" "i"] :=
  .state .empty (.text .atStart "name" "a.b")

theorem built_tagged : Built tagged [.compared "tag" .oneOf (.array [.string "x"])] :=
  .state .empty (.among rfl "tag" (.string "x"))

theorem built_drafts : Built drafts
    [.compared "state" .eq (.document [("$gt", .int32 1)]), .compared "age" .ge (.int32 3),
      .compared "age" .le (.int32 9), .matching "name" "^a\\.b" "i",
      .compared "tag" .oneOf (.array [.string "x"])] :=
  .not (.or (.state (.state .empty (.compare rfl "state" _)) (.between "age" _ _)) built_named)
    built_tagged

end BuildingExample

open BuildingExample in
theorem Built.runs_on_all_documents_of_drafts :
    ∃ c, drafts.build = .ok c ∧ c.isEmpty = false ∧
      ∃ p, c.predicate = .ok p ∧
        (∀ q ∈ p.conditions, q ∈
          [.compared "state" .eq (.document [("$gt", .int32 1)]), .compared "age" .ge (.int32 3),
            .compared "age" .le (.int32 9), .matching "name" "^a\\.b" "i",
            .compared "tag" .oneOf (.array [.string "x"])]) ∧
        (∀ d, ∃ held, c.holds d = .ok held) ∧
        ∃ written, c.explicit = .ok written ∧
          (c.isEmpty = false → areFilledEntries written = true) := by
  have hbuild : drafts.build = .ok drafts.criteria := rfl
  exact ⟨_, hbuild, by decide, built_drafts.runs_on_all_documents hbuild⟩

end Filter

end DocumentBase
