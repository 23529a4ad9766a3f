import DocumentBase.Proofs.Filter.Building

/-!
# Calls that narrow

A call on a filter adds its conditions to those that are there: a document matches afterwards if it
matched before and matches the call alone.  This is so where the filter has only operators for the
field, or nothing, and none of those that the call writes.  A plain value is replaced by the
operators, and a document that is not made of operators takes them as further fields; both forget
the equality that they stood for.
-/

namespace DocumentBase

/-! ### Writing fields -/

namespace Document

variable {d : Document} {key : String} {v : Value}

/-- A field that is there is written over where it stands. -/
theorem exists_put (h : d.value? key = some v) :
    ∃ before after, d = before ++ (key, v) :: after ∧
      ∀ w, d.put key w = before ++ (key, w) :: after := by
  induction d with
  | nil => cases h
  | cons field rest ih =>
      obtain ⟨k, w⟩ := field
      rw [value?_cons] at h
      split at h
      next hk =>
        cases h
        subst hk
        exact ⟨[], rest, rfl, fun w => if_pos rfl⟩
      next hk =>
        obtain ⟨before, after, hrest, hput⟩ := ih h
        refine ⟨(k, w) :: before, after, congrArg _ hrest, fun u => ?_⟩
        rw [put, if_neg hk, hput]
        rfl

theorem value?_append (d e : Document) (key : String) :
    Document.value? (d ++ e) key = (d.value? key).or (e.value? key) := by
  induction d with
  | nil => rfl
  | cons field rest ih =>
      obtain ⟨k, v⟩ := field
      rw [List.cons_append, value?_cons, value?_cons, ih]
      split <;> rfl

end Document

/-! ### Conditions among others -/

namespace Predicate

variable {d : Document} {ps qs : List Predicate} {x y : Bool}

/-- Conditions are evaluated in their order, up to the first one that does not hold. -/
theorem allHold_append_eq_ok :
    allHold d (ps ++ qs) = .ok x ↔
      allHold d ps = .ok false ∧ x = false ∨ allHold d ps = .ok true ∧ allHold d qs = .ok x := by
  induction ps with
  | nil => simp [allHold]
  | cons p rest ih =>
      rw [List.cons_append, allHold_cons_eq_ok, allHold_cons_eq_ok, allHold_cons_eq_ok, ih]
      grind

/-- Conditions that can be evaluated may be put in anywhere. -/
theorem allHold_insert {new : List Predicate} (hall : allHold d (ps ++ qs) = .ok x)
    (hnew : allHold d new = .ok y) : allHold d (ps ++ new ++ qs) = .ok (x && y) := by
  rw [allHold_append_eq_ok] at hall
  rw [List.append_assoc, allHold_append_eq_ok, allHold_append_eq_ok]
  rcases hall with ⟨hps, rfl⟩ | ⟨hps, hqs⟩
  · exact .inl ⟨hps, rfl⟩
  · right
    refine ⟨hps, ?_⟩
    cases y with
    | false => exact .inl ⟨hnew, Bool.and_false x⟩
    | true => exact .inr ⟨hnew, by rwa [Bool.and_true]⟩

end Predicate

namespace Criteria

open Predicate

/-! ### Reading more operators -/

/-- Entries are read in their order. -/
theorem parseEntries_append (entries more : Document) :
    parseEntries (entries ++ more) = do
      return (← parseEntries entries) ++ (← parseEntries more) := by
  induction entries with
  | nil =>
      rw [List.nil_append]
      cases parseEntries more <;> rfl
  | cons entry rest ih =>
      rw [List.cons_append, parseEntries, parseEntries, ih]
      cases parseEntry entry.1 entry.2 with
      | error e => rfl
      | ok first =>
          cases parseEntries rest with
          | error e => rfl
          | ok others =>
              cases parseEntries more with
              | error e => rfl
              | ok last => exact congrArg Except.ok (List.append_assoc first others last).symm

/-- Operators are read in their order; all of them are looked at for the options of a pattern. -/
theorem parseOperators_append (field : String) (operators entries more : Document) :
    parseOperators field operators (entries ++ more) = do
      return (← parseOperators field operators entries) ++
        (← parseOperators field operators more) := by
  induction entries with
  | nil =>
      rw [List.nil_append]
      cases parseOperators field operators more <;> rfl
  | cons entry rest ih =>
      rw [List.cons_append, parseOperators, parseOperators, ih]
      cases parseOperator field operators entry.1 entry.2 with
      | error e => rfl
      | ok first =>
          cases parseOperators field operators rest with
          | error e => rfl
          | ok others =>
              cases parseOperators field operators more with
              | error e => rfl
              | ok last => exact congrArg Except.ok (List.append_assoc first others last).symm

/-- Beside the operators that are read only the options of a pattern matter. -/
theorem parseOperators_congr {field : String} {operators others entries : Document}
    (h : entries.has "$regex" = true → operators.value? "$options" = others.value? "$options") :
    parseOperators field operators entries = parseOperators field others entries := by
  induction entries with
  | nil => rfl
  | cons entry rest ih =>
      obtain ⟨key, operand⟩ := entry
      have hhead : key = "$regex" → operators.value? "$options" = others.value? "$options" := by
        rintro rfl
        exact h (by simp [Document.has, Document.value?_cons])
      have hrest : Document.has rest "$regex" = true →
          operators.value? "$options" = others.value? "$options" := by
        intro hrest
        apply h
        rw [Document.has, Document.value?_cons]
        split
        · rfl
        · exact hrest
      have hoperator : parseOperator field operators key operand =
          parseOperator field others key operand := by
        by_cases hkey : key = "$regex"
        · simp only [parseOperator, hhead hkey]
        · simp only [parseOperator, if_neg hkey]
      rw [parseOperators, parseOperators, hoperator, ih hrest]

/-! ### Fields with room for an assertion -/

/-- Criteria have operators only for the field of an assertion, or nothing, and none of those that
the assertion writes. -/
structure HasRoomFor (c : Criteria) (a : Assertion) : Prop where
  shape : ∀ v, c.document.value? a.field = some v →
    ∃ operators, v = .document operators ∧ isOperators operators = true
  fresh : ∀ write ∈ a.writes, c.operand? a.field write.1 = none

/-- Operators that are not there yet are written behind the others. -/
theorem putAll_eq_append {operators : Document} {writes : List (String × Value)}
    (hdistinct : (writes.map Prod.fst).Nodup)
    (hfresh : ∀ write ∈ writes, operators.value? write.1 = none) :
    putAll operators writes = operators ++ writes := by
  induction writes generalizing operators with
  | nil => exact (List.append_nil operators).symm
  | cons first rest ih =>
      obtain ⟨hfirst, hrest⟩ := List.nodup_cons.mp hdistinct
      obtain ⟨hhead, htail⟩ := List.forall_mem_cons.mp hfresh
      have hput : operators.put first.1 first.2 = operators ++ [first] :=
        Document.put_of_absent hhead first.2
      have hstep : ∀ write ∈ rest, (operators.put first.1 first.2).value? write.1 = none := by
        intro write hwrite
        have hne : first.1 ≠ write.1 := fun heq => hfirst (heq ▸ List.mem_map_of_mem hwrite)
        rw [Document.value?_put_ne _ _ hne, htail write hwrite]
      calc
        putAll operators (first :: rest) = putAll (operators.put first.1 first.2) rest := rfl
        _ = operators.put first.1 first.2 ++ rest := ih hrest hstep
        _ = operators ++ first :: rest := by rw [hput, List.append_assoc]; rfl

section Room

variable {given : List Predicate} {field : String} {operators writes : Document}

theorem isOperators_append (h : isOperators operators = true)
    (hwrites : isOperators writes = true) : isOperators (operators ++ writes) = true := by
  simp only [Criteria.isOperators, Bool.and_eq_true, List.all_append, Bool.not_eq_true',
    List.isEmpty_eq_false_iff] at *
  exact ⟨List.append_ne_nil_of_left_ne_nil h.1 writes, h.2, hwrites.2⟩

/-- Operators that are not there yet are read as before, behind those that are. -/
theorem parseField_append (h : Express given field writes) (hsome : writes ≠ [])
    (hoperators : isOperators operators = true)
    (hfresh : ∀ write ∈ writes, operators.value? write.1 = none) {clauses new : List Predicate}
    (hclauses : parseField field (.document operators) = .ok clauses)
    (hnew : parseField field (.document writes) = .ok new) :
    parseField field (.document (operators ++ writes)) = .ok (clauses ++ new) := by
  have hwrites := h.isOperators hsome
  rw [parseField, if_pos hoperators] at hclauses
  rw [parseField, if_pos hwrites] at hnew
  have habsent {key : String} (hkey : writes.has key = true) : operators.value? key = none := by
    obtain ⟨operand, hoperand, -⟩ := h.exists_of_has hkey
    exact hfresh _ (Document.mem_of_value? hoperand)
  have hold : parseOperators field (operators ++ writes) operators = .ok clauses := by
    rw [← hclauses]
    apply parseOperators_congr
    intro hregex
    have hoptions : writes.value? "$options" = none := by
      by_contra hthere
      have hpattern : writes.has "$regex" = true := by
        rw [h.options, Document.has, Option.isSome_iff_ne_none]
        exact hthere
      rw [Document.has, habsent hpattern] at hregex
      cases hregex
    rw [Document.value?_append, hoptions, Option.or_none]
  have hadded : parseOperators field (operators ++ writes) writes = .ok new := by
    rw [← hnew]
    apply parseOperators_congr
    intro hregex
    rw [Document.value?_append, habsent (h.options ▸ hregex), Option.none_or]
  rw [parseField, if_pos (isOperators_append hoperators hwrites), parseOperators_append, hold,
    hadded]
  rfl

/-- The operators of an assertion are read where there is room for them, among the conditions that
are there. -/
theorem HasRoomFor.exists_insert {c : Criteria} {a : Assertion} (hroom : c.HasRoomFor a)
    (h : Express given a.field a.writes) (hsome : a.writes ≠ [])
    (hdistinct : (a.writes.map Prod.fst).Nodup) (hplain : isOperatorKey a.field = false)
    {clauses new : List Predicate} (hclauses : parseEntries c.document = .ok clauses)
    (hnew : parseField a.field (.document a.writes) = .ok new) :
    ∃ before after, clauses = before ++ after ∧
      parseEntries (c.mergeAll a.field a.writes).document = .ok (before ++ new ++ after) := by
  rw [mergeAll_eq c a.field hsome]
  cases hv : c.document.value? a.field with
  | none =>
      have hwrites : putAll (c.operators a.field) a.writes = a.writes := by
        rw [operators, hv]
        exact putAll_eq_append hdistinct fun _ _ => rfl
      refine ⟨clauses, [], (List.append_nil clauses).symm, ?_⟩
      rw [hwrites, Document.put_of_absent hv, parseEntries_append, hclauses, parseEntries_singleton,
        parseEntry_of_plain hplain, hnew, List.append_nil]
      rfl
  | some v =>
      obtain ⟨found, rfl, hfound⟩ := hroom.shape v hv
      have hfresh : ∀ write ∈ a.writes, Document.value? found write.1 = none := by
        intro write hwrite
        have hoperand := hroom.fresh write hwrite
        rwa [operand?, hv] at hoperand
      have hwrites : putAll (c.operators a.field) a.writes = found ++ a.writes := by
        rw [operators, hv]
        exact putAll_eq_append hdistinct hfresh
      obtain ⟨before, after, hdocument, hput⟩ := Document.exists_put hv
      rw [hdocument, parseEntries_append] at hclauses
      obtain ⟨first, hfirst, hclauses⟩ := Outcome.bind_eq_ok.mp hclauses
      obtain ⟨rest, hrest, hclauses⟩ := Outcome.bind_eq_ok.mp hclauses
      rw [parseEntries, parseEntry_of_plain hplain] at hrest
      obtain ⟨own, hown, hrest⟩ := Outcome.bind_eq_ok.mp hrest
      obtain ⟨last, hlast, hrest⟩ := Outcome.bind_eq_ok.mp hrest
      cases hrest
      cases hclauses
      refine ⟨first ++ own, last, (List.append_assoc first own last).symm, ?_⟩
      rw [hput, hwrites, parseEntries_append, hfirst, parseEntries, parseEntry_of_plain hplain,
        parseField_append h hsome hfound hfresh hown hnew, hlast]
      exact congrArg Except.ok (by simp only [List.append_assoc])

/-- Operators that are written where there is room for them narrow what the criteria hold of. -/
theorem HasRoomFor.holds_mergeAll {c : Criteria} {a : Assertion} (hroom : c.HasRoomFor a)
    (h : Express given a.field a.writes) (hsome : a.writes ≠ [])
    (hdistinct : (a.writes.map Prod.fst).Nodup) (hplain : isOperatorKey a.field = false)
    {new : List Predicate} (hnew : parseField a.field (.document a.writes) = .ok new)
    {d : Document} {x y : Bool} (hx : c.holds d = .ok x) (hy : allHold d new = .ok y) :
    (c.mergeAll a.field a.writes).holds d = .ok (x && y) := by
  obtain ⟨p, hp, hx⟩ := Outcome.bind_eq_ok.mp hx
  obtain ⟨clauses, hclauses, rfl⟩ := predicate_eq_ok.mp hp
  obtain ⟨before, after, rfl, hmerged⟩ :=
    hroom.exists_insert h hsome hdistinct hplain hclauses hnew
  rw [holds_eq (predicate_eq_ok.mpr ⟨_, hmerged, rfl⟩), holds_gather]
  rw [holds_gather] at hx
  exact allHold_insert hx hy

end Room

end Criteria

/-! ### Calls -/

namespace Filter

open Predicate Criteria

/-- A call that asserts something does so and nothing else. -/
theorem call_of_assertion? {c : Call} {a : Assertion} (h : c.assertion? = some a) (f : Filter) :
    f.call c = f.assert a := by
  cases c with
  | compare | between | text => cases h; rfl
  | among comparison field values =>
      obtain ⟨hitems, h⟩ := Option.ite_none_left_eq_some.mp h
      cases h
      rw [call, if_neg hitems]
  | and | or | not => cases h

/-- The operators that a call writes stand for the conditions that it states. -/
theorem Call.States.express {c : Call} {conditions : List Predicate} (hc : c.States conditions)
    {a : Assertion} (ha : c.assertion? = some a) : Express conditions a.field a.writes := by
  cases hc with
  | compare _ field operand =>
      cases ha
      exact (express_nil _ field).put_comparison List.mem_cons_self
  | between field low high =>
      cases ha
      have hlow : Express [.compared field .ge low, .compared field .le high] field
          [("$gte", low)] := (express_nil _ field).put_comparison List.mem_cons_self
      exact hlow.put_comparison (List.mem_cons_of_mem _ List.mem_cons_self)
  | text placement field text =>
      cases ha
      exact (express_nil _ field).put_pattern List.mem_cons_self
  | among _ field values =>
      obtain ⟨-, ha⟩ := Option.ite_none_left_eq_some.mp ha
      cases ha
      exact (express_nil _ field).put_comparison List.mem_cons_self

/-- Every assertion writes an operator. -/
theorem Asserted.writes_ne_nil {a : Assertion} (h : Asserted a) : a.writes ≠ [] := by
  cases h with
  | comparing | bounding | placing => exact List.cons_ne_nil _ _

/-- An assertion is written into criteria that a filter starts from. -/
theorem build_assert_ofCriteria {a : Assertion} (hcheck : a.check = .ok ()) (hsome : a.writes ≠ [])
    (n : Criteria) : ((ofCriteria n).assert a).build = .ok (n.mergeAll a.field a.writes) := by
  have hrepeats : (ofCriteria n).repeats a = false := by
    obtain ⟨write, rest, hwrites⟩ := List.exists_cons_of_ne_nil hsome
    rw [repeats, hwrites]
    rfl
  have hnone : (ofCriteria n).error.isSome = false := rfl
  rw [assert, hnone, if_neg Bool.false_ne_true, hcheck]
  simp only [hrepeats, Bool.false_eq_true, if_false]
  rfl

/-- An assertion on a field that may not be named is what a filter fails with. -/
theorem build_assert_of_check {a : Assertion} {e : Error} (hcheck : a.check = .error e)
    (n : Criteria) : ((ofCriteria n).assert a).build = .error e := by
  have hnone : (ofCriteria n).error.isSome = false := rfl
  rw [assert, hnone, if_neg Bool.false_ne_true, hcheck]
  rfl

/-- Membership in no list is refused by every filter. -/
theorem Call.States.refused {c : Call} {conditions : List Predicate} (hc : c.States conditions)
    (hnone : c.assertion? = none) :
    ∃ e, ∀ n, ((ofCriteria n).call c).build = .error e := by
  cases hc with
  | compare | between | text => cases hnone
  | @among comparison _ field values =>
      have hitems : (asItems values).isEmpty = true := by
        by_contra hsome
        rw [assertion?, if_neg hsome] at hnone
        cases hnone
      refine ⟨.validation (.emptySet comparison.operator field), fun n => ?_⟩
      rw [call, if_pos hitems]
      rfl

/-- A call on a filter fails as it fails alone, or it adds its conditions to those of the filter
it starts from. -/
theorem Call.States.narrows {c : Call} {conditions : List Predicate} (hc : c.States conditions)
    {n : Criteria} (hroom : ∀ a, c.assertion? = some a → n.HasRoomFor a) :
    (∃ e, ((ofCriteria n).call c).build = .error e ∧ (empty.call c).build = .error e) ∨
      ∃ combined alone, ((ofCriteria n).call c).build = .ok combined ∧
        (empty.call c).build = .ok alone ∧
        ∀ d x, n.holds d = .ok x →
          ∃ y, alone.holds d = .ok y ∧ combined.holds d = .ok (x && y) := by
  cases ha : c.assertion? with
  | none =>
      obtain ⟨e, he⟩ := hc.refused ha
      exact .inl ⟨e, he n, he .empty⟩
  | some a =>
      simp only [call_of_assertion? ha]
      cases hcheck : a.check with
      | error e =>
          exact .inl ⟨e, build_assert_of_check hcheck n, build_assert_of_check hcheck .empty⟩
      | ok _ =>
          have hasserted := Call.asserted ha
          have hsome := hasserted.writes_ne_nil
          have hplain := isOperatorKey_of_check hcheck
          have hexpress := hc.express ha
          obtain ⟨new, hnew, -, hmade⟩ := hexpress.reads hsome
          right
          refine ⟨_, _, build_assert_ofCriteria hcheck hsome n,
            build_assert_ofCriteria hcheck hsome .empty, fun d x hx => ?_⟩
          have htotal : ∀ q ∈ new, q.IsTotal := fun q hq =>
            q.isTotal_of_conditions fun r hr => hc.isTotal r ((hmade q hq).conditions r hr)
          obtain ⟨y, hy⟩ := exists_allHold (d := d) htotal
          have hreads {c : Criteria} (hroom : c.HasRoomFor a) {held : Bool}
              (hheld : c.holds d = .ok held) :
              (c.mergeAll a.field a.writes).holds d = .ok (held && y) :=
            hroom.holds_mergeAll hexpress hsome hasserted.distinct hplain hnew hheld hy
          have hempty : Criteria.empty.HasRoomFor a := ⟨nofun, fun _ _ => rfl⟩
          exact ⟨y, hreads hempty (rfl : Criteria.empty.holds d = .ok true),
            hreads (hroom a ha) hx⟩

namespace NarrowingExample

def draft : Criteria :=
  ⟨[("age", .document [("$gt", .int32 3)]), ("state", .string "draft")]⟩

def note : Document :=
  [("age", .int32 5), ("state", .string "draft")]

def young : Call := .compare .le "age" (.int32 9)

end NarrowingExample

open NarrowingExample in
theorem Call.States.narrows_of_draft :
    ∃ combined alone, ((ofCriteria draft).call young).build = .ok combined ∧
      (empty.call young).build = .ok alone ∧ draft.holds note = .ok true ∧
      ∃ y, alone.holds note = .ok y ∧ combined.holds note = .ok (true && y) := by
  have hstates : young.States [.compared "age" .le (.int32 9)] := .compare rfl "age" _
  have hroom : ∀ a, young.assertion? = some a → draft.HasRoomFor a := by
    intro a ha
    cases ha
    refine ⟨fun v hv => ?_, fun write hwrite => ?_⟩
    · cases hv
      exact ⟨_, rfl, by decide⟩
    · rw [List.mem_singleton.mp hwrite]
      decide
  have hheld : draft.holds note = .ok true := rfl
  rcases hstates.narrows hroom with ⟨e, herror, -⟩ | ⟨combined, alone, hcombined, halone, hnarrows⟩
  · cases herror
  · exact ⟨combined, alone, hcombined, halone, hheld, hnarrows note true hheld⟩

/-- A plain value is replaced, and a document that is compared as a whole becomes another one. -/
theorem Call.States.not_narrows :
    let one : Criteria := ⟨[("x", .int32 1)]⟩
    let whole : Criteria := ⟨[("x", .document [("a", .int32 1)])]⟩
    let above : Call := .compare .gt "x" (.int32 3)
    let other : Call := .compare .ne "x" (.int32 5)
    let held (f : Filter) (d : Document) : Outcome Bool := do (← f.build).holds d
    held (ofCriteria one) [("x", .int32 7)] = .ok false ∧
      held ((ofCriteria one).call above) [("x", .int32 7)] = .ok true ∧
      held (ofCriteria whole) [("x", .document [("a", .int32 1)])] = .ok true ∧
      held (empty.call other) [("x", .document [("a", .int32 1)])] = .ok true ∧
      held ((ofCriteria whole).call other) [("x", .document [("a", .int32 1)])] = .ok false :=
  ⟨rfl, rfl, rfl, rfl, rfl⟩

end Filter

end DocumentBase
