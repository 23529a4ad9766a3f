import DocumentBase.Proofs.Query.Targets

/-!
# Calls in another order

Each call of the builder changes one part of a query, looks at no other, and records at most an
error beside it.  So calls that change different parts can be made in any order.  Orders are in
one category with groups, calculations and counts: a call asks for an order of groups or of rows,
depending on whether there are groups by then.
-/

namespace DocumentBase

namespace Assembler

/-- What is asked about groups, without conditions on them and further stages. -/
def bare (a : Assembler) : Assembler :=
  { a with having := none, extra := [] }

theorem groupBy_bare (a : Assembler) (fields : List String) :
    a.bare.groupBy fields = (a.groupBy fields).map bare := by
  unfold groupBy
  cases hgrouped : a.groupedByFields with
  | true =>
      simp only [bare, hgrouped]
      rfl
  | false =>
      simp only [bare, hgrouped]
      cases fields.isEmpty with
      | true => rfl
      | false => cases fields.forM checkField <;> rfl

theorem calculate_bare (a : Assembler) (field name : String) (accumulator : Accumulator) :
    (do
        checkField field
        a.bare.calculate name accumulator) =
      (do
        checkField field
        a.calculate name accumulator : Outcome Assembler).map bare := by
  unfold calculate
  cases checkField field with
  | error e => rfl
  | ok => cases checkField name <;> rfl

end Assembler

namespace Query

/-- The parts of a query that calls change. -/
inductive Category where
  | filter
  | grouping
  | fields
  | joins
  | limit
  | skip
  | having
  | stages
  | out
  | merge
deriving DecidableEq, Repr

def Call.category : Call → Category
  | .narrow _ => .filter
  | .order _ _ | .groupBy _ | .calculate _ _ _ | .count => .grouping
  | .select _ => .fields
  | .attach _ => .joins
  | .limit _ => .limit
  | .skip _ => .skip
  | .having _ => .having
  | .stage _ => .stages
  | .out _ => .out
  | .mergeInto _ => .merge

/-- A query with nothing in it but one part of another. -/
def part (q : Query) : Category → Query
  | .filter => { empty with filter := q.filter }
  | .grouping =>
    { empty with
      sort := q.sort
      assembler := q.assembler.bare }
  | .fields => { empty with fields := q.fields }
  | .joins => { empty with joins := q.joins }
  | .limit => { empty with limit := q.limit }
  | .skip => { empty with skip := q.skip }
  | .having => { empty with assembler := { Assembler.empty with having := q.assembler.having } }
  | .stages => { empty with assembler := { Assembler.empty with extra := q.assembler.extra } }
  | .out => { empty with out := q.out }
  | .merge => { empty with merge := q.merge }

/-- A query put together again. -/
def ofParts (parts : Category → Query) : Query :=
  { filter := (parts .filter).filter
    sort := (parts .grouping).sort
    fields := (parts .fields).fields
    joins := (parts .joins).joins
    skip := (parts .skip).skip
    limit := (parts .limit).limit
    assembler :=
      { (parts .grouping).assembler with
        having := (parts .having).assembler.having
        extra := (parts .stages).assembler.extra }
    out := (parts .out).out
    merge := (parts .merge).merge
    error := none }

theorem ofParts_part (q : Query) : ofParts q.part = { q with error := none } := rfl

/-! ### Steps that may fail -/

theorem part_fail (q : Query) (e : Error) (k : Category) : (q.fail e).part k = q.part k := by
  rw [fail]
  split
  · rfl
  · cases k <;> rfl

/-- A step that may fail leaves every category alone that its success leaves alone. -/
theorem part_orFail {α : Type} {q : Query} {step : Outcome α} {next : α → Query} {k : Category}
    (hnext : ∀ v, step = .ok v → (next v).part k = q.part k) :
    (q.orFail step next).part k = q.part k := by
  cases step with
  | ok v => exact hnext v rfl
  | error e => exact q.part_fail e k

/-- Taking the part of a category twice is taking it once. -/
theorem part_part (q : Query) (k : Category) : (q.part k).part k = q.part k := by
  cases k <;> rfl

/-- A step that fails with the same error for a query and for a part of it, or goes on alike. -/
theorem part_orFail_part {α : Type} {q : Query} {step : Outcome α} {next other : α → Query}
    {k : Category} (hnext : ∀ v, (next v).part k = (other v).part k) :
    ((q.part k).orFail step next).part k = (q.orFail step other).part k := by
  cases step with
  | ok v => exact hnext v
  | error e => exact ((q.part k).part_fail e k).trans ((q.part_part k).trans (q.part_fail e k).symm)

theorem part_orFail_map {α β : Type} {q : Query} {mapped : Outcome β} {step : Outcome α}
    {f : α → β} (hmapped : mapped = step.map f) {next : β → Query} {other : α → Query}
    {k : Category} (hnext : ∀ v, (next (f v)).part k = (other v).part k) :
    ((q.part k).orFail mapped next).part k = (q.orFail step other).part k := by
  have hstep : (q.part k).orFail mapped next = (q.part k).orFail step fun v => next (f v) := by
    rw [hmapped]
    cases step <;> rfl
  rw [hstep]
  exact part_orFail_part hnext

theorem selectFields_eq (q : Query) (names : List String) :
    ∃ fields error, q.selectFields names = { q with fields, error } := by
  induction names generalizing q with
  | nil => exact ⟨q.fields, q.error, rfl⟩
  | cons name rest ih =>
      rw [selectFields]
      split
      next e _ =>
        rw [fail]
        split
        · exact ⟨q.fields, q.error, rfl⟩
        · exact ⟨q.fields, some e, rfl⟩
      next =>
        split
        · exact ih q
        · exact ih { q with fields := q.fields ++ [name] }

theorem fields_selectFields_congr {q r : Query} (h : q.fields = r.fields) (names : List String) :
    (q.selectFields names).fields = (r.selectFields names).fields := by
  have hfail (q : Query) (e : Error) : (q.fail e).fields = q.fields := by
    rw [fail]
    split <;> rfl
  induction names generalizing q r with
  | nil => exact h
  | cons name rest ih =>
      rw [selectFields, selectFields]
      cases checkField name with
      | error e => exact (hfail q e).trans (h.trans (hfail r e).symm)
      | ok =>
          refine ih ?_
          rw [← h]
          split
          · exact h
          · rfl

/-! ### Calls -/

/-- A call leaves the other parts as they are. -/
theorem part_call_of_ne (q : Query) {c : Call} {k : Category} (h : c.category ≠ k) :
    (q.call c).part k = q.part k := by
  cases c with
  | narrow _ | skip _ | count | out _ | mergeInto _ | stage _ =>
      cases k <;> first | rfl | exact absurd rfl h
  | attach _ | having _ =>
      refine part_orFail fun _ _ => ?_
      cases k <;> first | rfl | exact absurd rfl h
  | order field direction =>
      refine part_orFail fun _ _ => ?_
      split
      all_goals cases k <;> first | rfl | exact absurd rfl h
  | select fields =>
      obtain ⟨selected, error, hselected⟩ := q.selectFields_eq fields
      rw [call, hselected]
      cases k <;> first | rfl | exact absurd rfl h
  | limit n =>
      rw [call]
      split
      · exact q.part_fail _ k
      · cases k <;> first | rfl | exact absurd rfl h
  | groupBy fields =>
      refine part_orFail fun grouped hgrouped => ?_
      obtain ⟨group, rfl⟩ := Assembler.exists_group_of_groupBy hgrouped
      cases k <;> first | rfl | exact absurd rfl h
  | calculate calculation field output =>
      refine part_orFail fun calculated hstep => ?_
      obtain ⟨_, _, hcalculated⟩ := Outcome.bind_eq_ok.mp hstep
      obtain ⟨group, rfl⟩ := Assembler.exists_group_of_calculate hcalculated
      cases k <;> first | rfl | exact absurd rfl h

/-- What a call makes of its part is up to that part. -/
theorem part_call_part (q : Query) (c : Call) :
    ((q.part c.category).call c).part c.category = (q.call c).part c.category := by
  cases c with
  | narrow _ | skip _ | count | out _ | mergeInto _ | stage _ => rfl
  | attach _ | having _ => exact part_orFail_part fun _ => rfl
  | order field direction =>
      refine part_orFail_part fun _ => ?_
      have hgrouped : (q.part .grouping).assembler.isGrouped = q.assembler.isGrouped := rfl
      rw [Call.category, hgrouped]
      split
      · rfl
      · rfl
  | select fields =>
      have hfields := fields_selectFields_congr (q := q.part .fields) (r := q) rfl fields
      exact congrArg (fun fields => { empty with fields }) hfields
  | limit n =>
      rw [call, call]
      split
      · rw [part_fail, part_part, part_fail]
      · rfl
  | groupBy fields => exact part_orFail_map (q.assembler.groupBy_bare fields) fun _ => rfl
  | calculate calculation field output =>
      exact part_orFail_map (q.assembler.calculate_bare field output _) fun _ => rfl

/-- What a call does to its own category depends on that category only. -/
theorem part_call_congr {q r : Query} (c : Call) (h : q.part c.category = r.part c.category) :
    (q.call c).part c.category = (r.call c).part c.category := by
  rw [← part_call_part, h, part_call_part]

/-- A part of a query is up to the calls of its category. -/
theorem part_calls (k : Category) {q r : Query} (h : q.part k = r.part k) (made : List Call) :
    (q.calls made).part k = (r.calls (made.filter (·.category = k))).part k := by
  induction made generalizing q r with
  | nil => exact h
  | cons c rest ih =>
      by_cases hc : c.category = k
      · subst hc
        rw [List.filter_cons_of_pos (by simp)]
        exact ih (part_call_congr c h)
      · rw [List.filter_cons_of_neg (by simpa using hc)]
        exact ih ((q.part_call_of_ne hc).trans h)

/-- The calls of one category decide alone what becomes of it. -/
theorem part_calls_congr {made others : List Call} {k : Category}
    (h : made.filter (·.category = k) = others.filter (·.category = k)) (q : Query) :
    (q.calls made).part k = (q.calls others).part k := by
  rw [part_calls k rfl made, h, ← part_calls k rfl others]

/-! ### Specifications -/

/-- Queries that agree in every category are built alike. -/
theorem spec_eq_of_part {q r : Query} (h : ∀ k, q.part k = r.part k) {s t : QuerySpec}
    (hs : q.build = .ok s) (ht : r.build = .ok t) : s = t := by
  have hsame : { q with error := none } = { r with error := none } := by
    rw [← ofParts_part, ← ofParts_part, funext h]
  have hfilter : q.filter = r.filter := (Query.mk.inj hsame).1
  obtain ⟨criteria, hcriteria, rfl⟩ := build_eq hs
  obtain ⟨others, hothers, rfl⟩ := build_eq ht
  obtain rfl : criteria = others := Except.ok.inj (hcriteria.symm.trans (hfilter ▸ hothers))
  exact congrArg (fun same => same.spec criteria) hsame

/-- Queries whose calls differ in the order of categories only compile to the same requests. -/
theorem compiled_alike_across_categories {filter : Filter} {made others : List Call}
    (hagree : ∀ k, made.filter (·.category = k) = others.filter (·.category = k))
    {s t : QuerySpec} (hs : ((ofFilter filter).calls made).build = .ok s)
    (ht : ((ofFilter filter).calls others).build = .ok t) :
    (∀ page owner force, s.compile page owner force = t.compile page owner force) ∧
      (∀ owner, s.countRequest owner = t.countRequest owner) ∧
      ∀ field owner, s.distinctCountPipeline field owner = t.distinctCountPipeline field owner := by
  obtain rfl : s = t := spec_eq_of_part (fun k => part_calls_congr (hagree k) _) hs ht
  exact ⟨fun _ _ _ => rfl, fun _ => rfl, fun _ _ => rfl⟩

/-! ### Calls on drafts -/

namespace CallsExample

def onlyOpen : Filter.Call := .compare .eq "state" (.string "open")

def several : Filter := Filter.empty.call (.compare .gt "count" (.int32 1))

/-- An order of rows before they are grouped, and one of groups after that. -/
def made : List Call :=
  [.order "age" .descending, .limit 5, .narrow onlyOpen, .groupBy ["kind"], .having several,
    .stage (.unwind "tags"), .order "kind" .ascending, .skip 2, .count, .out "kinds"]

def shuffled : List Call :=
  [.out "kinds", .skip 2, .stage (.unwind "tags"), .having several, .order "age" .descending,
    .groupBy ["kind"], .order "kind" .ascending, .count, .narrow onlyOpen, .limit 5]

end CallsExample

open CallsExample in
theorem compiled_alike_across_categories_of_shuffled_calls :
    ∃ s t, ((ofFilter .empty).calls made).build = .ok s ∧
      ((ofFilter .empty).calls shuffled).build = .ok t ∧
      (∀ page owner force, s.compile page owner force = t.compile page owner force) ∧
      (∀ owner, s.countRequest owner = t.countRequest owner) ∧
      ∀ field owner, s.distinctCountPipeline field owner = t.distinctCountPipeline field owner := by
  have hagree : ∀ k : Category,
      made.filter (·.category = k) = shuffled.filter (·.category = k) := by
    intro k
    cases k <;> rfl
  have hmade : ((ofFilter .empty).calls made).build =
      .ok (((ofFilter .empty).calls made).spec ((ofFilter .empty).calls made).filter.criteria) :=
    rfl
  have hshuffled : ((ofFilter .empty).calls shuffled).build = .ok
      (((ofFilter .empty).calls shuffled).spec
        ((ofFilter .empty).calls shuffled).filter.criteria) := rfl
  exact ⟨_, _, hmade, hshuffled, compiled_alike_across_categories hagree hmade hshuffled⟩

end Query

end DocumentBase
