import DocumentBase.Proofs.Predicate.Combining
import DocumentBase.Proofs.Query.GroupOutputs

/-!
# Conditions on groups

All conditions on groups become one, which stands right behind the group stage in the pipeline for
a page and in the one that counts rows.  A query that asks for no groups is compiled as if no
condition had been called for.  Which of the two it is depends on what calls ask about groups; a
group stage that was added by itself is not among that, and the conditions are lost behind it.
-/

namespace DocumentBase

/-! ### All conditions as one -/

namespace Criteria

/-- Criteria that hold together. -/
def conjunction (conditions : List Criteria) : Criteria :=
  conditions.foldl Criteria.and .empty

theorem conjunction_concat (conditions : List Criteria) (c : Criteria) :
    conjunction (conditions ++ [c]) = (conjunction conditions).and c :=
  List.foldl_concat _ _ _ _

theorem empty_and (c : Criteria) : empty.and c = c :=
  combine_of_isEmpty_left .and c rfl

theorem exists_predicate_of_holds {c : Criteria} {d : Document} {x : Bool}
    (h : c.holds d = .ok x) : ∃ p, c.predicate = .ok p := by
  obtain ⟨p, hp, -⟩ := Outcome.bind_eq_ok.mp h
  exact ⟨p, hp⟩

/-- Where every condition can be evaluated, so can all of them together, and they hold together if
each of them does. -/
theorem holds_conjunction {conditions : List Criteria} {d : Document} {verdict : Criteria → Bool}
    (h : ∀ c ∈ conditions, c.holds d = .ok (verdict c)) :
    (conjunction conditions).holds d = .ok (conditions.all verdict) := by
  induction conditions using List.reverseRecOn with
  | nil => rfl
  | append_singleton conditions c ih =>
      have hearlier := ih fun c hc => h c (List.mem_append_left _ hc)
      have hlast := h c (List.mem_append_right _ (List.mem_singleton_self c))
      obtain ⟨p, hp⟩ := exists_predicate_of_holds hearlier
      obtain ⟨q, hq⟩ := exists_predicate_of_holds hlast
      obtain ⟨-, -, -, -, -, hboth⟩ := combinations_hold hp hq
      rw [conjunction_concat, (hboth d _ _ hearlier hlast).1, List.all_append]
      simp

end Criteria

/-! ### Where the condition stands -/

/-- Whether a stage selects or sorts documents. -/
def Stage.prepares : Stage → Bool
  | .select _ | .sort _ => true
  | _ => false

/-- The slots before those for groups. -/
def Slot.early : List Slot :=
  [.ownership, .select, .sort]

theorem Stage.prepares_of_slot {s : Stage} (h : s.slot ∈ Slot.early) : s.prepares = true := by
  cases s <;> first | rfl | simp [Stage.slot, Slot.early] at h

theorem Stage.slot_ne_having (s : Stage) : s.slot ≠ .having := by
  cases s <;> simp [Stage.slot]

theorem Stage.isGroup_iff_slot {s : Stage} : s.isGroup = true ↔ s.slot = .group := by
  cases s <;> simp [Stage.slot, Stage.isGroup]

/-- A pipeline with one group stage, whose groups have to meet a condition before anything else
happens to them.  Nothing but selections and sorts of documents comes before the group. -/
structure Pipeline.FiltersGroups (p : Pipeline) (condition : Criteria) : Prop where
  single : p.groupCount = 1
  condition : ∃ before g after, p = before ++ [.group g, .select condition] ++ after ∧
    ∀ stage ∈ before, stage.prepares = true

/-- Stages behind the condition leave it the first thing after the group. -/
theorem Pipeline.FiltersGroups.concat {p : Pipeline} {condition : Criteria}
    (h : p.FiltersGroups condition) {stage : Stage} (hstage : stage.isGroup = false) :
    Pipeline.FiltersGroups (p ++ [stage]) condition := by
  obtain ⟨hsingle, before, g, after, rfl, hbefore⟩ := h
  refine ⟨?_, before, g, after ++ [stage], (List.append_assoc _ _ _), hbefore⟩
  rw [groupCount, List.countP_append, List.countP_singleton, hstage]
  exact hsingle

/-- A pipeline filters its groups, or it has none and something else is said of it. -/
theorem Pipeline.filtersGroups_or {p : Pipeline} {condition : Criteria} {without : Prop}
    (h : p.FiltersGroups condition ∨ p.groupCount = 0 ∧ without) :
    (p.groupCount ≠ 0 → p.FiltersGroups condition) ∧ (p.groupCount = 0 → without) := by
  rcases h with hfilters | ⟨hnone, hwithout⟩
  · refine ⟨fun _ => hfilters, fun hnone => ?_⟩
    rw [hfilters.single] at hnone
    cases hnone
  · exact ⟨fun hsome => absurd hnone hsome, fun _ => hwithout⟩

namespace Assembler

/-- A stage in its own slot, or a selection of an owner's documents. -/
def Fits (entry : Slot × Stage) : Prop :=
  entry.1 = entry.2.slot ∨ entry.1 = .ownership ∧ entry.2.slot = .select

theorem Fits.prepares {entry : Slot × Stage} (h : Fits entry)
    (hearly : entry.1 ∈ Slot.early) : entry.2.prepares = true := by
  rcases h with hown | ⟨-, hselect⟩
  · exact Stage.prepares_of_slot (hown ▸ hearly)
  · exact Stage.prepares_of_slot (hselect ▸ by decide)

theorem Fits.ne_having {entry : Slot × Stage} (h : Fits entry) : entry.1 ≠ .having := by
  rcases h with hown | ⟨howner, -⟩
  · exact hown ▸ entry.2.slot_ne_having
  · rw [howner]
    decide

theorem Fits.ne_group {entry : Slot × Stage} (h : Fits entry) (hgroup : entry.2.isGroup = false) :
    entry.1 ≠ .group := by
  rcases h with hown | ⟨howner, -⟩
  · intro hslot
    rw [Stage.isGroup_iff_slot.mpr (hown.symm.trans hslot)] at hgroup
    cases hgroup
  · rw [howner]
    decide

theorem inSlot_eq_nil {staged : List (Slot × Stage)} {slot : Slot}
    (h : ∀ entry ∈ staged, entry.1 ≠ slot) : inSlot staged slot = [] := by
  rw [inSlot, List.filter_eq_nil_iff.mpr (by simpa using h), List.map_nil]

def unconditioned (a : Assembler) : Assembler :=
  { a with having := none }

theorem groupBy_unconditioned {a b : Assembler} {fields : List String}
    (h : a.groupBy fields = .ok b) : a.unconditioned.groupBy fields = .ok b.unconditioned := by
  obtain ⟨hfirst, h⟩ := Outcome.check_eq_ok.mp h
  obtain ⟨hsome, h⟩ := Outcome.check_eq_ok.mp h
  obtain ⟨_, hallowed, h⟩ := Outcome.bind_eq_ok.mp h
  obtain rfl := Outcome.pure_eq_ok.mp h
  have hbare : a.unconditioned.groupedByFields = false := hfirst
  rw [groupBy, hbare, hsome, hallowed]
  rfl

theorem calculate_unconditioned {a b : Assembler} {name : String} {accumulator : Accumulator}
    (h : a.calculate name accumulator = .ok b) :
    a.unconditioned.calculate name accumulator = .ok b.unconditioned := by
  obtain ⟨_, hallowed, h⟩ := Outcome.bind_eq_ok.mp h
  obtain rfl := Outcome.pure_eq_ok.mp h
  rw [calculate, hallowed]
  rfl

variable {a : Assembler} {g : GroupSpec} {condition : Criteria}

/-- In the slots of groups and of conditions stand the group and the condition alone. -/
theorem inSlot_groupStages (a : Assembler) (purpose : Purpose) (g : GroupSpec) :
    ∃ grouped, inSlot (a.groupStages purpose g) .group = [.group grouped] ∧
      inSlot (a.groupStages purpose g) .having = a.conditions ∧
      ∀ slot ∈ Slot.early, inSlot (a.groupStages purpose g) slot = [] := by
  cases purpose with
  | results =>
      refine ⟨a.pageGroup g, ?_⟩
      rw [groupStages_results, inSlot_ofBlocks, inSlot_ofBlocks]
      refine ⟨rfl, List.append_nil _, fun slot hslot => ?_⟩
      rw [inSlot_ofBlocks]
      cases slot <;> first | rfl | simp [Slot.early] at hslot
  | counting =>
      refine ⟨g, ?_⟩
      rw [groupStages_counting, inSlot_ofBlocks, inSlot_ofBlocks]
      refine ⟨rfl, List.append_nil _, fun slot hslot => ?_⟩
      rw [inSlot_ofBlocks]
      cases slot <;> first | rfl | simp [Slot.early] at hslot

/-- The condition is arranged right behind the group. -/
theorem filtersGroups_arrange {base : List (Slot × Stage)}
    (hbase : ∀ entry ∈ base, Fits entry ∧ entry.2.isGroup = false)
    (hextra : ∀ entry ∈ a.extra, entry.1 = entry.2.slot ∧ entry.2.isGroup = false)
    (hgroup : a.effectiveGroup = some g) (hhaving : a.having = some condition)
    (purpose : Purpose) : (arrange (a.staged base purpose)).FiltersGroups condition := by
  let others := base ++ a.extraFor purpose
  have hothers : ∀ entry ∈ others, Fits entry ∧ entry.2.isGroup = false := by
    intro entry hentry
    rcases List.mem_append.mp hentry with hmem | hmem
    · exact hbase entry hmem
    · obtain ⟨hslot, hnone⟩ := hextra entry (List.mem_filter.mp hmem).1
      exact ⟨.inl hslot, hnone⟩
  have hstaged : a.staged base purpose = others ++ a.groupStages purpose g := by
    rw [staged_eq, ownStages, hgroup]
  constructor
  case single =>
    have hown : a.ownStages purpose = a.groupStages purpose g := by
      rw [ownStages, hgroup]
    rw [(isArranged_arrange _).groupCount, staged_eq, List.countP_append, hown,
      countP_groupStages, countP_eq_zero_of_isGroup fun entry h => (hothers entry h).2]
  case condition =>
    obtain ⟨grouped, hgrouped, hconditions, hearly⟩ := a.inSlot_groupStages purpose g
    have hcondition : a.conditions = [.select condition] := by
      rw [conditions, hhaving]
      rfl
    have hslot (slot : Slot) : inSlot (a.staged base purpose) slot =
        inSlot others slot ++ inSlot (a.groupStages purpose g) slot := by
      rw [hstaged, inSlot_append]
    have hgroupSlot : inSlot (a.staged base purpose) .group = [.group grouped] := by
      rw [hslot, hgrouped, inSlot_eq_nil fun entry h => (hothers entry h).1.ne_group
        (hothers entry h).2, List.nil_append]
    have hhavingSlot : inSlot (a.staged base purpose) .having = [.select condition] := by
      rw [hslot, hconditions, hcondition,
        inSlot_eq_nil fun entry h => (hothers entry h).1.ne_having, List.nil_append]
    refine ⟨Slot.early.flatMap (inSlot (a.staged base purpose)), grouped,
      (Slot.all.drop 5).flatMap (inSlot (a.staged base purpose)), ?_, fun stage hstage => ?_⟩
    · have hall : Slot.all = Slot.early ++ [.group, .having] ++ Slot.all.drop 5 := rfl
      rw [arrange_eq, hall, List.flatMap_append, List.flatMap_append]
      simp only [List.flatMap_cons, List.flatMap_nil, List.append_nil, hgroupSlot, hhavingSlot]
      rfl
    · obtain ⟨slot, hmem, hstage⟩ := List.mem_flatMap.mp hstage
      rw [hslot, hearly slot hmem, List.append_nil, mem_inSlot] at hstage
      exact (hothers _ hstage).1.prepares hmem

end Assembler

namespace QuerySpec

open Assembler

variable {q : QuerySpec} {owner : Option String}

theorem fits_selectionStages : ∀ entry ∈ q.selectionStages owner, Fits entry := by
  simp only [selectionStages, List.mem_append, Option.mem_toList, Option.map_eq_some_iff,
    mem_unless]
  rintro entry (⟨_, -, rfl⟩ | ⟨-, rfl⟩)
  · exact .inr ⟨rfl, rfl⟩
  · exact .inl rfl

theorem fits_pageStages (page : Page) : ∀ entry ∈ q.pageStages page owner, Fits entry := by
  have hskip : (if 0 < page.offset then [(Slot.skip, Stage.skip page.offset)] else []) =
      if decide (0 < page.offset) then [(Slot.skip, Stage.skip page.offset)] else [] := by
    simp
  simp only [pageStages, joinStages, hskip, List.mem_append, List.mem_singleton, List.mem_map,
    mem_unless, mem_when, Option.mem_toList, Option.map_eq_some_iff]
  rintro entry
    (((((((hselect | ⟨-, rfl⟩) | ⟨-, rfl⟩) | (⟨-, rfl⟩ | ⟨_, -, rfl⟩) | ⟨_, -, rfl⟩) | ⟨-, rfl⟩) |
      rfl) | ⟨_, -, rfl⟩) | ⟨_, -, rfl⟩)
  · exact fits_selectionStages entry hselect
  all_goals exact .inl rfl

theorem fits_countingStages : ∀ entry ∈ q.countingStages owner, Fits entry := by
  simp only [countingStages, List.mem_append, List.mem_flatMap, List.mem_cons, List.not_mem_nil,
    or_false]
  rintro entry (hselect | ⟨_, -, rfl | rfl⟩)
  · exact fits_selectionStages entry hselect
  · exact .inl rfl
  · exact .inl rfl

def unconditioned (q : QuerySpec) : QuerySpec :=
  { q with assembler := q.assembler.unconditioned }

/-- Without groups there is nothing that a condition could be read from. -/
theorem staged_unconditioned (h : q.assembler.effectiveGroup = none)
    (base : List (Slot × Stage)) (purpose : Purpose) :
    q.unconditioned.assembler.staged base purpose = q.assembler.staged base purpose := by
  have hbare : q.unconditioned.assembler.effectiveGroup = none := h
  rw [staged_eq, staged_eq, ownStages, ownStages, h, hbare]
  rfl

/-- Without a group the conditions on groups are in no pipeline. -/
theorem compile_unconditioned (h : q.assembler.effectiveGroup = none) (page : Page)
    (owner : Option String) (force : Bool) :
    q.unconditioned.compile page owner force = q.compile page owner force := by
  rw [compile, assemble, staged_unconditioned h]
  rfl

theorem countRequest_unconditioned (h : q.assembler.effectiveGroup = none)
    (owner : Option String) : q.unconditioned.countRequest owner = q.countRequest owner := by
  rw [countRequest, assemble, staged_unconditioned h]
  rfl

end QuerySpec

/-- The stages of a request; a search has none. -/
def Request.stages : Request → Pipeline
  | .find _ => []
  | .aggregate p => p

def CountRequest.stages : CountRequest → Pipeline
  | .documents _ => []
  | .pipeline p => p

namespace QuerySpec

open Assembler

section Grouped

variable {q : QuerySpec} {owner : Option String} {condition : Criteria}
  (hgrouped : q.assembler.isGrouped = true)
include hgrouped

theorem exists_effectiveGroup : ∃ g, q.assembler.effectiveGroup = some g := by
  rw [Assembler.isGrouped, Bool.or_eq_true, Option.isSome_iff_exists] at hgrouped
  rw [effectiveGroup]
  cases hcounted : q.assembler.counted with
  | true => exact ⟨_, rfl⟩
  | false => exact hgrouped.resolve_right (by simp [hcounted])

theorem exists_pipeline_of_countRequest {request : CountRequest}
    (h : q.countRequest owner = .ok request) : ∃ p, request = .pipeline p := by
  rw [countRequest, hgrouped, Bool.not_true, Bool.false_and, Bool.false_and,
    if_neg Bool.false_ne_true] at h
  obtain ⟨p, -, h⟩ := Outcome.bind_eq_ok.mp h
  exact ⟨_, (Outcome.pure_eq_ok.mp h).symm⟩

variable (hextra : ∀ entry ∈ q.assembler.extra, entry.1 = entry.2.slot ∧ entry.2.isGroup = false)
  (hhaving : q.assembler.having = some condition)
include hextra hhaving

/-- The pipeline for a page decides on the groups right after it made them. -/
theorem filtersGroups_of_compile {page : Page} {force : Bool} {request : Request}
    (h : q.compile page owner force = .ok request) : request.stages.FiltersGroups condition := by
  obtain ⟨g, hgroup⟩ := exists_effectiveGroup hgrouped
  have hpipeline : q.requiresPipeline = true := by
    simp [requiresPipeline, hgrouped]
  obtain ⟨p, rfl⟩ := exists_pipeline_of_compile hpipeline h
  rw [Request.stages, q.assembler.eq_arrange_of_assemble (assemble_of_compile h)]
  exact filtersGroups_arrange (fun entry hentry => ⟨fits_pageStages page entry hentry,
    not_isGroup_pageStages page entry hentry⟩) hextra hgroup hhaving .results

/-- Counting decides on the groups as reading them does. -/
theorem filtersGroups_of_countRequest {request : CountRequest}
    (h : q.countRequest owner = .ok request) : request.stages.FiltersGroups condition := by
  obtain ⟨g, hgroup⟩ := exists_effectiveGroup hgrouped
  obtain ⟨p, rfl⟩ := exists_pipeline_of_countRequest hgrouped h
  obtain ⟨counting, hassemble, rfl⟩ := assemble_of_countRequest h
  rw [CountRequest.stages, q.assembler.eq_arrange_of_assemble hassemble]
  exact (filtersGroups_arrange (fun entry hentry => ⟨fits_countingStages entry hentry,
    (countingStages_cases hentry).1⟩) hextra hgroup hhaving .counting).concat rfl

end Grouped

section Ungrouped

variable {q : QuerySpec} {owner : Option String}
  (hgrouped : q.assembler.isGrouped = false)
  (hextra : ∀ entry ∈ q.assembler.extra, entry.1 = entry.2.slot ∧ entry.2.isGroup = false)
include hgrouped hextra

theorem groupTotal_of_not_isGrouped : q.assembler.groupTotal = 0 := by
  rw [groupTotal, hgrouped, countP_eq_zero_of_isGroup fun entry h => (hextra entry h).2]
  rfl

theorem groupCount_of_compile {page : Page} {force : Bool} {request : Request}
    (h : q.compile page owner force = .ok request) : request.stages.groupCount = 0 := by
  cases request with
  | find _ => rfl
  | aggregate p =>
      rw [Request.stages, q.assembler.eq_arrange_of_assemble (assemble_of_compile h),
        groupCount_staged (not_isGroup_pageStages page) fun entry h => (hextra entry h).1]
      exact groupTotal_of_not_isGrouped hgrouped hextra

theorem groupCount_of_countRequest {request : CountRequest}
    (h : q.countRequest owner = .ok request) : request.stages.groupCount = 0 := by
  cases request with
  | documents _ => rfl
  | pipeline p =>
      obtain ⟨counting, hassemble, rfl⟩ := assemble_of_countRequest h
      have hcount : (counting ++ [.count totalField] : Pipeline).groupCount =
          counting.groupCount := by
        simp [Pipeline.groupCount, Stage.isGroup]
      rw [CountRequest.stages, hcount, q.assembler.eq_arrange_of_assemble hassemble,
        groupCount_staged (fun entry hentry => (countingStages_cases hentry).1)
          fun entry h => (hextra entry h).1]
      exact groupTotal_of_not_isGrouped hgrouped hextra

end Ungrouped

end QuerySpec

/-! ### Calls for conditions -/

namespace Query

open Assembler

/-- The condition on groups that a call asks for. -/
def Call.condition? : Call → Option Criteria
  | .having filter => some filter.criteria
  | _ => none

/-- The conditions on groups that calls ask for. -/
def conditions (made : List Call) : List Criteria :=
  made.filterMap Call.condition?

def withoutConditions (made : List Call) : List Call :=
  made.filter (·.condition?.isNone)

theorem having_call_of_none {q : Query} {c : Call} (hc : c.condition? = none) :
    (q.call c).assembler.having = q.assembler.having := by
  have hcategory : c.category ≠ .having := by
    cases c <;> first | (intro h; cases h; done) | cases hc
  have hpart := congrArg (fun part : Query => part.assembler.having) (q.part_call_of_ne hcategory)
  exact hpart

theorem call_having {q : Query} {filter : Filter} (h : (q.call (.having filter)).error = none) :
    q.call (.having filter) = { q with assembler := q.assembler.addHaving filter.criteria } := by
  obtain ⟨criteria, hbuild, hcall⟩ := exists_of_orFail h
  obtain rfl : filter.criteria = criteria := by
    rw [Filter.build] at hbuild
    split at hbuild
    · cases hbuild
    · exact Except.ok.inj hbuild
  exact hcall

theorem exists_having_of_condition? {c : Call} {criteria : Criteria}
    (h : c.condition? = some criteria) :
    ∃ filter, c = .having filter ∧ criteria = filter.criteria := by
  cases c <;> first | exact ⟨_, rfl, (Option.some.inj h).symm⟩ | cases h

/-- An assembler keeps the conditions that calls ask for as one. -/
theorem having_calls {filter : Filter} {made : List Call}
    (h : ((ofFilter filter).calls made).error = none) :
    ((ofFilter filter).calls made).assembler.having =
      if (conditions made).isEmpty then none else some (.conjunction (conditions made)) := by
  induction made using List.reverseRecOn with
  | nil => rfl
  | append_singleton made c ih =>
      rw [calls, List.foldl_concat] at h ⊢
      have hbefore := ih (error_and_isGrouped_of_call h).1
      have hmore : conditions (made ++ [c]) = conditions made ++ c.condition?.toList := by
        rw [conditions, List.filterMap_append]
        cases hc : c.condition? <;> simp [conditions, hc]
      cases hc : c.condition? with
      | none =>
          rw [having_call_of_none hc, hmore, hc, Option.toList_none, List.append_nil]
          exact hbefore
      | some criteria =>
          obtain ⟨filter, rfl, rfl⟩ := exists_having_of_condition? hc
          rw [hmore, hc, Option.toList_some, Criteria.conjunction_concat, call_having h]
          simp only [addHaving]
          rw [← calls, hbefore]
          cases hconditions : conditions made with
          | nil => simp [Criteria.conjunction, Criteria.empty_and]
          | cons first rest => simp

/-! ### The other calls alone -/

def unconditioned (q : Query) : Query :=
  { q with assembler := q.assembler.unconditioned }

theorem selectFields_unconditioned {q : Query} {names : List String}
    (h : (q.selectFields names).error = none) :
    q.unconditioned.selectFields names = (q.selectFields names).unconditioned := by
  induction names generalizing q with
  | nil => rfl
  | cons name rest ih =>
      rw [selectFields] at h ⊢
      rw [selectFields]
      split at h
      next => exact absurd h (q.error_fail_ne_none _)
      next =>
        refine Eq.trans (congrArg (selectFields · rest) ?_) (ih h)
        change (if q.fields.contains name then _ else _) = unconditioned (if _ then _ else _)
        split <;> rfl

/-- Calls other than for conditions do not look at conditions. -/
theorem call_unconditioned {q : Query} {c : Call} (hc : c.condition? = none)
    (h : (q.call c).error = none) : q.unconditioned.call c = (q.call c).unconditioned := by
  cases c with
  | narrow _ | skip _ | count | out _ | mergeInto _ | stage _ => rfl
  | having _ => cases hc
  | attach join =>
      obtain ⟨_, hstep, hcall⟩ := exists_of_orFail h
      rw [call, call, hstep]
      rfl
  | order field direction =>
      obtain ⟨_, hstep, hcall⟩ := exists_of_orFail h
      have hgrouped : q.unconditioned.assembler.isGrouped = q.assembler.isGrouped := rfl
      rw [call, call, hstep, hgrouped, orFail, orFail]
      split <;> rfl
  | select fields => exact selectFields_unconditioned h
  | limit n =>
      rw [call] at h ⊢
      rw [call]
      split at h
      next => exact absurd h (q.error_fail_ne_none _)
      next hsome =>
        rw [if_neg hsome, if_neg hsome]
        rfl
  | groupBy fields =>
      obtain ⟨b, hstep, hcall⟩ := exists_of_orFail h
      have hbare : q.unconditioned.assembler.groupBy fields = .ok b.unconditioned :=
        groupBy_unconditioned hstep
      rw [call, call, hstep, hbare]
      rfl
  | calculate calculation field output =>
      obtain ⟨b, hstep, hcall⟩ := exists_of_orFail h
      obtain ⟨_, hallowed, hcalculated⟩ := Outcome.bind_eq_ok.mp hstep
      have hbare : q.unconditioned.assembler.calculate output (calculation.accumulator field) =
          .ok b.unconditioned := calculate_unconditioned hcalculated
      rw [call, call, hstep, hallowed]
      exact congrArg (fun step => orFail _ step _) hbare

/-- Leaving out the calls that put conditions on groups leaves everything else as it is. -/
theorem calls_withoutConditions {q : Query} {made : List Call} (h : (q.calls made).error = none) :
    q.unconditioned.calls (withoutConditions made) = (q.calls made).unconditioned := by
  induction made generalizing q with
  | nil => rfl
  | cons c rest ih =>
      have hcalls : ((q.call c).calls rest).error = none := h
      have hcall : (q.call c).error = none := (error_and_isGrouped_of_calls hcalls).1
      have hrest := ih hcalls
      cases hc : c.condition? with
      | none =>
          rw [withoutConditions, List.filter_cons_of_pos (by simp [hc]), calls, List.foldl_cons,
            call_unconditioned hc hcall]
          exact hrest
      | some criteria =>
          obtain ⟨filter, rfl, -⟩ := exists_having_of_condition? hc
          rw [withoutConditions, List.filter_cons_of_neg (by simp [hc])]
          rw [call_having hcall] at hrest
          refine hrest.trans ?_
          rw [calls, calls, List.foldl_cons, call_having hcall]

/-! ### Building -/

section Built

variable {filter : Filter} {made : List Call} {spec : QuerySpec}

theorem groupTotal_le_of_build (h : ((ofFilter filter).calls made).build = .ok spec) :
    ¬ 1 < ((ofFilter filter).calls made).assembler.groupTotal := by
  intro hmany
  rw [(isSound_of_build h).build_of_groupTotal_gt
    (slot_eq_of_mem_calls (List.forall_mem_nil _)) hmany] at h
  cases h

/-- The other calls build a query as well, and it differs in its condition only. -/
theorem build_withoutConditions (h : ((ofFilter filter).calls made).build = .ok spec) :
    ((ofFilter filter).calls (withoutConditions made)).build = .ok spec.unconditioned := by
  have hsound := isSound_of_build h
  have hbare : (ofFilter filter).calls (withoutConditions made) =
      ((ofFilter filter).calls made).unconditioned := calls_withoutConditions hsound.error
  have hsame : spec = ((ofFilter filter).calls made).spec
      ((ofFilter filter).calls made).filter.criteria := by
    have hslots : ∀ entry ∈ ((ofFilter filter).calls made).assembler.extra,
        entry.1 = entry.2.slot := slot_eq_of_mem_calls (List.forall_mem_nil _)
    exact Except.ok.inj (h.symm.trans
      (hsound.build_of_groupTotal_le hslots (groupTotal_le_of_build h)))
  have hbaresound : IsSound ((ofFilter filter).calls made).unconditioned :=
    ⟨hsound.error, hsound.filter, hsound.target⟩
  rw [hbare, hbaresound.build_of_groupTotal_le (slot_eq_of_mem_calls (List.forall_mem_nil _))
    (groupTotal_le_of_build h), hsame]
  rfl

/-- The conditions of all calls hold together. -/
theorem having_of_build (h : ((ofFilter filter).calls made).build = .ok spec)
    (hsome : conditions made ≠ []) :
    spec.assembler.having = some (.conjunction (conditions made)) := by
  obtain ⟨criteria, -, rfl⟩ := build_eq h
  exact (having_calls (isSound_of_build h).error).trans (if_neg (by simpa using hsome))

theorem extra_of_build (h : ((ofFilter filter).calls made).build = .ok spec)
    (hraw : ∀ c ∈ made, c.addsGroup = false) :
    ∀ entry ∈ spec.assembler.extra, entry.1 = entry.2.slot ∧ entry.2.isGroup = false := by
  obtain ⟨criteria, -, rfl⟩ := build_eq h
  intro entry hentry
  have hextra : ((ofFilter filter).calls made).assembler.extra = made.flatMap Call.added :=
    extra_calls _ made
  refine ⟨slot_eq_of_mem_calls (List.forall_mem_nil _) entry hentry, ?_⟩
  obtain ⟨c, hc, hadded⟩ := List.mem_flatMap.mp (hextra ▸ hentry)
  cases c with
  | stage s =>
      rw [List.mem_singleton.mp hadded]
      exact hraw _ hc
  | _ => cases hadded

/-- What becomes of conditions while groups come from calls for groups, calculations and counts
alone.  A pipeline with a group stage holds the groups against all conditions before anything else
is done with them, and what is compiled without a group is what the other calls compile to. -/
theorem conditions_follow_groups (h : ((ofFilter filter).calls made).build = .ok spec)
    (hsome : conditions made ≠ []) (hraw : ∀ c ∈ made, c.addsGroup = false) :
    ∃ bare, ((ofFilter filter).calls (withoutConditions made)).build = .ok bare ∧
      (∀ page owner force, ∃ request, spec.compile page owner force = .ok request ∧
        (request.stages.groupCount ≠ 0 →
          request.stages.FiltersGroups (.conjunction (conditions made))) ∧
        (request.stages.groupCount = 0 → bare.compile page owner force = .ok request)) ∧
      (∀ owner, ∃ request, spec.countRequest owner = .ok request ∧
        (request.stages.groupCount ≠ 0 →
          request.stages.FiltersGroups (.conjunction (conditions made))) ∧
        (request.stages.groupCount = 0 → bare.countRequest owner = .ok request)) ∧
      ∀ d (verdict : Criteria → Bool),
        (∀ c ∈ conditions made, c.holds d = .ok (verdict c)) →
          (Criteria.conjunction (conditions made)).holds d =
            .ok ((conditions made).all verdict) := by
  have hextra := extra_of_build h hraw
  have hhaving := having_of_build h hsome
  have hsettled := (build_settles_assembly (isSound_of_build h)).2 spec h
  refine ⟨spec.unconditioned, build_withoutConditions h, fun page owner force => ?_,
    fun owner => ?_, fun d verdict => Criteria.holds_conjunction⟩
  · obtain ⟨request, hrequest⟩ := hsettled.compiles page owner force
    refine ⟨request, hrequest, ?_⟩
    apply Pipeline.filtersGroups_or
    cases hgrouped : spec.assembler.isGrouped with
    | true =>
        exact .inl (QuerySpec.filtersGroups_of_compile hgrouped hextra hhaving hrequest)
    | false =>
        have hgroup := effectiveGroup_of_not_isGrouped hgrouped
        exact .inr ⟨QuerySpec.groupCount_of_compile hgrouped hextra hrequest,
          (QuerySpec.compile_unconditioned hgroup page owner force).trans hrequest⟩
  · obtain ⟨request, hrequest⟩ := hsettled.counts owner
    refine ⟨request, hrequest, ?_⟩
    apply Pipeline.filtersGroups_or
    cases hgrouped : spec.assembler.isGrouped with
    | true =>
        exact .inl (QuerySpec.filtersGroups_of_countRequest hgrouped hextra hhaving hrequest)
    | false =>
        have hgroup := effectiveGroup_of_not_isGrouped hgrouped
        exact .inr ⟨QuerySpec.groupCount_of_countRequest hgrouped hextra hrequest,
          (QuerySpec.countRequest_unconditioned hgroup owner).trans hrequest⟩

end Built

/-! ### Conditions on two groups -/

namespace ConditionsExample

def several : Filter :=
  Filter.empty.call (.compare .gt "count" (.int32 1))

def few : Filter :=
  Filter.empty.call (.compare .lt "count" (.int32 5))

/-- Two conditions, one of them before anything is asked about groups. -/
def tallied : List Call :=
  [.having several, .skip 2, .stage (.unwind "tags"), .groupBy ["kind"], .select ["kind"], .count,
    .having few]

/-- A group stage that is added by itself, and a condition on its rows. -/
def added : List Call :=
  [.stage (.group (GroupSpec.ofKey (.single "k"))),
    .having (Filter.empty.call (.compare .eq "_id" (.string "a")))]

def page : Page :=
  Page.of 1 50 0

end ConditionsExample

open ConditionsExample in
theorem conditions_follow_groups_of_tallied :
    conditions tallied ≠ [] ∧ (∀ c ∈ tallied, c.addsGroup = false) ∧
      ∃ spec p, ((ofFilter .empty).calls tallied).build = .ok spec ∧
        spec.compile page none false = .ok (.aggregate p) ∧ p.groupCount ≠ 0 ∧
        p.FiltersGroups (several.criteria.and few.criteria) := by
  have hsome : conditions tallied ≠ [] := by
    rintro ⟨⟩
  have hraw : ∀ c ∈ tallied, c.addsGroup = false := by
    simp [tallied, Call.addsGroup, Stage.isGroup]
  have hbuild : ((ofFilter .empty).calls tallied).build = .ok
      (((ofFilter .empty).calls tallied).spec ((ofFilter .empty).calls tallied).filter.criteria) :=
    rfl
  obtain ⟨bare, -, hpages, -⟩ := conditions_follow_groups hbuild hsome hraw
  obtain ⟨request, hcompile, hfilters, -⟩ := hpages page none false
  have hgroup : request.stages.groupCount ≠ 0 := by
    cases hcompile
    exact Nat.one_ne_zero
  cases hcompile
  exact ⟨hsome, hraw, _, _, hbuild, rfl, hgroup, hfilters hgroup⟩

open ConditionsExample in
/-- Groups of a stage that was added by itself are not held against the condition. -/
theorem condition_lost_behind_added_group :
    ∃ criteria spec, conditions added = [criteria] ∧ criteria.isEmpty = false ∧
      ((ofFilter .empty).calls added).build = .ok spec ∧
      spec.compile page none false = .ok (.aggregate
        [.group (GroupSpec.ofKey (.single "k")), .limit 50]) ∧
      spec.countRequest none = .ok (.pipeline
        [.group (GroupSpec.ofKey (.single "k")), .count totalField]) :=
  ⟨_, _, rfl, rfl, rfl, rfl, rfl⟩

end Query

end DocumentBase
