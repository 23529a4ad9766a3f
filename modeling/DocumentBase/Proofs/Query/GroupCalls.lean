import DocumentBase.Proofs.Grouping.Calls
import DocumentBase.Proofs.Query.GroupRows

/-!
# Groups that a query asks for

The calls of a query that raise no error ask for groups one after the other, and sorts that come
behind the first of them are for groups.
-/

namespace DocumentBase.Query

open Assembler Assembler.GroupCall

def Call.groupCall? : Call → Option GroupCall
  | .groupBy fields => some (.groupBy fields)
  | .calculate calculation field output =>
    some (.calculate output (calculation.accumulator field))
  | .count => some .count
  | _ => none

def Call.sort? : Call → Option (String × Direction)
  | .order field direction => some (field, direction)
  | _ => none

def asked (made : List Call) : List GroupCall :=
  made.filterMap Call.groupCall?

/-- The sorts that are asked for behind groups. -/
def groupSorts (made : List Call) : List (String × Direction) :=
  (made.dropWhile fun c => !c.asksForGroups).filterMap Call.sort?

theorem Call.asksForGroups_eq (c : Call) : c.asksForGroups = c.groupCall?.isSome := by
  cases c <;> rfl

theorem asked_concat (made : List Call) (c : Call) :
    asked (made ++ [c]) = asked made ++ c.groupCall?.toList := by
  rw [asked, List.filterMap_append]
  cases c <;> rfl

theorem isEmpty_asked (made : List Call) :
    (asked made).isEmpty = !made.any Call.asksForGroups := by
  rw [Bool.eq_iff_iff, List.isEmpty_iff, asked, List.filterMap_eq_nil_iff]
  simp [Call.asksForGroups_eq]

/-- A sort after the first call that asks for groups sorts the groups. -/
theorem groupSorts_concat (made : List Call) (c : Call) :
    groupSorts (made ++ [c]) =
      groupSorts made ++ if made.any Call.asksForGroups then c.sort?.toList else [] := by
  have hlast : [c].filterMap Call.sort? = c.sort?.toList := by
    cases c <;> rfl
  induction made with
  | nil => cases c <;> rfl
  | cons first rest ih =>
      by_cases hasks : first.asksForGroups = true
      · have hcut : ∀ later : List Call, groupSorts (first :: later) =
            (first :: later).filterMap Call.sort? := by
          intro later
          rw [groupSorts, List.dropWhile_cons_of_neg (by simp [hasks])]
        rw [List.cons_append, hcut, hcut, List.any_cons, hasks, Bool.true_or, if_pos rfl,
          ← List.cons_append, List.filterMap_append, hlast]
      · have hcut : ∀ later : List Call, groupSorts (first :: later) = groupSorts later := by
          intro later
          rw [groupSorts, List.dropWhile_cons_of_pos (by simp [hasks]), groupSorts]
        rw [List.cons_append, hcut, hcut, ih, List.any_cons, Bool.eq_false_iff.mpr hasks,
          Bool.false_or]

/-! ### The assembler of a query -/

/-- An assembler has been asked what calls ask about groups. -/
structure Asks (made : List Call) (a : Assembler) : Prop where
  follows : Follows (asked made) a
  groupSort : a.groupSort = SortSpec.pushAll (groupSorts made)

theorem asks_empty : Asks [] .empty where
  follows := follows_empty
  groupSort := rfl

/-- Conditions on groups and further stages are not looked at. -/
theorem asks_bare_iff {made : List Call} {a : Assembler} : Asks made a.bare ↔ Asks made a := by
  constructor
  · rintro ⟨⟨hgrouped, hcounted, hsome, hgroup⟩, hsort⟩
    exact ⟨⟨hgrouped, hcounted, hsome, hgroup⟩, hsort⟩
  · rintro ⟨⟨hgrouped, hcounted, hsome, hgroup⟩, hsort⟩
    exact ⟨⟨hgrouped, hcounted, hsome, hgroup⟩, hsort⟩

theorem Asks.of_bare {made : List Call} {a b : Assembler} (h : Asks made a)
    (hbare : b.bare = a.bare) : Asks made b :=
  asks_bare_iff.mp (hbare ▸ asks_bare_iff.mpr h)

theorem exists_of_orFail {α : Type} {q : Query} {step : Outcome α} {next : α → Query}
    (h : (q.orFail step next).error = none) :
    ∃ v, step = .ok v ∧ q.orFail step next = next v := by
  cases step with
  | error e => exact absurd h (q.error_fail_ne_none e)
  | ok v => exact ⟨v, rfl, rfl⟩

section Steps

variable {made : List Call} {q : Query} (h : Asks made q.assembler)
include h

/-- A call that asks for something about groups. -/
theorem Asks.concat {c : Call} {asking : GroupCall} {b : Assembler}
    (hcall : c.groupCall? = some asking) (hrun : asking.run q.assembler = .ok b)
    (hsort : b.groupSort = q.assembler.groupSort) : Asks (made ++ [c]) b := by
  have hnone : c.sort? = none := by
    cases c <;> first | rfl | cases hcall
  constructor
  case follows =>
    rw [asked_concat, hcall]
    exact h.follows.run hrun
  case groupSort =>
    rw [groupSorts_concat, hnone, Option.toList_none, ite_self, List.append_nil]
    exact hsort.trans h.groupSort

/-- A call that asks for nothing about groups. -/
theorem Asks.keep {c : Call} (hcall : c.groupCall? = none) (hsort : c.sort? = none) :
    Asks (made ++ [c]) q.assembler := by
  constructor
  case follows =>
    rw [asked_concat, hcall, Option.toList_none, List.append_nil]
    exact h.follows
  case groupSort =>
    rw [groupSorts_concat, hsort, Option.toList_none, ite_self, List.append_nil]
    exact h.groupSort

/-- A sort behind groups is one of them. -/
theorem Asks.order {field : String} {direction : Direction}
    (herror : (q.call (.order field direction)).error = none) :
    Asks (made ++ [.order field direction]) (q.call (.order field direction)).assembler := by
  obtain ⟨_, -, hcall⟩ := exists_of_orFail herror
  have hasked : asked (made ++ [.order field direction]) = asked made :=
    (asked_concat _ _).trans (List.append_nil _)
  have hgrouped : q.assembler.isGrouped = made.any Call.asksForGroups := by
    rw [h.follows.isGrouped_eq, isEmpty_asked, Bool.not_not]
  have hassembler : (q.call (.order field direction)).assembler =
      if made.any Call.asksForGroups then q.assembler.sortGroups field direction
      else q.assembler := by
    rw [Query.call, hcall, hgrouped]
    split <;> rfl
  rw [hassembler]
  split
  · rename_i hany
    constructor
    case follows =>
      rw [hasked]
      exact ⟨h.follows.grouped, h.follows.counted, h.follows.isSome, h.follows.group⟩
    case groupSort =>
      rw [groupSorts_concat, if_pos hany, sortGroups, h.groupSort]
      exact (SortSpec.pushAll_concat (groupSorts made) (field, direction)).symm
  · rename_i hnone
    refine ⟨hasked ▸ h.follows, ?_⟩
    rw [groupSorts_concat, if_neg hnone, List.append_nil]
    exact h.groupSort

/-- A call that succeeds keeps the assembler in step with the calls that were made. -/
theorem Asks.call {c : Call} (herror : (q.call c).error = none) :
    Asks (made ++ [c]) (q.call c).assembler := by
  -- calls of all other kinds leave alone what the assembler has about groups
  have hkeep (hcategory : c.category ≠ .grouping) (hcall : c.groupCall? = none)
      (hsort : c.sort? = none) : Asks (made ++ [c]) (q.call c).assembler :=
    (h.keep hcall hsort).of_bare
      (congrArg (fun q : Query => q.assembler) (q.part_call_of_ne hcategory))
  cases c with
  | order field direction => exact h.order herror
  | groupBy fields =>
      obtain ⟨b, hrun, hcall⟩ := exists_of_orFail herror
      obtain ⟨group, hb⟩ := exists_group_of_groupBy hrun
      rw [Query.call, hcall]
      exact h.concat rfl hrun (hb ▸ rfl)
  | calculate calculation field output =>
      obtain ⟨b, hstep, hcall⟩ := exists_of_orFail herror
      obtain ⟨_, -, hrun⟩ := Outcome.bind_eq_ok.mp hstep
      obtain ⟨group, hb⟩ := exists_group_of_calculate hrun
      rw [Query.call, hcall]
      exact h.concat rfl hrun (hb ▸ rfl)
  | count => exact h.concat rfl rfl rfl
  | _ => exact hkeep (fun h => by cases h) rfl rfl

end Steps

/-- After calls that all succeed, the assembler holds what they asked for. -/
theorem asks_calls {filter : Filter} {made : List Call}
    (herror : ((ofFilter filter).calls made).error = none) :
    Asks made ((ofFilter filter).calls made).assembler := by
  induction made using List.reverseRecOn with
  | nil => exact asks_empty
  | append_singleton made c ih =>
      rw [calls, List.foldl_concat] at herror ⊢
      exact (ih (error_and_isGrouped_of_call herror).1).call herror

end DocumentBase.Query
