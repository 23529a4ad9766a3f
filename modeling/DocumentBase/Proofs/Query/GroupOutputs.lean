import DocumentBase.Proofs.Query.Failures
import DocumentBase.Proofs.Query.GroupCalls

/-!
# What a page shows for a group

A page shows the key of a group as its identity and the outputs that were asked for, each as it
was asked for last.  While groups are sorted by fields of their first rows, these stand in the
rows for the groups, under a name that is taken out afterwards: an output of that name is lost,
and an output that is called like the identity takes its place.
-/

namespace DocumentBase

open Value

/-! ### What a sort of groups compares -/

namespace Assembler.GroupCall

inductive Compared where
  /-- A field that is grouped by. -/
  | keyField
  | output (accumulator : Accumulator)
  /-- The key of the group as a whole. -/
  | identity
  /-- A field of the first row of the group. -/
  | memberField
deriving DecidableEq, Repr

/-- Where this is found in the rows for groups, and whether inside a first row. -/
def Compared.target (field : String) : Compared → String × Bool
  | .keyField => (Item.idField ++ "." ++ field, false)
  | .output _ | .identity => (field, false)
  | .memberField => (firstRowField ++ "." ++ field, true)

/-- What a sort by a field that is not grouped by compares. -/
def comparedOutside (done : List GroupCall) (field : String) : Compared :=
  match GroupSpec.lastUnder field (outputs done) with
  | some accumulator => .output accumulator
  | none => if field = Item.idField then .identity else .memberField

/-- What a sort by a field compares once calls have asked for groups. -/
def compared (done : List GroupCall) (field : String) : Compared :=
  if (groupings done).head?.any (·.contains field) then .keyField
  else comparedOutside done field

/-- The group that calls ask for. -/
def groupSpec (done : List GroupCall) : GroupSpec :=
  (GroupSpec.ofKey (keyOf done)).upsertAll (outputs done)

variable (done : List GroupCall)

theorem key_groupSpec : (groupSpec done).key = keyOf done :=
  GroupSpec.key_upsertAll

theorem groups_groupSpec (rows : List Document) :
    (groupSpec done).groups rows = (GroupSpec.ofKey (keyOf done)).groups rows :=
  GroupSpec.groups_of_key _ (key_groupSpec done) rows

/-- Of several calculations with one name the group has the last. -/
theorem output?_groupSpec (name : String) :
    (groupSpec done).output? name = GroupSpec.lastUnder name (outputs done) :=
  GroupSpec.output?_upsertAll _ _ name

theorem hasOutput_groupSpec (name : String) :
    (groupSpec done).hasOutput name = (GroupSpec.lastUnder name (outputs done)).isSome := by
  rw [Bool.eq_iff_iff, GroupSpec.hasOutput_iff, ← output?_groupSpec]
  exact GroupSpec.isSome_lastUnder_iff.symm

theorem target_comparedOutside (field : String) :
    (comparedOutside done field).target field =
      if field = Item.idField || (groupSpec done).hasOutput field then (field, false)
      else (firstRowField ++ "." ++ field, true) := by
  rw [hasOutput_groupSpec, comparedOutside]
  cases GroupSpec.lastUnder field (outputs done) with
  | some accumulator => simp [Compared.target]
  | none => by_cases hid : field = Item.idField <;> simp [hid, Compared.target]

/-- The field of a sort is found where what it compares stands in the rows for groups. -/
theorem retarget_groupSpec (field : String) :
    retarget (groupSpec done) field = (compared done field).target field := by
  rw [retarget, key_groupSpec, ← target_comparedOutside, compared, keyOf]
  cases (groupings done).head? with
  | none => rfl
  | some fields =>
      rw [Option.map_some, Option.getD_some, Option.any_some, apply_ite (Compared.target field)]
      rfl

theorem snd_retarget_groupSpec (field : String) :
    (retarget (groupSpec done) field).2 = decide (compared done field = .memberField) := by
  rw [retarget_groupSpec]
  cases compared done field <;> rfl

end Assembler.GroupCall

namespace Query

open Assembler Assembler.GroupCall

/-- Whether groups are sorted by a field of their first rows. -/
def sortsByMember (made : List Call) : Bool :=
  (groupSorts made).any fun sort => compared (asked made) sort.1 = .memberField

/-- No output is called like the identity, or like the first row while that is needed. -/
def ClearNames (made : List Call) : Prop :=
  GroupSpec.lastUnder Item.idField (outputs (asked made)) = none ∧
    (sortsByMember made = true → GroupSpec.lastUnder firstRowField (outputs (asked made)) = none)

/-- A row shows a group as it was asked for: its key, each output as it was asked for last, and
nothing else. -/
structure Shows (made : List Call) (group : Value × List Document) (row : Document) : Prop where
  identity : row.value? Item.idField = some group.1
  outputs : ∀ name ≠ Item.idField, row.value? name =
    (GroupSpec.lastUnder name (outputs (asked made))).map fun accumulator =>
      accumulator.apply group.2

section Built

variable {filter : Filter} {made : List Call} {spec : QuerySpec}

theorem asks_of_build (hbuild : ((ofFilter filter).calls made).build = .ok spec) :
    Asks made spec.assembler := by
  have herror := (isSound_of_build hbuild).error
  obtain ⟨criteria, -, rfl⟩ := build_eq hbuild
  exact asks_calls herror

/-- A query whose calls asked for groups groups by what they asked for. -/
theorem effectiveGroup_of_build (hbuild : ((ofFilter filter).calls made).build = .ok spec)
    (hgrouped : made.any Call.asksForGroups = true) :
    spec.assembler.effectiveGroup = some (groupSpec (asked made)) := by
  rw [(asks_of_build hbuild).follows.effectiveGroup_eq, if_neg]
  · rfl
  · rw [← List.isEmpty_iff, isEmpty_asked, hgrouped]
    decide

/-- A group keeps its first row exactly when a sort reads a field of the rows from it. -/
theorem keepsFirst_of_build (hbuild : ((ofFilter filter).calls made).build = .ok spec) :
    spec.assembler.keepsFirst (groupSpec (asked made)) = sortsByMember made := by
  have hfields : ∀ field, field ∈ spec.assembler.groupSort.keys.map Prod.fst ↔
      field ∈ (groupSorts made).map Prod.fst := by
    rw [(asks_of_build hbuild).groupSort]
    exact fun _ => SortSpec.mem_fields_pushAll
  have hany : ∀ (keys : List (String × Direction)) (p : String → Bool),
      (keys.any fun key => p key.1) = (keys.map Prod.fst).any p :=
    fun _ _ => List.any_map.symm
  simp only [keepsFirst, sortsByMember, snd_retarget_groupSpec]
  rw [hany _ fun field => decide (compared (asked made) field = .memberField),
    hany _ fun field => decide (compared (asked made) field = .memberField), Bool.eq_iff_iff,
    List.any_eq_true, List.any_eq_true]
  simp only [hfields]

/-- What a page shows for a group, in terms of what was asked. -/
theorem value?_shownRow_of_build (hbuild : ((ofFilter filter).calls made).build = .ok spec)
    (group : Value × List Document) (name : String) :
    (spec.shownRow (groupSpec (asked made)) group).value? name =
      if sortsByMember made = true ∧ name = firstRowField then none
      else ((GroupSpec.lastUnder name (outputs (asked made))).map fun accumulator =>
        accumulator.apply group.2).or (if name = Item.idField then some group.1 else none) := by
  rw [QuerySpec.value?_shownRow, keepsFirst_of_build hbuild, output?_groupSpec,
    Document.value?_cons, Document.value?_nil]
  simp only [eq_comm (a := Item.idField)]

theorem ClearNames.shows (h : ClearNames made) {group : Value × List Document} {row : Document}
    (hrow : ∀ name, row.value? name =
      if sortsByMember made = true ∧ name = firstRowField then none
      else ((GroupSpec.lastUnder name (outputs (asked made))).map fun accumulator =>
        accumulator.apply group.2).or (if name = Item.idField then some group.1 else none)) :
    Shows made group row where
  identity := by
    have hname : Item.idField ≠ firstRowField := by decide
    rw [hrow, if_neg fun hfirst => hname hfirst.2, h.1, if_pos rfl]
    rfl
  outputs := by
    intro name hname
    rw [hrow, if_neg hname, Option.or_none]
    split
    · rename_i hfirst
      rw [hfirst.2, h.2 hfirst.1]
      rfl
    · rfl

/-- A page is compiled to a pipeline.  It succeeds as long as the conditions on documents and on
groups can be evaluated, and its rows are those of the admitted groups in their order. -/
theorem exists_page_of_build (hbuild : ((ofFilter filter).calls made).build = .ok spec)
    (hgrouped : made.any Call.asksForGroups = true) (hbare : spec.IsBare) (page : Page)
    (owner : Option String) (force : Bool) :
    ∃ p, spec.compile page owner force = .ok (.aggregate p) ∧
      ∀ (c : Collections) (documents rows : List Document), p.run c documents = .ok rows ↔
        ∃ matched, (spec.ownedCriteria owner).select documents = .ok matched ∧
          let g := groupSpec (asked made)
          spec.Decides g matched ∧
          rows = (((stableSort (spec.groupBefore g) (spec.admittedGroups g matched)).map
            (spec.shownRow g)).drop page.offset).take page.size := by
  have hasks : spec.isGrouped = true := by
    rw [QuerySpec.isGrouped, (asks_of_build hbuild).follows.isGrouped_eq, isEmpty_asked, hgrouped]
    rfl
  have heffective := effectiveGroup_of_build hbuild hgrouped
  exact ⟨_, QuerySpec.compile_of_isBare hbare hasks page force, fun c documents rows =>
    QuerySpec.run_page_eq_ok_iff hbare heffective⟩

/-- A page has rows as long as the conditions can be evaluated, and every row is that of a group.
It shows the group as it was asked for, unless an output has one of two names: the first row of the
group leaves nothing under its own, and the output that is called like the identity is shown in
place of the key. -/
theorem shows_groups (hbuild : ((ofFilter filter).calls made).build = .ok spec)
    (hgrouped : made.any Call.asksForGroups = true) (hbare : spec.IsBare) (page : Page)
    (owner : Option String) (force : Bool) :
    ∃ p, spec.compile page owner force = .ok (.aggregate p) ∧
      ∀ (c : Collections) (documents : List Document),
        ((∃ rows, p.run c documents = .ok rows) ↔
          ∃ matched, (spec.ownedCriteria owner).select documents = .ok matched ∧
            spec.Decides (groupSpec (asked made)) matched) ∧
        ∀ rows, p.run c documents = .ok rows →
          ∃ matched, (spec.ownedCriteria owner).select documents = .ok matched ∧
            ∀ row ∈ rows,
              ∃ group ∈ (GroupSpec.ofKey (keyOf (asked made))).groups (spec.sort.sort matched),
                (ClearNames made → Shows made group row) ∧
                ∀ name, row.value? name =
                  if sortsByMember made = true ∧ name = firstRowField then none
                  else ((GroupSpec.lastUnder name (outputs (asked made))).map fun accumulator =>
                    accumulator.apply group.2).or
                      (if name = Item.idField then some group.1 else none) := by
  obtain ⟨p, hcompile, hpage⟩ := exists_page_of_build hbuild hgrouped hbare page owner force
  refine ⟨p, hcompile, fun c documents => ⟨?_, fun rows hrun => ?_⟩⟩
  · simp only [hpage]
    constructor
    · rintro ⟨_, matched, hmatched, hdecides, -⟩
      exact ⟨matched, hmatched, hdecides⟩
    · rintro ⟨matched, hmatched, hdecides⟩
      exact ⟨_, matched, hmatched, hdecides, rfl⟩
  · obtain ⟨matched, hmatched, -, rfl⟩ := (hpage c documents rows).mp hrun
    refine ⟨matched, hmatched, fun row hrow => ?_⟩
    obtain ⟨group, hgroup, rfl⟩ :=
      List.mem_map.mp (List.mem_of_mem_drop (List.mem_of_mem_take hrow))
    have hmem := (List.mem_filter.mp (mem_stableSort.mp hgroup)).1
    rw [QuerySpec.groupsOf, groups_groupSpec] at hmem
    have hrow := value?_shownRow_of_build hbuild group
    exact ⟨group, hmem, fun hclear => hclear.shows hrow, hrow⟩

end Built

/-! ### Outputs of three orders -/

namespace GroupOutputsExample

def orders : List Document :=
  [[("_id", .int32 1), ("by", .string "ann"), ("amount", .int32 5)],
    [("_id", .int32 2), ("by", .string "bob"), ("amount", .int32 2)],
    [("_id", .int32 3), ("by", .string "ann"), ("amount", .int32 1)]]

/-- One output is asked for twice, and groups are sorted by a field of their first rows. -/
def tallied : List Call :=
  [.calculate .sum "amount" "total", .groupBy ["by"], .calculate .max "amount" "total", .count,
    .order "amount" .ascending]

/-- An output is called like the first row of a group. -/
def lost : List Call :=
  [.groupBy ["by"], .calculate .sum "amount" "_first", .order "amount" .ascending]

def page : Page :=
  Page.of 1 50 0

end GroupOutputsExample

open GroupOutputsExample in
theorem shows_groups_of_orders :
    ∃ spec p rows, ((ofFilter .empty).calls tallied).build = .ok spec ∧
      spec.compile page none false = .ok (.aggregate p) ∧ p.run [] orders = .ok rows ∧
      rows.length = 2 ∧ ∀ row ∈ rows, ∃ group, Shows tallied group row := by
  obtain ⟨spec, pipeline, found, hbuild, hbare, hpipeline, hrun, hlength⟩ :
      ∃ spec pipeline rows, ((ofFilter .empty).calls tallied).build = .ok spec ∧ spec.IsBare ∧
        spec.compile page none false = .ok (.aggregate pipeline) ∧
        pipeline.run [] orders = .ok rows ∧ rows.length = 2 :=
    ⟨_, _, _, rfl, ⟨rfl, rfl, rfl⟩, rfl, rfl, rfl⟩
  have hclear : ClearNames tallied := ⟨rfl, fun _ => rfl⟩
  obtain ⟨p, hcompile, hrows⟩ := shows_groups hbuild rfl hbare page none false
  cases hpipeline.symm.trans hcompile
  obtain ⟨matched, -, hshown⟩ := (hrows [] orders).2 found hrun
  refine ⟨spec, pipeline, found, hbuild, hpipeline, hrun, hlength, fun row hrow => ?_⟩
  obtain ⟨group, -, hshows, -⟩ := hshown row hrow
  exact ⟨group, hshows hclear⟩

open GroupOutputsExample in
/-- What was calculated under the name of the first row is not shown. -/
theorem output_lost_to_first_row :
    GroupSpec.lastUnder "_first" (outputs (asked lost)) = some (.sum "amount") ∧
      ∃ spec p rows, ((ofFilter .empty).calls lost).build = .ok spec ∧ spec.IsBare ∧
        spec.compile page none false = .ok (.aggregate p) ∧ p.run [] orders = .ok rows ∧
        rows = [[("_id", .document [("by", .string "bob")])],
          [("_id", .document [("by", .string "ann")])]] :=
  ⟨rfl, _, _, _, rfl, ⟨rfl, rfl, rfl⟩, rfl, rfl, rfl⟩

end Query

end DocumentBase
