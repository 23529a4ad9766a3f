import DocumentBase.Proofs.Grouping.Outputs
import DocumentBase.Proofs.Query.Assembly
import DocumentBase.Proofs.Query.Paging

/-!
# Rows of groups

A query that only groups makes one row of each group that its condition admits.  The first row of
a group stands in the row for it while the rows are sorted, and is taken out with whatever has
its name.
-/

namespace DocumentBase.QuerySpec

open Assembler

/-- A query without joins, fields and further stages. -/
structure IsBare (q : QuerySpec) : Prop where
  extra : q.assembler.extra = []
  joins : q.joins = []
  fields : q.fields = []

/-- The row that stands for a group while groups are sorted. -/
def groupRow (q : QuerySpec) (g : GroupSpec) (group : Value × List Document) : Document :=
  (q.assembler.pageGroup g).summary group.1 group.2

/-- The row of a page for a group. -/
def shownRow (q : QuerySpec) (g : GroupSpec) (group : Value × List Document) : Document :=
  q.cleanRow g (q.groupRow g group)

/-- The groups of the documents that a query has selected. -/
def groupsOf (q : QuerySpec) (g : GroupSpec) (matched : List Document) : GroupSpec.Groups :=
  g.groups (q.sort.sort matched)

/-- The groups that are shown, in the order of their first rows. -/
def admittedGroups (q : QuerySpec) (g : GroupSpec) (matched : List Document) :
    GroupSpec.Groups :=
  (q.groupsOf g matched).filter fun group => q.admits (q.groupRow g group)

/-- Whether a group comes before another on a page. -/
def groupBefore (q : QuerySpec) (g : GroupSpec) (a b : Value × List Document) : Bool :=
  (q.assembler.groupOrder g).compare (q.groupRow g a) (q.groupRow g b) == .lt

variable {q : QuerySpec} {g : GroupSpec} {owner : Option String}

/-! ### The stages -/

theorem rowStages_of_isBare (hq : q.IsBare) (hg : q.assembler.effectiveGroup = some g) :
    q.rowStages owner =
      (owned owner ++ q.selecting) ++ (q.sorting ++ q.assembler.groupPipeline .results g) := by
  have hrowwise : q.rowwise = [] := by
    rw [rowwise, projecting, hasProjection, measuring, unwinding, attaching, countedJoins,
      unwoundJoins, hq.joins, hq.fields]
    rfl
  rw [rowStages_eq, hrowwise, List.append_nil, grouping, hg]

theorem run_targets (c : Collections) (rows : List Document) :
    Pipeline.run c (q.replacing ++ q.merging) rows = .ok rows := by
  rw [replacing, merging]
  cases q.out <;> cases q.merge <;> rfl

/-- A grouped query without joins compiles to its rows, the cut of the page and the targets, in this
order. -/
theorem compile_of_isBare (hq : q.IsBare) (hgrouped : q.isGrouped = true) (page : Page)
    (force : Bool) :
    q.compile page owner force = .ok (.aggregate
      (q.rowStages owner ++ (skipping page ++ [.limit page.size]) ++
        (q.replacing ++ q.merging))) := by
  have hpipeline : q.requiresPipeline = true := by
    rw [isGrouped] at hgrouped
    simp [requiresPipeline, hgrouped]
  have hslots : ∀ entry ∈ q.assembler.extra, entry.1 = entry.2.slot := by
    rw [hq.extra]
    exact List.forall_mem_nil _
  have hfew : ¬ 1 < q.assembler.groupTotal := by
    rw [groupTotal, hq.extra]
    split <;> decide
  rw [compile, hpipeline, assemble_eq (not_isGroup_pageStages page) hslots, if_neg hfew,
    arrange_page_of_extra hq.extra, Bool.not_true, Bool.and_false, if_neg Bool.false_ne_true]
  rfl

/-! ### The rows -/

/-- The condition on groups can be evaluated on the rows that stand for them. -/
def Decides (q : QuerySpec) (g : GroupSpec) (matched : List Document) : Prop :=
  ∀ criteria, q.assembler.having = some criteria →
    ∃ kept, criteria.select ((q.groupsOf g matched).map (q.groupRow g)) = .ok kept

/-- Grouping the sorted rows gives one row for each group. -/
theorem run_pageGroup (matched : List Document) :
    (q.assembler.pageGroup g).run (q.sort.sort matched) =
      (q.groupsOf g matched).map (q.groupRow g) := by
  rw [GroupSpec.run, groups_pageGroup]
  rfl

theorem decides_iff (c : Collections) {matched : List Document} :
    q.Decides g matched ↔ ∃ kept, Pipeline.run c q.assembler.conditions
      ((q.assembler.pageGroup g).run (q.sort.sort matched)) = .ok kept := by
  rw [Decides, conditions, run_pageGroup]
  cases q.assembler.having with
  | none => exact iff_of_true (fun _ h => by cases h) ⟨_, rfl⟩
  | some criteria =>
      rw [Option.map_some, Option.toList_some, Pipeline.run_singleton]
      exact ⟨fun h => h criteria rfl, fun h _ hcriteria => Option.some_inj.mp hcriteria ▸ h⟩

section Run

variable (hq : q.IsBare) (hg : q.assembler.effectiveGroup = some g) {c : Collections}
  {documents rows : List Document}
include hq hg

/-- The rows are those of the admitted groups in their order, as long as the conditions on
documents and on groups can be evaluated. -/
theorem run_rowStages_eq_ok_iff :
    Pipeline.run c (q.rowStages owner) documents = .ok rows ↔
      ∃ matched, (q.ownedCriteria owner).select documents = .ok matched ∧ q.Decides g matched ∧
        rows = (stableSort (q.groupBefore g) (q.admittedGroups g matched)).map (q.shownRow g) := by
  rw [rowStages_of_isBare hq hg, Pipeline.run_append, run_selection, Outcome.bind_eq_ok]
  refine exists_congr fun matched => and_congr_right fun _ => ?_
  rw [Pipeline.run_append, run_sorting]
  refine (run_groups_eq_ok_iff c).trans ?_
  rw [← decides_iff, run_pageGroup, List.filter_map, SortSpec.sort, stableSort_map, List.map_map]
  rfl

/-- A page of groups is read if and only if every row is decided by the filter and every group by
its conditions, and then it is that part of the admitted groups in their order. -/
theorem run_page_eq_ok_iff {page : Page} :
    Pipeline.run c (q.rowStages owner ++ (skipping page ++ [.limit page.size]) ++
      (q.replacing ++ q.merging)) documents = .ok rows ↔
    ∃ matched, (q.ownedCriteria owner).select documents = .ok matched ∧ q.Decides g matched ∧
      rows = (((stableSort (q.groupBefore g) (q.admittedGroups g matched)).map
        (q.shownRow g)).drop page.offset).take page.size := by
  rw [Pipeline.run_append, Pipeline.run_append]
  simp only [run_targets, run_skipping, Outcome.bind_eq_ok, run_rowStages_eq_ok_iff hq hg,
    Except.ok.injEq]
  constructor
  · rintro ⟨_, ⟨_, ⟨matched, hmatched, hdecides, rfl⟩, rfl⟩, rfl⟩
    exact ⟨matched, hmatched, hdecides, rfl⟩
  · rintro ⟨matched, hmatched, hdecides, rfl⟩
    exact ⟨_, ⟨_, ⟨matched, hmatched, hdecides, rfl⟩, rfl⟩, rfl⟩

end Run

/-- While groups are sorted, the first row of a group takes the place of an output. -/
theorem output?_pageGroup (a : Assembler) (g : GroupSpec) (name : String) :
    (a.pageGroup g).output? name =
      if a.keepsFirst g = true ∧ name = firstRowField then some .firstRow else g.output? name := by
  rw [pageGroup]
  by_cases hkeeps : a.keepsFirst g = true
  · simp only [hkeeps, if_true, true_and, GroupSpec.output?_upsert, eq_comm]
  · rw [if_neg hkeeps, if_neg fun h => hkeeps h.1]

theorem value?_groupRow (q : QuerySpec) (g : GroupSpec) (group : Value × List Document)
    (name : String) :
    (q.groupRow g group).value? name =
      (((q.assembler.pageGroup g).output? name).map fun accumulator =>
        accumulator.apply group.2).or (Document.value? [(Item.idField, group.1)] name) :=
  GroupSpec.value?_summary_eq _ _

/-- What a page shows at a name: nothing where the first row of the group has stood, else the
output of that name, else the key as the identity. -/
theorem value?_shownRow (q : QuerySpec) (g : GroupSpec) (group : Value × List Document)
    (name : String) :
    (q.shownRow g group).value? name =
      if q.assembler.keepsFirst g = true ∧ name = firstRowField then none
      else ((g.output? name).map fun accumulator => accumulator.apply group.2).or
        (Document.value? [(Item.idField, group.1)] name) := by
  have hrow := q.value?_groupRow g group name
  rw [output?_pageGroup] at hrow
  rw [shownRow, cleanRow]
  by_cases hkeeps : q.assembler.keepsFirst g = true
  · rw [if_pos hkeeps, value?_drop_first]
    by_cases hname : name = firstRowField
    · rw [if_pos hname.symm, if_pos ⟨hkeeps, hname⟩]
    · rw [if_neg (Ne.symm hname), if_neg fun h => hname h.2, hrow, if_neg fun h => hname h.2]
  · rw [if_neg hkeeps, if_neg fun h => hkeeps h.1, hrow, if_neg fun h => hkeeps h.1]

end DocumentBase.QuerySpec
