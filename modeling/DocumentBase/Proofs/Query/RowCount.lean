import DocumentBase.Proofs.Grouping
import DocumentBase.Proofs.Pipeline.Running
import DocumentBase.Proofs.Projection
import DocumentBase.Proofs.Query.Stages

/-!
# How many rows a query makes

Behind the groups every row is projected, measured, joined and unwound on its own.  Counting
leaves out all of this but the joins that are unwound, and it leaves out the order of rows and
the first row of a group.  It finds the same number of rows if what it leaves out is not seen by
a condition on groups, and not written where an unwound join reads or writes.
-/

namespace DocumentBase

open Value

namespace Document

variable {path : String} {r s : Document}

theorem likeAt_of_headOf (h : Option.Rel Like (r.value? (Path.headOf path))
    (s.value? (Path.headOf path))) : LikeAt (Path.ofString path) r s := by
  rw [Path.ofString_eq_cons]
  exact likeAt_of_head h _

theorem forall₂_reachAt_of_headOf (h : Option.Rel Like (r.value? (Path.headOf path))
    (s.value? (Path.headOf path))) :
    List.Forall₂ Like (r.reachAt path) (s.reachAt path) := by
  rw [reachAt, reachAt, Path.ofString_eq_cons, Document.reach, Document.reach, Value.reach,
    Value.reach]
  exact forall₂_reach_of_rel (Like.reach _) h

end Document

namespace QuerySpec

open Assembler

variable {q : QuerySpec} (c : Collections)

/-! ### The rows that one row becomes -/

def projectRow (q : QuerySpec) (row : Document) : Document :=
  if q.hasProjection then q.projection.run row else row

def measureRow (q : QuerySpec) (row : Document) : Document :=
  q.countedJoins.foldl (fun row (output, join) => row.setAt output (join.referenceCount row)) row

/-- The stages that treat every row on its own. -/
def rowwise (q : QuerySpec) : Pipeline :=
  q.projecting ++ q.measuring ++ attaching q.joins ++ q.unwinding

/-- The rows of a result that a row becomes. -/
def rowsFrom (q : QuerySpec) (c : Collections) (row : Document) : List Document :=
  unwindAll (Join.outputsOf q.joins) [Join.runAll c q.joins (q.measureRow (q.projectRow row))]

/-- The rows that a row becomes when they are counted. -/
def countedFrom (q : QuerySpec) (c : Collections) (row : Document) : List Document :=
  unwindAll (Join.outputsOf q.joins) [Join.runAll c q.unwoundJoins row]

theorem run_sorting (rows : List Document) :
    Pipeline.run c q.sorting rows = .ok (q.sort.sort rows) := by
  rw [sorting]
  split
  · rw [SortSpec.sort_of_isEmpty ‹_›]
    rfl
  · exact Pipeline.run_singleton c _ rows

theorem run_projecting (rows : List Document) :
    Pipeline.run c q.projecting rows = .ok (rows.map q.projectRow) := by
  rw [projecting]
  by_cases h : q.hasProjection = true
  · have hrow : q.projectRow = q.projection.run := by
      funext row
      rw [projectRow, if_pos h]
    rw [if_pos h, Pipeline.run_singleton, Stage.run, hrow]
  · have hrow : q.projectRow = id := by
      funext row
      rw [projectRow, if_neg h]
      rfl
    rw [if_neg h, hrow, List.map_id]
    rfl

theorem run_measuring (rows : List Document) :
    Pipeline.run c q.measuring rows = .ok (rows.map q.measureRow) := by
  rw [measuring]
  by_cases h : q.countedJoins.isEmpty = true
  · have hrow : q.measureRow = id := by
      funext row
      rw [measureRow, List.isEmpty_iff.mp h]
      rfl
    rw [if_pos h, hrow, List.map_id]
    rfl
  · rw [if_neg h, Pipeline.run_singleton]
    rfl

theorem run_unwinding (rows : List Document) :
    Pipeline.run c q.unwinding rows =
      .ok (rows.flatMap fun row => unwindAll (Join.outputsOf q.joins) [row]) := by
  rw [unwinding, Pipeline.run_unwinds, ← unwindAll_eq_flatMap]
  rfl

/-- Behind the groups a page is made row by row. -/
theorem run_rowwise (rows : List Document) :
    Pipeline.run c q.rowwise rows = .ok (rows.flatMap (q.rowsFrom c)) := by
  have hmeasured : Pipeline.run c (q.projecting ++ q.measuring) rows =
      .ok ((rows.map q.projectRow).map q.measureRow) := by
    rw [Pipeline.run_append, run_projecting]
    exact run_measuring c _
  have hjoined : Pipeline.run c (q.projecting ++ q.measuring ++ attaching q.joins) rows =
      .ok (((rows.map q.projectRow).map q.measureRow).map (Join.runAll c q.joins)) := by
    rw [Pipeline.run_append, hmeasured]
    exact Pipeline.run_lookups c q.joins _
  rw [rowwise, Pipeline.run_append, hjoined]
  apply (run_unwinding c _).trans
  rw [List.flatMap_map, List.flatMap_map, List.flatMap_map]
  rfl

/-- Counting goes row by row as well, through the unwound joins only. -/
theorem run_countedRowwise (rows : List Document) :
    Pipeline.run c (attaching q.unwoundJoins ++ q.unwinding) rows =
      .ok (rows.flatMap (q.countedFrom c)) := by
  have hjoined : Pipeline.run c (attaching q.unwoundJoins) rows =
      .ok (rows.map (Join.runAll c q.unwoundJoins)) := Pipeline.run_lookups c q.unwoundJoins rows
  rw [Pipeline.run_append, hjoined]
  apply (run_unwinding c _).trans
  rw [List.flatMap_map]
  rfl

/-! ### Where joins read -/

/-- The fields of a projection with that of one more join. -/
def addField (fields : List String) (join : Join) : List String :=
  if fields.contains join.field then fields else fields ++ [join.field]

theorem mem_addField {fields : List String} {join : Join} {field : String} :
    field ∈ addField fields join ↔ field ∈ fields ∨ field = join.field := by
  rw [addField]
  split
  · rename_i hthere
    rw [List.contains_iff_mem] at hthere
    constructor
    · exact Or.inl
    · rintro (hfield | rfl)
      · exact hfield
      · exact hthere
  · rw [List.mem_append, List.mem_singleton]

theorem mem_foldl_addField {joins : List Join} {fields : List String} {field : String} :
    field ∈ joins.foldl addField fields ↔ field ∈ fields ∨ ∃ join ∈ joins, field = join.field := by
  induction joins generalizing fields with
  | nil => simp
  | cons join rest ih =>
      rw [List.foldl_cons, ih, mem_addField]
      simp [or_assoc]

/-- The projection keeps what joins read. -/
theorem at?_projectRow {join : Join} (hjoin : join ∈ q.joins) (row : Document) :
    (q.projectRow row).at? join.field = row.at? join.field := by
  rw [projectRow]
  split
  · exact Projection.at?_keep (mem_foldl_addField.mpr (Or.inr ⟨join, hjoin, rfl⟩)) row
  · rfl

theorem at?_foldl_setAt {field : String} {entries : List (String × Join)}
    (h : ∀ entry ∈ entries, ApartPaths entry.1 field) (row : Document) :
    (entries.foldl (fun row (output, join) => row.setAt output (join.referenceCount row))
      row).at? field = row.at? field := by
  induction entries generalizing row with
  | nil => rfl
  | cons entry rest ih =>
      rw [List.foldl_cons, ih fun other hother => h other (by simp [hother])]
      exact Document.get?_set_of_apart _ (h entry (by simp)) row

/-! ### Rows and counted rows -/

/-- What joins do beside those that are unwound is not seen by the latter: numbers of references
are not written where they read, and no join disturbs another. -/
structure JoinsApart (q : QuerySpec) : Prop where
  lengths : ∀ entry ∈ q.countedJoins, ∀ field ∈ Join.fieldsOf q.joins, ApartPaths entry.1 field
  joins : q.joins.Pairwise Join.Undisturbed

instance (q : QuerySpec) : Decidable q.JoinsApart :=
  decidable_of_iff ((∀ entry ∈ q.countedJoins, ∀ field ∈ Join.fieldsOf q.joins,
      ApartPaths entry.1 field) ∧ q.joins.Pairwise Join.Undisturbed)
    ⟨fun h => ⟨h.1, h.2⟩, fun h => ⟨h.lengths, h.joins⟩⟩

/-- Projecting and measuring leave alone what unwound joins read. -/
theorem likeOn_prepared (hq : q.JoinsApart) {r s : Document}
    (h : LikeOn (Join.fieldsOf q.joins) r s) :
    LikeOn (Join.fieldsOf q.joins) (q.measureRow (q.projectRow r)) s := by
  intro field hfield
  have hmeasured : (q.measureRow (q.projectRow r)).at? field = (q.projectRow r).at? field :=
    at?_foldl_setAt (fun entry hentry => hq.lengths entry hentry field hfield) _
  have hprojected : (q.projectRow r).at? field = r.at? field := by
    obtain ⟨join, hjoin, rfl⟩ := List.mem_map.mp hfield
    exact at?_projectRow (List.mem_filter.mp hjoin).1 r
  have hread : (q.measureRow (q.projectRow r)).get? (Path.ofString field) =
      r.get? (Path.ofString field) := hmeasured.trans hprojected
  rw [Document.LikeAt, hread]
  exact h field hfield

/-- A row makes as many rows of the result as of those that are counted. -/
theorem length_rowsFrom (hq : q.JoinsApart) {r s : Document}
    (h : LikeOn (Join.fieldsOf q.joins) r s) :
    (q.rowsFrom c r).length = (q.countedFrom c s).length := by
  have houtputs : LikeOn (Join.outputsOf q.joins)
      (Join.runAll c q.joins (q.measureRow (q.projectRow r)))
      (Join.runAll c q.unwoundJoins s) :=
    Join.likeOn_runAll c [] hq.joins (likeOn_prepared hq h) (fun _ hpath => nomatch hpath)
      fun _ hpath => nomatch hpath
  exact (forall₂_unwindAll (fun _ h => h) (.cons houtputs .nil)).length_eq

/-! ### Groups -/

/-- The condition on groups, if it can be read. -/
def condition? (q : QuerySpec) : Option Predicate :=
  q.assembler.having.bind fun criteria => criteria.predicate.toOption

/-- The fields that the condition on groups looks at. -/
def conditionFields (q : QuerySpec) : List String :=
  (q.condition?.map Predicate.fields).getD []

def admits (q : QuerySpec) (row : Document) : Bool :=
  q.condition?.all fun p => p.accepts row

/-- Conditions that are decided on every row keep those that they admit. -/
theorem eq_filter_of_conditions {rows kept : List Document}
    (h : Pipeline.run c q.assembler.conditions rows = .ok kept) : kept = rows.filter q.admits := by
  rw [conditions] at h
  unfold admits condition?
  cases hhaving : q.assembler.having with
  | none =>
      rw [hhaving] at h
      simpa [eq_comm] using Except.ok.inj h
  | some criteria =>
      rw [hhaving, Option.map_some, Option.toList_some, Pipeline.run_singleton] at h
      obtain ⟨p, hp, hkept⟩ := Criteria.eq_filter_of_select h
      rw [hkept]
      simp [hp, Except.toOption]

theorem admits_congr {r s : Document} (h : ∀ field ∈ q.conditionFields,
    Option.Rel Like (r.value? (Path.headOf field)) (s.value? (Path.headOf field))) :
    q.admits r = q.admits s := by
  rw [conditionFields] at h
  rw [admits, admits]
  cases hcondition : q.condition? with
  | none => rfl
  | some p =>
      rw [hcondition] at h
      apply Predicate.accepts_congr
      intro field hfield
      exact Document.forall₂_reachAt_of_headOf (h field hfield)

/-- What a page makes of the row that stands for a group. -/
def cleanRow (q : QuerySpec) (g : GroupSpec) (row : Document) : Document :=
  if q.assembler.keepsFirst g then (Projection.drop [firstRowField]).run row else row

theorem run_cleaning (g : GroupSpec) (rows : List Document) :
    Pipeline.run c (q.assembler.cleaning g) rows = .ok (rows.map (q.cleanRow g)) := by
  rw [cleaning]
  by_cases h : q.assembler.keepsFirst g = true
  · have hrow : q.cleanRow g = (Projection.drop [firstRowField]).run := by
      funext row
      rw [cleanRow, if_pos h]
    rw [if_pos h, Pipeline.run_singleton, Stage.run, hrow]
  · have hrow : q.cleanRow g = id := by
      funext row
      rw [cleanRow, if_neg h]
      rfl
    rw [if_neg h, hrow, List.map_id]
    rfl

theorem run_ordering (g : GroupSpec) (rows : List Document) :
    Pipeline.run c (q.assembler.ordering g) rows = .ok ((q.assembler.groupOrder g).sort rows) := by
  rw [ordering]
  split
  · rw [SortSpec.sort_of_isEmpty ‹_›]
    rfl
  · exact Pipeline.run_singleton c _ rows

/-- The rows of a page are those of the admitted groups in their order, as long as the condition on
groups can be evaluated. -/
theorem run_groups_eq_ok_iff {g : GroupSpec} {rows result : List Document} :
    Pipeline.run c (q.assembler.groupPipeline .results g) rows = .ok result ↔
      (∃ kept, Pipeline.run c q.assembler.conditions ((q.assembler.pageGroup g).run rows) =
        .ok kept) ∧
      result = ((q.assembler.groupOrder g).sort
        (((q.assembler.pageGroup g).run rows).filter q.admits)).map (q.cleanRow g) := by
  rw [groupPipeline, Pipeline.run_append, Pipeline.run_append, Pipeline.run_append,
    Pipeline.run_singleton]
  simp only [Outcome.bind_eq_ok, run_ordering, run_cleaning, Except.ok.injEq]
  constructor
  · rintro ⟨_, ⟨kept, ⟨_, hgroups, hkept⟩, rfl⟩, rfl⟩
    cases hgroups
    exact ⟨⟨kept, hkept⟩, by rw [eq_filter_of_conditions c hkept]⟩
  · rintro ⟨⟨kept, hkept⟩, rfl⟩
    exact ⟨_, ⟨kept, ⟨_, rfl, hkept⟩, rfl⟩, by rw [eq_filter_of_conditions c hkept]⟩

/-- The rows of a page are those of the admitted groups, in some order. -/
theorem exists_perm_of_run_groups {g : GroupSpec} {rows result : List Document}
    (h : Pipeline.run c (q.assembler.groupPipeline .results g) rows = .ok result) :
    ∃ ordered : List Document,
      ordered.Perm (((q.assembler.pageGroup g).run rows).filter q.admits) ∧
        result = ordered.map (q.cleanRow g) :=
  ⟨_, perm_stableSort _ _, ((run_groups_eq_ok_iff c).mp h).2⟩

/-- The groups that are counted are the ones that the conditions admit. -/
theorem eq_filter_of_run_groups {g : GroupSpec} {rows counted : List Document}
    (h : Pipeline.run c (q.assembler.groupPipeline .counting g) rows = .ok counted) :
    counted = (g.run rows).filter q.admits := by
  rw [groupPipeline, Pipeline.run_append, Pipeline.run_singleton] at h
  exact eq_filter_of_conditions c h

/-! ### Groups and counted groups -/

/-- What is left out when groups are counted is not seen by the condition on groups or by unwound
joins: the order of rows changes all calculations but the number of rows, and the first row of a
group stands in a field of its own. -/
structure GroupsAlike (q : QuerySpec) (g : GroupSpec) : Prop where
  order : q.sort.isEmpty = false → ∀ field ∈ q.conditionFields ++ Join.fieldsOf q.joins,
    ∀ entry ∈ g.accumulators, entry.1 = Path.headOf field → entry.2 = .count
  condition : q.assembler.keepsFirst g = true → ∀ field ∈ q.conditionFields,
    firstRowField ≠ Path.headOf field
  joins : q.assembler.keepsFirst g = true → g.hasOutput firstRowField = true →
    ∀ field ∈ Join.fieldsOf q.joins, firstRowField ≠ Path.headOf field

theorem value?_pageGroup {g : GroupSpec} {name : String}
    (h : q.assembler.keepsFirst g = true → firstRowField ≠ name) (key : Value)
    (members : List Document) :
    ((q.assembler.pageGroup g).summary key members).value? name =
      (g.summary key members).value? name := by
  rw [pageGroup]
  split
  · exact GroupSpec.value?_summary_upsert (h ‹_›) _ key members
  · rfl

theorem value?_drop_first (row : Document) (name : String) :
    ((Projection.drop [firstRowField]).run row).value? name =
      if firstRowField = name then none else row.value? name := by
  have hpath : Path.ofString firstRowField = [firstRowField] := by decide
  have hrun : (Projection.drop [firstRowField]).run row = row.without firstRowField := by
    rw [Projection.run, List.foldl_cons, List.foldl_nil, Document.removeAt, hpath,
      Document.remove]
  rw [hrun]
  split
  · rename_i hname
    rw [← hname, Document.value?_without_self]
  · rename_i hname
    rw [Document.value?_without_ne _ hname]

theorem value?_cleanRow {g : GroupSpec} {name : String}
    (h : q.assembler.keepsFirst g = true → g.hasOutput firstRowField = true →
      firstRowField ≠ name) (key : Value) (members : List Document) :
    (q.cleanRow g ((q.assembler.pageGroup g).summary key members)).value? name =
      (g.summary key members).value? name := by
  rw [cleanRow]
  by_cases hkeeps : q.assembler.keepsFirst g = true
  · rw [if_pos hkeeps, value?_drop_first]
    by_cases hname : firstRowField = name
    · have houtput : g.hasOutput firstRowField = false := by
        by_contra hthere
        exact h hkeeps (by simpa using hthere) hname
      rw [if_pos hname, ← hname, GroupSpec.value?_summary_of_not_hasOutput houtput]
      rfl
    · rw [if_neg hname, value?_pageGroup fun _ => hname]
  · rw [if_neg hkeeps, value?_pageGroup fun hkept => absurd hkept hkeeps]

/-- How many rows of the result a group becomes. -/
def pageWeight (q : QuerySpec) (c : Collections) (g : GroupSpec) (a : Value × List Document) :
    Nat :=
  if q.admits ((q.assembler.pageGroup g).summary a.1 a.2) then
    (q.rowsFrom c (q.cleanRow g ((q.assembler.pageGroup g).summary a.1 a.2))).length
  else 0

/-- How many of the rows that are counted a group becomes. -/
def countedWeight (q : QuerySpec) (c : Collections) (g : GroupSpec) (a : Value × List Document) :
    Nat :=
  if q.admits (g.summary a.1 a.2) then (q.countedFrom c (g.summary a.1 a.2)).length else 0

/-- A group stands for as many rows on the pages as it is counted for. -/
theorem pageWeight_eq (hq : q.JoinsApart) {g : GroupSpec} (hg : q.GroupsAlike g) :
    q.pageWeight c g = q.countedWeight c g := by
  funext a
  have hadmits : q.admits ((q.assembler.pageGroup g).summary a.1 a.2) =
      q.admits (g.summary a.1 a.2) := by
    apply admits_congr
    intro field hfield
    rw [value?_pageGroup fun hkeeps => hg.condition hkeeps field hfield]
    exact rel_refl _
  have hlength : (q.rowsFrom c
      (q.cleanRow g ((q.assembler.pageGroup g).summary a.1 a.2))).length =
      (q.countedFrom c (g.summary a.1 a.2)).length := by
    apply length_rowsFrom c hq
    intro field hfield
    apply Document.likeAt_of_headOf
    rw [value?_cleanRow fun hkeeps houtput => hg.joins hkeeps houtput field hfield]
    exact rel_refl _
  rw [pageWeight, countedWeight, hadmits, hlength]

/-- Groups with the same rows in another order become as many rows. -/
theorem countedWeight_congr (hq : q.JoinsApart) {g : GroupSpec} (hg : q.GroupsAlike g)
    (hsort : q.sort.isEmpty = false) {a b : Value × List Document}
    (hab : GroupSpec.GroupLike a b) : q.countedWeight c g a = q.countedWeight c g b := by
  have hadmits : q.admits (g.summary a.1 a.2) = q.admits (g.summary b.1 b.2) := by
    apply admits_congr
    intro field hfield
    exact GroupSpec.rel_summary hab (hg.order hsort field (List.mem_append_left _ hfield))
  have halike : LikeOn (Join.fieldsOf q.joins) (g.summary a.1 a.2) (g.summary b.1 b.2) := by
    intro field hfield
    apply Document.likeAt_of_headOf
    exact GroupSpec.rel_summary hab (hg.order hsort field (List.mem_append_right _ hfield))
  rw [countedWeight, countedWeight, hadmits, ← length_rowsFrom c hq halike,
    length_rowsFrom c hq fun _ _ => .refl _ _]

theorem length_flatMap_filter_map {α β γ : Type} (xs : List α) (f : α → β) (p : β → Bool)
    (next : β → List γ) : (((xs.map f).filter p).flatMap next).length =
      (xs.map fun x => if p (f x) then (next (f x)).length else 0).sum := by
  induction xs with
  | nil => rfl
  | cons x xs ih =>
      rw [List.map_cons, List.filter_cons, List.map_cons, List.sum_cons, ← ih]
      split
      · rw [List.flatMap_cons, List.length_append]
      · rw [Nat.zero_add]

theorem groups_pageGroup (g : GroupSpec) (rows : List Document) :
    (q.assembler.pageGroup g).groups rows = g.groups rows := by
  apply GroupSpec.groups_of_key
  unfold pageGroup GroupSpec.upsert
  split
  · split <;> rfl
  · rfl

/-- The groups of sorted rows make as many rows as those of the rows themselves. -/
theorem length_groupRows (hq : q.JoinsApart) {g : GroupSpec} (hg : q.GroupsAlike g)
    {base sorted rows counted : List Document} (hperm : sorted.Perm base)
    (hunsorted : q.sort.isEmpty = true → sorted = base)
    (hrows : Pipeline.run c (q.assembler.groupPipeline .results g) sorted = .ok rows)
    (hcounted : Pipeline.run c (q.assembler.groupPipeline .counting g) base = .ok counted) :
    (rows.flatMap (q.rowsFrom c)).length = (counted.flatMap (q.countedFrom c)).length := by
  obtain ⟨ordered, hordered, rfl⟩ := exists_perm_of_run_groups c hrows
  have hreordered : ((g.groups sorted).map (q.countedWeight c g)).sum =
      ((g.groups base).map (q.countedWeight c g)).sum := by
    cases hsort : q.sort.isEmpty with
    | true => rw [hunsorted hsort]
    | false =>
        apply (g.rearranged_groups hperm).sum_map_eq
        intro a b hab
        exact countedWeight_congr c hq hg hsort hab
  calc
    ((ordered.map (q.cleanRow g)).flatMap (q.rowsFrom c)).length =
        ((g.groups sorted).map (q.pageWeight c g)).sum := by
      rw [List.flatMap_map, (hordered.flatMap_right _).length_eq, GroupSpec.run, groups_pageGroup]
      exact length_flatMap_filter_map _ _ _ _
    _ = ((g.groups sorted).map (q.countedWeight c g)).sum := by
      rw [pageWeight_eq c hq hg]
    _ = ((g.groups base).map (q.countedWeight c g)).sum := hreordered
    _ = (counted.flatMap (q.countedFrom c)).length := by
      rw [eq_filter_of_run_groups c hcounted]
      exact (length_flatMap_filter_map _ _ _ _).symm

end QuerySpec

end DocumentBase
