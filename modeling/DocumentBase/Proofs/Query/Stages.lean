import DocumentBase.Proofs.Outcome
import DocumentBase.Proofs.Pipeline.Arrangement
import DocumentBase.Query.Spec

/-!
# The pipelines of plain queries

A query without further stages and targets compiles to a pipeline whose stages can be written
down in their order, for a page and for the number of rows.
-/

namespace DocumentBase

/-- Whether a stage makes rows of rows.  Others take some of them, count them or write them. -/
def Stage.makesRows : Stage → Bool
  | .skip _ | .limit _ | .count _ | .out _ | .merge _ => false
  | _ => true

/-- Whether a stage takes the rows of a page. -/
def Stage.isPaging : Stage → Bool
  | .skip _ | .limit _ => true
  | _ => false

/-- A pipeline without the stages that take the rows of a page. -/
def Pipeline.unpaged (p : Pipeline) : Pipeline :=
  p.filter fun stage => !stage.isPaging

namespace Pipeline

def MakesRows (p : Pipeline) : Prop :=
  ∀ stage ∈ p, stage.makesRows = true

theorem MakesRows.nil : MakesRows [] :=
  fun _ h => nomatch h

theorem MakesRows.single {stage : Stage} (h : stage.makesRows = true) : MakesRows [stage] :=
  fun _ hstage => List.mem_singleton.mp hstage ▸ h

theorem MakesRows.append {p q : Pipeline} (hp : p.MakesRows) (hq : q.MakesRows) :
    MakesRows (p ++ q) := by
  intro stage hstage
  rcases List.mem_append.mp hstage with hstage | hstage
  · exact hp stage hstage
  · exact hq stage hstage

/-- Stages that make rows hold no cut of a page. -/
theorem MakesRows.unpaged_eq {p : Pipeline} (hp : p.MakesRows) : p.unpaged = p := by
  apply List.filter_eq_self.mpr
  intro stage hstage
  have hmakes := hp stage hstage
  cases stage <;> first | rfl | cases hmakes

end Pipeline

namespace Assembler

/-- Whether the order of groups needs the first row of each. -/
def keepsFirst (a : Assembler) (g : GroupSpec) : Bool :=
  a.groupSort.keys.any fun key => (retarget g key.1).2

/-- The group stage of a page. -/
def pageGroup (a : Assembler) (g : GroupSpec) : GroupSpec :=
  if a.keepsFirst g then g.upsert firstRowField .firstRow else g

def conditions (a : Assembler) : Pipeline :=
  (a.having.map Stage.select).toList

/-- The order of groups, in terms of the rows that stand for them. -/
def groupOrder (a : Assembler) (g : GroupSpec) : SortSpec :=
  a.groupSort.keys.foldl (fun sort key => sort.push (retarget g key.1).1 key.2) SortSpec.empty

def ordering (a : Assembler) (g : GroupSpec) : Pipeline :=
  if (a.groupOrder g).isEmpty then [] else [.sort (a.groupOrder g)]

def cleaning (a : Assembler) (g : GroupSpec) : Pipeline :=
  if a.keepsFirst g then [.project (.drop [firstRowField])] else []

/-- The stages for groups in their order. -/
def groupPipeline (a : Assembler) : Purpose → GroupSpec → Pipeline
  | .results, g =>
    [.group (a.pageGroup g)] ++ a.conditions ++ a.ordering g ++ a.cleaning g
  | .counting, g => [.group g] ++ a.conditions

theorem effectiveGroup_of_not_isGrouped {a : Assembler} (h : a.isGrouped = false) :
    a.effectiveGroup = none := by
  rw [isGrouped, Bool.or_eq_false_iff] at h
  rw [effectiveGroup, h.2]
  simpa using h.1

theorem map_when (b : Bool) (slot : Slot) (stage : Stage) :
    (if b then [stage] else []).map (fun stage => (slot, stage)) =
      if b then [(slot, stage)] else [] := by
  cases b <;> rfl

theorem map_unless (b : Bool) (slot : Slot) (stage : Stage) :
    (if b then [] else [stage]).map (fun stage => (slot, stage)) =
      if b then [] else [(slot, stage)] := by
  cases b <;> rfl

theorem map_toList {α : Type} (x : Option α) (slot : Slot) (f : α → Stage) :
    (x.map f).toList.map (fun stage => (slot, stage)) =
      (x.map fun v => (slot, f v)).toList := by
  cases x <;> rfl

/-- The stages of a group on a page are the group, its conditions, its order and what cleans it. -/
theorem groupStages_results (a : Assembler) (g : GroupSpec) :
    a.groupStages .results g = ofBlocks
      [(.group, [.group (a.pageGroup g)]), (.having, a.conditions),
        (.groupSort, a.ordering g), (.groupCleanup, a.cleaning g)] := by
  simp only [groupStages, ofBlocks, List.flatMap_cons, List.flatMap_nil, conditions, ordering,
    cleaning, map_when, map_unless, map_toList, List.any_map, List.foldl_map]
  simp only [keepsFirst, groupOrder, pageGroup, Function.comp_def, List.append_nil,
    List.append_assoc, List.map_cons, List.map_nil, List.cons_append, List.nil_append]
  rfl

/-- Counting needs of a group the group itself and its conditions. -/
theorem groupStages_counting (a : Assembler) (g : GroupSpec) :
    a.groupStages .counting g = ofBlocks [(.group, [.group g]), (.having, a.conditions)] := by
  simp [groupStages, ofBlocks, conditions, SortSpec.isEmpty, SortSpec.empty, map_toList]

end Assembler

namespace QuerySpec

open Assembler

/-- A query without further stages that does not write its rows anywhere. -/
structure IsPlain (q : QuerySpec) : Prop where
  extra : q.assembler.extra = []
  out : q.out = none
  merge : q.merge = none

def owned (owner : Option String) : Pipeline :=
  (owner.map fun owner => Stage.select (.fieldIs Item.ownerField owner)).toList

def selecting (q : QuerySpec) : Pipeline :=
  if q.criteria.isEmpty then [] else [.select q.criteria]

def sorting (q : QuerySpec) : Pipeline :=
  if q.sort.isEmpty then [] else [.sort q.sort]

/-- The stages for groups, if there are any. -/
def grouping (q : QuerySpec) (purpose : Purpose) : Pipeline :=
  match q.assembler.effectiveGroup with
  | some g => q.assembler.groupPipeline purpose g
  | none => []

def projecting (q : QuerySpec) : Pipeline :=
  if q.hasProjection then [.project q.projection] else []

def measuring (q : QuerySpec) : Pipeline :=
  if q.countedJoins.isEmpty then [] else [.referenceLength q.countedJoins]

def attaching (joins : List Join) : Pipeline :=
  joins.map Stage.lookup

def unwinding (q : QuerySpec) : Pipeline :=
  q.unwoundJoins.map fun join => .unwind join.output

def skipping (page : Page) : Pipeline :=
  if 0 < page.offset then [.skip page.offset] else []

/-- The stages that write the rows of a page to the targets of a query. -/
def replacing (q : QuerySpec) : Pipeline :=
  (q.out.map Stage.out).toList

def merging (q : QuerySpec) : Pipeline :=
  (q.merge.map Stage.merge).toList

/-- The stages that make the rows of a query, before any of them are left out. -/
def rowStages (q : QuerySpec) (owner : Option String) : Pipeline :=
  owned owner ++ q.selecting ++ q.sorting ++ q.grouping .results ++ q.projecting ++ q.measuring ++
    attaching q.joins ++ q.unwinding

/-- The stages that make the rows that are counted. -/
def countedStages (q : QuerySpec) (owner : Option String) : Pipeline :=
  owned owner ++ q.selecting ++ q.grouping .counting ++ attaching q.unwoundJoins ++ q.unwinding

variable {q : QuerySpec}

/-- The stages of a page, slot by slot. -/
theorem pageStages_eq (q : QuerySpec) (page : Page) (owner : Option String) :
    q.pageStages page owner = ofBlocks
      [(.ownership, owned owner), (.select, q.selecting), (.sort, q.sorting),
        (.project, q.projecting), (.referenceLength, q.measuring), (.lookup, attaching q.joins),
        (.unwind, q.unwinding), (.skip, skipping page), (.limit, [.limit page.size]),
        (.out, q.replacing), (.merge, q.merging)] := by
  have hskip : (skipping page).map (fun stage => (Slot.skip, stage)) =
      if 0 < page.offset then [(.skip, .skip page.offset)] else [] := by
    rw [skipping]
    split <;> rfl
  simp only [ofBlocks, List.flatMap_cons, List.flatMap_nil, owned, selecting, sorting, projecting,
    measuring, attaching, unwinding, replacing, merging, map_when, map_unless, map_toList, hskip,
    List.map_map]
  simp [pageStages, selectionStages, joinStages, Function.comp_def]

/-- The stages of a join stand side by side before they are arranged. -/
theorem inSlot_interleaved (joins : List Join) (slot : Slot) :
    inSlot (joins.flatMap fun join =>
        [(Slot.lookup, Stage.lookup join), (Slot.unwind, .unwind join.output)]) slot =
      inSlot (ofBlocks [(.lookup, attaching joins),
        (.unwind, joins.map fun join => .unwind join.output)]) slot := by
  rw [inSlot_ofBlocks]
  induction joins with
  | nil => cases slot <;> rfl
  | cons join rest ih =>
      rw [List.flatMap_cons, inSlot_append, ih]
      cases slot <;> simp [inSlot_cons, attaching]

theorem arrange_countingStages (owner : Option String)
    (groups : List (Slot × Stage)) :
    arrange (q.countingStages owner ++ groups) = arrange (ofBlocks
      [(.ownership, owned owner), (.select, q.selecting), (.lookup, attaching q.unwoundJoins),
        (.unwind, q.unwinding)] ++ groups) := by
  have hselection : q.selectionStages owner =
      ofBlocks [(.ownership, owned owner), (.select, q.selecting)] := by
    simp only [ofBlocks, List.flatMap_cons, List.flatMap_nil, owned, selecting, map_unless,
      map_toList, selectionStages, List.append_nil]
  rw [arrange_eq, arrange_eq]
  apply List.flatMap_congr
  intro slot _
  rw [inSlot_append, inSlot_append, countingStages, inSlot_append, inSlot_interleaved,
    ← inSlot_append, hselection, ← ofBlocks_append]
  rfl

/-! ### The pipelines -/

theorem staged_of_extra (hextra : q.assembler.extra = []) (base : List (Slot × Stage))
    (purpose : Purpose) :
    q.assembler.staged base purpose = base ++
      match q.assembler.effectiveGroup with
      | some g => q.assembler.groupStages purpose g
      | none => [] := by
  have hnone : q.assembler.extraFor purpose = [] := by
    rw [extraFor, hextra]
    rfl
  rw [staged, hnone]
  exact congrArg (· ++ _) (List.append_nil base)

/-- The stages for a page of a query without further stages. -/
theorem arrange_page_of_extra (hextra : q.assembler.extra = []) (page : Page)
    (owner : Option String) :
    arrange (q.assembler.staged (q.pageStages page owner) .results) =
      q.rowStages owner ++ (skipping page ++ [.limit page.size]) ++
        (q.replacing ++ q.merging) := by
  rw [staged_of_extra hextra, pageStages_eq]
  unfold rowStages grouping
  cases q.assembler.effectiveGroup with
  | none =>
      rw [List.append_nil, arrange_ofBlocks]
      simp [stableSort, insertFromEnd, Slot.rank]
  | some g =>
      simp only
      rw [groupStages_results, ← ofBlocks_append, arrange_ofBlocks]
      simp [stableSort, insertFromEnd, Slot.rank, groupPipeline]

/-- A page is the rows of the query, and of these what the page skips to and has room for. -/
theorem arrange_page (hq : q.IsPlain) (page : Page) (owner : Option String) :
    arrange (q.assembler.staged (q.pageStages page owner) .results) =
      q.rowStages owner ++ (skipping page ++ [.limit page.size]) := by
  rw [arrange_page_of_extra hq.extra, replacing, merging, hq.out, hq.merge]
  exact List.append_nil _

theorem arrange_counting (hq : q.IsPlain) (owner : Option String) :
    arrange (q.assembler.staged (q.countingStages owner) .counting) = q.countedStages owner := by
  rw [staged_of_extra hq.extra, arrange_countingStages]
  unfold countedStages grouping
  cases q.assembler.effectiveGroup with
  | none =>
      rw [List.append_nil, arrange_ofBlocks]
      simp [stableSort, insertFromEnd, Slot.rank]
  | some g =>
      simp only
      rw [groupStages_counting, ← ofBlocks_append, arrange_ofBlocks]
      simp [stableSort, insertFromEnd, Slot.rank, groupPipeline]

/-- The pipeline for a page: the stages that make all rows, and those that take some of them. -/
theorem eq_of_compile (hq : q.IsPlain) {page : Page} {owner : Option String} {force : Bool}
    {p : Pipeline} (h : q.compile page owner force = .ok (.aggregate p)) :
    p = q.rowStages owner ++ (skipping page ++ [.limit page.size]) := by
  have hassemble : (do
      return Request.aggregate (← q.assembler.assemble (q.pageStages page owner) .results)) =
      Except.ok (Request.aggregate p) := by
    rw [compile] at h
    split at h
    · cases h
    · exact h
  obtain ⟨assembled, hp, hrequest⟩ := Outcome.bind_eq_ok.mp hassemble
  obtain rfl : assembled = p := by simpa using Outcome.pure_eq_ok.mp hrequest
  rw [q.assembler.eq_arrange_of_assemble hp, arrange_page hq]

/-- Whether the number of rows is that of the documents that are selected. -/
def countsDocuments (q : QuerySpec) : Bool :=
  !q.assembler.isGrouped && q.unwoundJoins.isEmpty

theorem eq_of_countRequest (hq : q.IsPlain) {owner : Option String} {request : CountRequest}
    (h : q.countRequest owner = .ok request) :
    request = if q.countsDocuments then .documents (q.ownedCriteria owner)
      else .pipeline (q.countedStages owner ++ [.count totalField]) := by
  have hextra : q.assembler.hasExtraStages = false := by
    simp [hasExtraStages, hq.extra]
  have hdecides : (!q.assembler.isGrouped && q.unwoundJoins.isEmpty) = q.countsDocuments := rfl
  rw [countRequest, hextra, Bool.not_false, Bool.and_true, hdecides] at h
  by_cases hdocuments : q.countsDocuments = true
  · rw [if_pos hdocuments]
    rw [if_pos hdocuments] at h
    exact (Except.ok.inj h).symm
  · rw [if_neg hdocuments]
    rw [if_neg hdocuments] at h
    obtain ⟨assembled, hp, hrequest⟩ := Outcome.bind_eq_ok.mp h
    rw [← Outcome.pure_eq_ok.mp hrequest, q.assembler.eq_arrange_of_assemble hp,
      arrange_counting hq]

/-! ### Stages that make rows -/

theorem makesRows_owned (owner : Option String) : (owned owner).MakesRows := by
  cases owner with
  | none => exact .nil
  | some owner => exact .single rfl

theorem makesRows_selecting (q : QuerySpec) : q.selecting.MakesRows := by
  rw [selecting]
  split
  · exact .nil
  · exact .single rfl

theorem makesRows_grouping (q : QuerySpec) (purpose : Purpose) :
    (q.grouping purpose).MakesRows := by
  have hconditions : q.assembler.conditions.MakesRows := by
    rw [conditions]
    cases q.assembler.having with
    | none => exact .nil
    | some criteria => exact .single rfl
  unfold grouping
  cases q.assembler.effectiveGroup with
  | none => exact .nil
  | some g =>
      have hordering : (q.assembler.ordering g).MakesRows := by
        rw [ordering]
        split
        · exact .nil
        · exact .single rfl
      have hcleaning : (q.assembler.cleaning g).MakesRows := by
        rw [cleaning]
        split
        · exact .single rfl
        · exact .nil
      cases purpose with
      | results => exact (((Pipeline.MakesRows.single rfl).append hconditions).append
          hordering).append hcleaning
      | counting => exact (Pipeline.MakesRows.single rfl).append hconditions

theorem makesRows_attaching (joins : List Join) : (attaching joins).MakesRows := by
  intro stage hstage
  obtain ⟨join, -, rfl⟩ := List.mem_map.mp hstage
  rfl

theorem makesRows_unwinding (q : QuerySpec) : q.unwinding.MakesRows := by
  intro stage hstage
  obtain ⟨join, -, rfl⟩ := List.mem_map.mp hstage
  rfl

theorem makesRows_rowStages (q : QuerySpec) (owner : Option String) :
    (q.rowStages owner).MakesRows := by
  have hsorting : q.sorting.MakesRows := by
    rw [sorting]
    split
    · exact .nil
    · exact .single rfl
  have hprojecting : q.projecting.MakesRows := by
    rw [projecting]
    split
    · exact .single rfl
    · exact .nil
  have hmeasuring : q.measuring.MakesRows := by
    rw [measuring]
    split
    · exact .nil
    · exact .single rfl
  have hselected := (makesRows_owned owner).append q.makesRows_selecting
  have hgrouped := (hselected.append hsorting).append (q.makesRows_grouping .results)
  have hmeasured := (hgrouped.append hprojecting).append hmeasuring
  exact (hmeasured.append (makesRows_attaching q.joins)).append q.makesRows_unwinding

theorem makesRows_countedStages (q : QuerySpec) (owner : Option String) :
    (q.countedStages owner).MakesRows := by
  have hselected := (makesRows_owned owner).append q.makesRows_selecting
  have hgrouped := hselected.append (q.makesRows_grouping .counting)
  exact (hgrouped.append (makesRows_attaching q.unwoundJoins)).append q.makesRows_unwinding

/-- A pipeline for a page without its cut is the rows of the query. -/
theorem unpaged_of_compile (hq : q.IsPlain) {page : Page} {owner : Option String} {force : Bool}
    {p : Pipeline} (h : q.compile page owner force = .ok (.aggregate p)) :
    p.unpaged = q.rowStages owner := by
  have hrows : (q.rowStages owner).unpaged = q.rowStages owner :=
    (q.makesRows_rowStages owner).unpaged_eq
  have hpaging : (skipping page ++ [.limit page.size] : Pipeline).unpaged = [] := by
    rw [skipping]
    split <;> rfl
  rw [Pipeline.unpaged] at hrows hpaging
  rw [eq_of_compile hq h, Pipeline.unpaged, List.filter_append, hrows, hpaging, List.append_nil]

end QuerySpec

end DocumentBase
