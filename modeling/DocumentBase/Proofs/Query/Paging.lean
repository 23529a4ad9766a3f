import DocumentBase.Proofs.Page
import DocumentBase.Proofs.Query.RowCount
import DocumentBase.Proofs.Query.Totals
import DocumentBase.Proofs.Sorting.Keys

/-!
# Pages of simple queries

A query without joins and groups selects documents, sorts them and projects them.  Its pages
are consecutive slices of these rows, whether they are found by a find request or by a pipeline.
-/

namespace DocumentBase

/-! ### Slices of a list -/

/-- Slices that follow each other make up the beginning of the list that they were cut from. -/
theorem flatMap_slices {α : Type} (xs : List α) (size count : Nat) :
    (List.range count).flatMap (fun k => (xs.drop (k * size)).take size) =
      xs.take (count * size) := by
  induction count with
  | zero => simp
  | succ count ih =>
      rw [List.range_succ, List.flatMap_append, ih, List.flatMap_singleton, ← List.take_add,
        Nat.succ_mul]

/-- The number of pages that some rows fill, if there is always a first page. -/
theorem exists_pageCount (total : Nat) {size : Nat} (hsize : 0 < size) :
    ∃ m, max 1 ((total + size - 1) / size) = m + 1 ∧ total ≤ (m + 1) * size ∧
      (m = 0 ∨ m * size < total) := by
  have hlower := Nat.div_mul_le_self (total + size - 1) size
  have hupper : total + size - 1 < (total + size - 1) / size * size + size :=
    Nat.lt_div_mul_add hsize
  generalize (total + size - 1) / size = count at hlower hupper
  cases count with
  | zero => exact ⟨0, rfl, by omega, Or.inl rfl⟩
  | succ m =>
      rw [Nat.succ_mul] at hlower hupper
      refine ⟨m, by omega, ?_, Or.inr (by omega)⟩
      rw [Nat.succ_mul]
      omega

/-! ### Page numbers -/

namespace Page

/-- The page that comes after `k` others. -/
def nth (size skip k : Nat) : Page :=
  ⟨k + 1, size, skip⟩

variable (size skip k : Nat)

theorem start_nth : (nth size skip k).start = (skip + k * size : Nat) := by
  rw [start, nth, Int.add_sub_cancel]
  push_cast
  rfl

theorem offset_nth : (nth size skip k).offset = min (skip + k * size) Value.maxWord := by
  have hstart := start_nth size skip k
  have hoffset := offset_eq_min (p := nth size skip k) (by omega)
  omega

/-- Dropping what lies in front of a page is dropping what is skipped and then the pages before it.
-/
theorem drop_offset_nth {α : Type} {xs : List α} (h : xs.length ≤ Value.maxWord) :
    xs.drop (nth size skip k).offset = (xs.drop skip).drop (k * size) := by
  rw [offset_nth, List.drop_drop]
  rcases Nat.le_total (skip + k * size) Value.maxWord with hle | hge
  · rw [Nat.min_eq_left hle]
  · rw [Nat.min_eq_right hge, List.drop_eq_nil_of_le h,
      List.drop_eq_nil_of_le (Nat.le_trans h hge)]

/-- Rows remain after a page if it ends before them. -/
theorem hasNext_nth {total : Nat} (h : total ≤ Value.maxWord) :
    (nth size skip k).hasNext total = true ↔ skip + (k + 1) * size < total := by
  have hsize : (nth size skip k).size = size := rfl
  rw [hasNext, decide_eq_true_eq, offset_nth, hsize, Nat.succ_mul]
  omega

/-- The page before the next one is the page itself. -/
theorem prev_nth (h : size ≤ Value.maxWord) :
    (nth size skip (k + 1)).prev = nth size skip k := by
  have hstart := start_nth size skip k
  exact prev_next (p := nth size skip k) (by omega) h

end Page

/-! ### Simple queries -/

namespace QuerySpec

open Assembler

/-- A plain query without joins and groups. -/
structure IsSimple (q : QuerySpec) : Prop extends IsPlain q where
  joins : q.joins = []
  group : q.assembler.isGrouped = false

variable {q : QuerySpec} {owner : Option String}

theorem rowStages_of_isSimple (hq : q.IsSimple) :
    q.rowStages owner = (owned owner ++ q.selecting) ++ (q.sorting ++ q.projecting) := by
  have hgrouping : q.grouping .results = [] := by
    rw [grouping, effectiveGroup_of_not_isGrouped hq.group]
  have hrowwise : q.rowwise = q.projecting := by
    rw [rowwise, measuring, unwinding, attaching, countedJoins, unwoundJoins, hq.joins]
    simp
  rw [rowStages_eq, hgrouping, hrowwise, List.nil_append]

def rowsOf (q : QuerySpec) (matched : List Document) : List Document :=
  (q.sort.sort matched).map q.projectRow

theorem length_rowsOf (q : QuerySpec) (matched : List Document) :
    (q.rowsOf matched).length = matched.length := by
  rw [rowsOf, List.length_map]
  exact (perm_stableSort _ matched).length_eq

/-- Selecting, sorting and projecting give the rows of the query, or the error of its filter. -/
theorem run_rowStages_eq (hq : q.IsSimple) (c : Collections) (documents : List Document) :
    Pipeline.run c (q.rowStages owner) documents =
      ((q.ownedCriteria owner).select documents).map q.rowsOf := by
  rw [rowStages_of_isSimple hq, Pipeline.run_append, run_selection]
  cases (q.ownedCriteria owner).select documents with
  | error e => rfl
  | ok matched =>
      have hsorted : Pipeline.run c (q.sorting ++ q.projecting) matched =
          .ok (q.rowsOf matched) := by
        rw [Pipeline.run_append, run_sorting]
        exact run_projecting c _
      exact hsorted

theorem run_rowStages (hq : q.IsSimple) {c : Collections} {documents matched : List Document}
    (h : (q.ownedCriteria owner).select documents = .ok matched) :
    Pipeline.run c (q.rowStages owner) documents = .ok (q.rowsOf matched) := by
  rw [run_rowStages_eq hq, h]
  rfl

/-! ### Queries that need no pipeline -/

/-- A query that needs no pipeline selects documents, sorts them and does nothing else. -/
theorem isSimple_of_requiresPipeline_eq_false (h : q.requiresPipeline = false) : q.IsSimple := by
  simp only [requiresPipeline, hasExtraStages, Bool.or_eq_false_iff, Bool.not_eq_false',
    List.isEmpty_iff, Option.isSome_eq_false_iff, Option.isNone_iff_eq_none] at h
  obtain ⟨⟨⟨⟨⟨hjoins, _⟩, hgroup⟩, hextra⟩, hout⟩, hmerge⟩ := h
  exact ⟨⟨hextra, hout, hmerge⟩, hjoins, hgroup⟩

theorem rowsOf_of_requiresPipeline_eq_false (h : q.requiresPipeline = false)
    (matched : List Document) : q.rowsOf matched = q.sort.sort matched := by
  have hprojection : q.hasProjection = false := by
    simp only [requiresPipeline, Bool.or_eq_false_iff] at h
    exact h.1.1.1.1.2
  have hrow : q.projectRow = id := by
    funext row
    rw [projectRow, hprojection]
    rfl
  rw [rowsOf, hrow, List.map_id]

/-! ### The requests of simple queries -/

def pageRows (q : QuerySpec) (matched : List Document) (page : Page) : List Document :=
  ((q.rowsOf matched).drop page.offset).take page.size

theorem run_skip (c : Collections) (page : Page) (rows : List Document) :
    Pipeline.run c (skipping page) rows = .ok (rows.drop page.offset) := by
  rw [skipping]
  split
  · rfl
  · have hoffset : page.offset = 0 := by omega
    rw [hoffset]
    rfl

theorem run_skipping (c : Collections) (page : Page) (rows : List Document) :
    Pipeline.run c (skipping page ++ [.limit page.size]) rows =
      .ok ((rows.drop page.offset).take page.size) := by
  rw [Pipeline.run_append, run_skip]
  rfl

theorem groupCount_rowStages (hq : q.IsSimple) (page : Page) :
    Pipeline.groupCount (q.rowStages owner ++ (skipping page ++ [.limit page.size])) = 0 := by
  have howned : (owned owner).countP Stage.isGroup = 0 := by
    cases owner <;> rfl
  have hselecting : q.selecting.countP Stage.isGroup = 0 := by
    rw [selecting]
    split <;> rfl
  have hsorting : q.sorting.countP Stage.isGroup = 0 := by
    rw [sorting]
    split <;> rfl
  have hprojecting : q.projecting.countP Stage.isGroup = 0 := by
    rw [projecting]
    split <;> rfl
  have hskipping : (skipping page ++ [Stage.limit page.size]).countP Stage.isGroup = 0 := by
    rw [skipping]
    split <;> rfl
  rw [rowStages_of_isSimple hq, Pipeline.groupCount, List.countP_append, List.countP_append,
    List.countP_append, List.countP_append, howned, hselecting, hsorting, hprojecting, hskipping]

/-- A simple query is a find, unless it is projected or run, and then it is a pipeline with the same
parts. -/
theorem compile_of_isSimple (hq : q.IsSimple) (page : Page) (force : Bool) :
    q.compile page owner force =
      .ok (if !force && !q.requiresPipeline then
        .find ⟨q.ownedCriteria owner, q.sort, page.offset, page.size⟩
      else .aggregate (q.rowStages owner ++ (skipping page ++ [.limit page.size]))) := by
  rw [compile, assemble, arrange_page hq.toIsPlain, groupCount_rowStages hq]
  split <;> rfl

/-- A simple query is counted by its criteria. -/
theorem countRequest_of_isSimple (hq : q.IsSimple) :
    q.countRequest owner = .ok (.documents (q.ownedCriteria owner)) := by
  have hunwound : q.unwoundJoins = [] := by
    rw [unwoundJoins, hq.joins]
    rfl
  rw [countRequest, hq.group, hasExtraStages, hq.extra, hunwound]
  rfl

end QuerySpec

namespace PageCursor

open QuerySpec

variable {c : PageCursor} {owner : Option String} {stored : Collections}
  {matched : List Document}

/-- The rows of a page are a slice of all rows, in either way of reading them. -/
theorem rowsOf_of_isSimple (hq : c.spec.IsSimple)
    (hmatched : (c.spec.ownedCriteria owner).select (stored.rows c.view.name) = .ok matched)
    {force : Bool} {request : Request}
    (hrequest : c.spec.compile c.page owner force = .ok request) :
    c.rowsOf stored request = .ok (c.spec.pageRows matched c.page) := by
  rw [compile_of_isSimple hq] at hrequest
  rw [← Except.ok.inj hrequest]
  split
  · rename_i hfind
    have hneeds : c.spec.requiresPipeline = false := by
      rw [Bool.and_eq_true, Bool.not_eq_true', Bool.not_eq_true'] at hfind
      exact hfind.2
    rw [PageCursor.rowsOf, Collections.find_of_select hmatched, pageRows,
      rowsOf_of_requiresPipeline_eq_false hneeds]
  · rw [PageCursor.rowsOf, Pipeline.run_append, run_rowStages hq hmatched]
    exact run_skipping stored c.page _

end PageCursor

end DocumentBase
