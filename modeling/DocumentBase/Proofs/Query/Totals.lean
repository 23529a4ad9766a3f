import DocumentBase.Proofs.Predicate.Selection
import DocumentBase.Proofs.Query.RowCount
import DocumentBase.Proofs.Store.Pages

/-!
# Totals

The total of a page is found by another request than its rows.  It is the number of all rows if
that request leaves out nothing that matters, as long as the number fits where it is counted.
-/

namespace DocumentBase

open DocumentBase.Action

/-! ### Requests that select documents -/

namespace Collections

theorem count_of_select {stored : Collections} {name : String} {criteria : Criteria}
    {matched : List Document} (h : criteria.select (stored.rows name) = .ok matched) :
    stored.count name criteria = .ok matched.length := by
  rw [count]
  rw [rows] at h
  cases hthere : stored.rows? name with
  | none =>
      rw [hthere] at h
      obtain ⟨p, _, hmatched⟩ := Criteria.eq_filter_of_select h
      rw [hmatched]
      rfl
  | some documents =>
      rw [hthere] at h
      have hselect : criteria.select documents = .ok matched := h
      simp only [hselect]
      rfl

theorem find_of_select {stored : Collections} {name : String} {request : FindRequest}
    {matched : List Document} (h : request.criteria.select (stored.rows name) = .ok matched) :
    stored.find name request =
      .ok (((request.sort.sort matched).drop request.skip).take request.limit) := by
  rw [find]
  rw [rows] at h
  cases hthere : stored.rows? name with
  | none =>
      rw [hthere] at h
      obtain ⟨p, _, hmatched⟩ := Criteria.eq_filter_of_select h
      rw [hmatched]
      simp [SortSpec.sort, stableSort]
  | some documents =>
      rw [hthere] at h
      have hselect : request.criteria.select documents = .ok matched := h
      simp only [hselect]
      rfl

end Collections

/-! ### Requests that write nothing -/

/-- A pipeline that goes on with stages that do not write is read-only. -/
theorem Pipeline.MakesRows.sink?_append {p : Pipeline} (hp : p.MakesRows) {rest : Pipeline}
    (hrest : rest.filterMap Stage.sink? = []) : (p ++ rest).sink? = none := by
  have hnone : p.filterMap Stage.sink? = [] := by
    apply List.filterMap_eq_nil_iff.mpr
    intro stage hstage
    have hmakes := hp stage hstage
    cases stage <;> first | rfl | cases hmakes
  rw [Pipeline.sink?, List.filterMap_append, hnone, hrest]
  rfl

namespace QuerySpec

open Assembler

variable {q : QuerySpec} {owner : Option String}

theorem isReadOnly_of_compile (hq : q.IsPlain) {page : Page} {force : Bool} {request : Request}
    (h : q.compile page owner force = .ok request) : request.IsReadOnly := by
  cases request with
  | find found => exact trivial
  | aggregate p =>
      rw [Request.IsReadOnly, eq_of_compile hq h]
      apply (q.makesRows_rowStages owner).sink?_append
      rw [skipping]
      split <;> rfl

theorem isReadOnly_of_countRequest (hq : q.IsPlain) {request : CountRequest}
    (h : q.countRequest owner = .ok request) : request.IsReadOnly := by
  rw [eq_of_countRequest hq h]
  split
  · exact trivial
  · exact (q.makesRows_countedStages owner).sink?_append rfl

/-! ### The same number of rows -/

/-- What counting leaves out does not change how many rows there are. -/
structure CountsAlike (q : QuerySpec) : Prop where
  joins : q.JoinsApart
  groups : ∀ g, q.assembler.effectiveGroup = some g → q.GroupsAlike g

/-- The first stages of a pipeline select what the criteria of the owner select. -/
theorem run_selection (c : Collections) (documents : List Document) :
    Pipeline.run c (owned owner ++ q.selecting) documents =
      (q.ownedCriteria owner).select documents := by
  have hselecting : ∀ rows, Pipeline.run c q.selecting rows = q.criteria.select rows := by
    intro rows
    rw [selecting]
    split
    · rw [Criteria.select_of_isEmpty ‹_›]
      rfl
    · exact Pipeline.run_singleton c _ rows
  rw [Pipeline.run_append]
  cases owner with
  | none => exact hselecting documents
  | some owner =>
      have howned : Pipeline.run c (owned (some owner)) documents =
          .ok (documents.filter (isOwned owner)) := by
        rw [← Criteria.select_owner]
        exact Pipeline.run_singleton c _ documents
      have hboth : (q.ownedCriteria (some owner)).select documents =
          q.criteria.select (documents.filter (isOwned owner)) :=
        Criteria.select_owner_and owner q.criteria documents
      rw [howned, hboth]
      exact hselecting _

theorem rowStages_eq (q : QuerySpec) (owner : Option String) :
    q.rowStages owner =
      (owned owner ++ q.selecting) ++ (q.sorting ++ (q.grouping .results ++ q.rowwise)) := by
  simp only [rowStages, rowwise, List.append_assoc]

theorem countedStages_eq (q : QuerySpec) (owner : Option String) :
    q.countedStages owner = (owned owner ++ q.selecting) ++
      (q.grouping .counting ++ (attaching q.unwoundJoins ++ q.unwinding)) := by
  simp only [countedStages, List.append_assoc]

/-- A query that is counted as it is read has as many rows as are counted. -/
theorem length_eq_of_run (hq : q.CountsAlike) {c : Collections}
    {documents rows counted : List Document}
    (hrows : Pipeline.run c (q.rowStages owner) documents = .ok rows)
    (hcounted : Pipeline.run c (q.countedStages owner) documents = .ok counted) :
    rows.length = counted.length := by
  rw [rowStages_eq, Pipeline.run_append] at hrows
  rw [countedStages_eq, Pipeline.run_append] at hcounted
  obtain ⟨base, hbase, hrows⟩ := Outcome.bind_eq_ok.mp hrows
  rw [hbase] at hcounted
  have hcounted : Pipeline.run c
      (q.grouping .counting ++ (attaching q.unwoundJoins ++ q.unwinding)) base = .ok counted :=
    hcounted
  rw [Pipeline.run_append] at hrows hcounted
  obtain ⟨sorted, hsorted, hrows⟩ := Outcome.bind_eq_ok.mp hrows
  rw [run_sorting] at hsorted
  have hperm : sorted.Perm base := Except.ok.inj hsorted ▸ perm_stableSort _ base
  have hunsorted : q.sort.isEmpty = true → sorted = base := fun hempty =>
    (Except.ok.inj hsorted).symm.trans (SortSpec.sort_of_isEmpty hempty base)
  rw [Pipeline.run_append] at hrows
  obtain ⟨grouped, hgrouped, hrows⟩ := Outcome.bind_eq_ok.mp hrows
  obtain ⟨groups, hgroups, hcounted⟩ := Outcome.bind_eq_ok.mp hcounted
  rw [run_rowwise] at hrows
  rw [run_countedRowwise] at hcounted
  rw [← Except.ok.inj hrows, ← Except.ok.inj hcounted]
  rw [grouping] at hgrouped hgroups
  cases heffective : q.assembler.effectiveGroup with
  | some g =>
      rw [heffective] at hgrouped hgroups
      exact length_groupRows c hq.joins (hq.groups g heffective) hperm hunsorted hgrouped hgroups
  | none =>
      rw [heffective] at hgrouped hgroups
      rw [← Except.ok.inj hgrouped, ← Except.ok.inj hgroups, (hperm.flatMap_right _).length_eq,
        List.length_flatMap, List.length_flatMap]
      simp only [length_rowsFrom c hq.joins fun _ _ => Document.LikeAt.refl _ _]

/-- Without groups and unwound joins the documents that are selected are counted. -/
theorem length_eq_of_countsDocuments (hq : q.CountsAlike) (h : q.countsDocuments = true)
    {c : Collections} {documents rows selected : List Document}
    (hrows : Pipeline.run c (q.rowStages owner) documents = .ok rows)
    (hselected : (q.ownedCriteria owner).select documents = .ok selected) :
    rows.length = selected.length := by
  rw [countsDocuments, Bool.and_eq_true, List.isEmpty_iff] at h
  have heffective : q.assembler.effectiveGroup = none :=
    effectiveGroup_of_not_isGrouped (by simpa using h.1)
  have hgrouping : q.grouping .counting = [] := by
    rw [grouping, heffective]
  have hcounted : Pipeline.run c (q.countedStages owner) documents =
      .ok (selected.flatMap (q.countedFrom c)) := by
    rw [countedStages_eq, Pipeline.run_append, run_selection, hselected, hgrouping]
    exact run_countedRowwise c selected
  have hsingle : ∀ row, (q.countedFrom c row).length = 1 := by
    intro row
    have houtputs : Join.outputsOf q.joins = [] := congrArg (List.map Join.output) h.2
    rw [countedFrom, houtputs]
    rfl
  rw [length_eq_of_run hq hrows hcounted, List.length_flatMap]
  simp [hsingle]

/-! ### The number that is reported -/

/-- The count of a pipeline has 32 bits, and is the number of rows as long as these are fewer than
two to the 31. -/
theorem count?_int32 (n : Nat) :
    ((Value.int32 (Int32.ofNat n)).count?).getD 0 = n ↔ n < 2 ^ 31 := by
  have hwrapped : (Int32.ofNat n).toInt =
      if (n : Int) % 4294967296 < 2147483648 then (n : Int) % 4294967296
      else (n : Int) % 4294967296 - 4294967296 := by
    rw [Int32.toInt_ofNat', Int.bmod_def]
    rfl
  rw [Value.count?, hwrapped]
  split_ifs <;> simp only [Option.getD_some, Option.getD_none] <;> omega

/-- A pipeline counts the rows that it would give, as far as 32 bits go. -/
theorem countOf_pipeline {name : String} {c : Collections} {p : Pipeline}
    {rows : List Document} (h : p.run c (c.rows name) = .ok rows) :
    countOf name c (.pipeline (p ++ [.count totalField])) =
      .ok (((Value.int32 (Int32.ofNat rows.length)).count?).getD 0) := by
  have hrun : Pipeline.run c (p ++ [.count totalField]) (c.rows name) =
      .ok (if rows.isEmpty then [] else [[(totalField, .int32 (Int32.ofNat rows.length))]]) := by
    rw [Pipeline.run_append, h]
    exact Pipeline.run_singleton c (.count totalField) rows
  rw [countOf, hrun]
  cases rows with
  | nil => rfl
  | cons row rest => rfl

/-- Documents are counted one by one. -/
theorem length_of_count (hq : q.CountsAlike) (h : q.countsDocuments = true) {name : String}
    {c : Collections} {rows : List Document} {total : Nat}
    (hrows : Pipeline.run c (q.rowStages owner) (c.rows name) = .ok rows)
    (hcount : countOf name c (.documents (q.ownedCriteria owner)) = .ok total) :
    total = rows.length := by
  have hstages := hrows
  rw [rowStages_eq, Pipeline.run_append, run_selection] at hstages
  obtain ⟨selected, hselected, _⟩ := Outcome.bind_eq_ok.mp hstages
  rw [length_eq_of_countsDocuments hq h hrows hselected]
  have hfound : c.count name (q.ownedCriteria owner) = .ok selected.length :=
    Collections.count_of_select hselected
  exact Except.ok.inj (hcount.symm.trans hfound)

/-- Other rows are counted by a stage, in 32 bits. -/
theorem total_of_count (hq : q.CountsAlike) {name : String} {c : Collections}
    {rows : List Document} {total : Nat}
    (hrows : Pipeline.run c (q.rowStages owner) (c.rows name) = .ok rows)
    (hcount : countOf name c (.pipeline (q.countedStages owner ++ [.count totalField])) =
      .ok total) :
    total = ((Value.int32 (Int32.ofNat rows.length)).count?).getD 0 := by
  have hrun : ∃ counted,
      Pipeline.run c (q.countedStages owner) (c.rows name) = .ok counted := by
    obtain ⟨_, hstages, _⟩ := Outcome.bind_eq_ok.mp hcount
    rw [Pipeline.run_append] at hstages
    obtain ⟨counted, hcounted, _⟩ := Outcome.bind_eq_ok.mp hstages
    exact ⟨counted, hcounted⟩
  obtain ⟨counted, hcounted⟩ := hrun
  rw [countOf_pipeline hcounted] at hcount
  rw [length_eq_of_run hq hrows hcounted]
  exact (Except.ok.inj hcount).symm

end QuerySpec

theorem PageCursor.readsOnly_of_isPlain {c : PageCursor} {owner : Option String}
    (hexact : c.view.options.exactCount = true) (hplain : c.spec.IsPlain) : c.ReadsOnly owner where
  exactCount := hexact
  rows := by
    intro request hrequest
    rw [PageCursor.request] at hrequest
    cases hmode : c.mode with
    | distinct field =>
        rw [hmode] at hrequest
        cases hrequest
    | find =>
        rw [hmode] at hrequest
        obtain ⟨compiled, hcompiled, heq⟩ := Outcome.bind_eq_ok.mp hrequest
        cases heq
        exact QuerySpec.isReadOnly_of_compile hplain hcompiled
    | run =>
        rw [hmode] at hrequest
        obtain ⟨compiled, hcompiled, heq⟩ := Outcome.bind_eq_ok.mp hrequest
        cases heq
        exact QuerySpec.isReadOnly_of_compile hplain hcompiled
  total := fun _ hrequest => QuerySpec.isReadOnly_of_countRequest hplain hrequest

namespace CollectionView

variable {v : CollectionView} {query : Query} {env : Environment} {w w' : World}
  {r : ResultPage} {owner : Option String}

/-- The total of a page that was read is what the request for the total finds. -/
theorem countOf_of_readFirst {mode : ReadMode} (hmode : mode = .find ∨ mode = .run)
    (hread : (v.readFirst mode query).run env w = (.ok r, w'))
    (hexact : v.options.exactCount = true) (hfresh : r.fromCache = false)
    (howner : v.context true >>= v.owner = .ok owner) (hplain : r.cursor.spec.IsPlain) :
    ∃ counted, r.cursor.spec.countRequest owner = .ok counted ∧
      countOf v.name w.collections counted = .ok r.total := by
  obtain ⟨context, spec, between, hcontext, _, hbetween, hresolve⟩ := resolveIn_of_readFirst hread
  obtain ⟨_, hsame, howner⟩ := Outcome.bind_eq_ok.mp howner
  rw [hcontext] at hsame
  rw [← Except.ok.inj hsame] at howner
  have hcursor := PageCursor.cursor_of_resolveIn hresolve
  rw [hcursor] at hplain
  have hreads : (PageCursor.first v spec mode).ReadsOnly owner :=
    PageCursor.readsOnly_of_isPlain hexact hplain
  obtain ⟨snapshot, hsnapshot, htotal⟩ :=
    PageCursor.heldSnapshot_of_resolveIn howner hreads.isReadable hfresh hresolve
  rw [hcursor, ← htotal, ← hbetween]
  exact PageCursor.countOf_of_heldSnapshot hmode hsnapshot

/-- The total is the number of all rows if counting leaves out nothing that matters, as far as
that number is not found by a stage that counts in 32 bits. -/
theorem total_eq_length_iff {p : Pipeline} {rows : List Document}
    (hread : (v.find query).run env w = (.ok r, w') ∨ (v.run query).run env w = (.ok r, w'))
    (hexact : v.options.exactCount = true) (hfresh : r.fromCache = false)
    (howner : v.context true >>= v.owner = .ok owner) (hplain : r.cursor.spec.IsPlain)
    (hcounts : r.cursor.spec.CountsAlike)
    (hp : r.cursor.spec.compile r.cursor.page owner true = .ok (.aggregate p))
    (hrows : p.unpaged.run w.collections (w.collections.rows v.name) = .ok rows) :
    r.total = rows.length ↔ r.cursor.spec.countsDocuments = true ∨ rows.length < 2 ^ 31 := by
  have hfound : ∃ counted, r.cursor.spec.countRequest owner = .ok counted ∧
      countOf v.name w.collections counted = .ok r.total := by
    rcases hread with hread | hread
    · exact countOf_of_readFirst (Or.inl rfl) hread hexact hfresh howner hplain
    · exact countOf_of_readFirst (Or.inr rfl) hread hexact hfresh howner hplain
  obtain ⟨counted, hcounted, hcount⟩ := hfound
  rw [QuerySpec.unpaged_of_compile hplain hp] at hrows
  rw [QuerySpec.eq_of_countRequest hplain hcounted] at hcount
  by_cases hdocuments : r.cursor.spec.countsDocuments = true
  · rw [if_pos hdocuments] at hcount
    have hlength := QuerySpec.length_of_count hcounts hdocuments hrows hcount
    exact ⟨fun _ => Or.inl hdocuments, fun _ => hlength⟩
  · rw [if_neg hdocuments] at hcount
    rw [QuerySpec.total_of_count hcounts hrows hcount, QuerySpec.count?_int32]
    exact ⟨Or.inr, fun h => h.resolve_left hdocuments⟩

end CollectionView

/-! ### Totals of small collections -/

namespace TotalExample

def view : CollectionView := (Store.basic 0).collection "notes"

def environment : Environment :=
  { date := 0
    moment := 0
    fresh := fun _ => ""
    access := fun _ _ => .ok () }

def world (notes others : List Document) : World :=
  { collections := [("notes", notes), ("others", others)]
    registries := fun _ => .ofConfig .default 0
    drawn := 0
    events := [] }

/-- One row for each tag, with the author beside it and the number of authors. -/
def tagged : Query :=
  Query.empty.calls
    [.attach { Join.on "author" "others" with countField := some "authors" },
      .attach { Join.on "tag" "others" with unwound := true }]

def note : Document :=
  [("_id", .int32 1), ("author", .string "a"), ("tag", .array [.string "a", .string "b"])]

def others : List Document :=
  [[("_id", .string "a")], [("_id", .string "b")]]

def spec : QuerySpec := tagged.spec .empty

def rows : List Document :=
  ["a", "b"].map fun tag =>
    [("_id", .int32 1), ("author", .array [.document [("_id", .string "a")]]),
      ("tag", .document [("_id", .string tag)]), ("authors", .int32 0)]

def page : ResultPage :=
  { items := rows.map Value.document
    total := 2
    fromCache := false
    cursor := PageCursor.first view spec .find }

theorem run_find_tagged : ∃ w', (view.find tagged).run environment (world [note] others) =
    (.ok page, w') :=
  ⟨_, rfl⟩

theorem run_rows : Pipeline.run (world [note] others).collections (spec.rowStages none) [note] =
    .ok rows := rfl

theorem countsAlike : spec.CountsAlike where
  joins := by decide
  groups := fun _ h => nomatch h

end TotalExample

open TotalExample in
theorem CollectionView.total_of_tagged_note :
    ∃ w', (view.find tagged).run environment (world [note] others) = (.ok page, w') ∧
      (page.total = rows.length ↔ spec.countsDocuments = true ∨ rows.length < 2 ^ 31) := by
  obtain ⟨w', hrun⟩ := run_find_tagged
  have hplain : spec.IsPlain := ⟨rfl, rfl, rfl⟩
  have hp : spec.compile page.cursor.page none true = .ok (.aggregate
    (spec.rowStages none ++ [.limit 50])) := rfl
  refine ⟨w', hrun, ?_⟩
  exact CollectionView.total_eq_length_iff (Or.inl hrun) rfl rfl rfl hplain countsAlike hp run_rows

namespace TotalExample

def totals (read : Action ResultPage) (w : World) : Option (Nat × Nat) :=
  match (read.run environment w).1 with
  | .ok r =>
    match r.cursor.spec.compile r.cursor.page none true with
    | .ok (.aggregate p) =>
      match p.unpaged.run w.collections (w.collections.rows view.name) with
      | .ok rows => some (r.total, rows.length)
      | .error _ => none
    | _ => none
  | .error _ => none

/-- A join writes over the references of another one. -/
def overwritten : Query :=
  Query.empty.calls
    [.attach { Join.on "x" "others" with output := "y" },
      .attach { Join.on "y" "others" with foreign := "key", output := "z", unwound := true }]

/-- The number of references stands where they were. -/
def measured : Query :=
  Query.empty.calls
    [.attach { Join.on "y" "others" with
      foreign := "key", output := "z", countField := some "y", unwound := true }]

/-- Of incomparable values the first one is the largest. -/
def reordered : Query :=
  Query.empty.calls
    [.order "_id" .descending, .count, .calculate .max "y" "m",
      .having (Filter.empty.calls [.among .oneOf "m" (.array [.int32 2])])]

/-- The first row of a group is there while groups are sorted only. -/
def firstless : Query :=
  Query.empty.calls
    [.groupBy ["y"], .order "x" .ascending, .having (Filter.empty.calls [.isEmpty "_first"])]

end TotalExample

open TotalExample in
/-- None of the conditions can be dropped. -/
theorem CollectionView.total_ne_length :
    totals (view.find overwritten)
        (world [[("_id", .int32 1), ("x", .string "p"), ("y", .string "k")]]
          [[("_id", .int32 1), ("key", .string "k")], [("_id", .int32 2), ("key", .string "k")]]) =
      some (2, 1) ∧
    totals (view.find measured)
        (world [[("_id", .int32 1), ("y", .string "k")]]
          [[("_id", .int32 1), ("key", .string "k")], [("_id", .int32 2), ("key", .string "k")]]) =
      some (2, 1) ∧
    totals (view.run reordered)
        (world [[("_id", .int32 1), ("y", .array [.int32 1])],
          [("_id", .int32 2), ("y", .array [.int32 2])]] []) = some (0, 1) ∧
    totals (view.run firstless)
        (world [[("_id", .int32 1), ("y", .int32 1)], [("_id", .int32 2), ("y", .int32 2)]] []) =
      some (2, 0) := by
  decide +kernel

end DocumentBase
