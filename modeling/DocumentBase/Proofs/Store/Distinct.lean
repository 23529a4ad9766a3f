import DocumentBase.Proofs.Distinct
import DocumentBase.Proofs.Query.Totals

/-!
# Counting distinct values

The number of distinct values of a field can be asked for in two ways: as the total of a page of
these values, or on its own, where documents are grouped by the field and the groups are counted.
The two numbers agree where no array is met, but for the group of documents without the field.
-/

namespace DocumentBase

open DocumentBase.Action

/-! ### Values that documents have -/

namespace Collections

variable {stored : Collections} {name field : String} {criteria : Criteria}

theorem distinct_of_select {matched : List Document} (field : String)
    (h : criteria.select (stored.rows name) = .ok matched) :
    stored.distinct name field criteria =
      .ok (distinctOf (matched.flatMap (fieldValues field))) := by
  rw [distinct]
  rw [rows] at h
  cases hthere : stored.rows? name with
  | none =>
      rw [hthere] at h
      obtain ⟨p, _, hmatched⟩ := Criteria.eq_filter_of_select h
      rw [hmatched]
      rfl
  | some documents =>
      rw [hthere] at h
      have hselect : criteria.select documents = .ok matched := h
      simp only [hselect]
      rfl

/-- A missing collection has no values, whatever the criteria are. -/
theorem exists_select_of_distinct {values : List Value}
    (hlegible : criteria.select [] = .ok [] ∨ (stored.rows? name).isSome = true)
    (h : stored.distinct name field criteria = .ok values) :
    ∃ matched, criteria.select (stored.rows name) = .ok matched := by
  rw [distinct] at h
  rw [rows]
  cases hthere : stored.rows? name with
  | none =>
      rw [hthere] at hlegible
      exact ⟨[], hlegible.resolve_right Bool.false_ne_true⟩
  | some documents =>
      rw [hthere] at h
      obtain ⟨matched, hmatched, _⟩ := Outcome.bind_eq_ok.mp h
      exact ⟨matched, hmatched⟩

end Collections

/-! ### Groups that are counted -/

namespace QuerySpec

variable {q : QuerySpec} {field : String} {owner : Option String} {p : Pipeline}

/-- Distinct values are counted by grouping by the field and counting the groups. -/
theorem distinctCountPipeline_eq_ok_iff :
    q.distinctCountPipeline field owner = .ok p ↔ checkField field = .ok () ∧
      p = owned owner ++ q.selecting ++ [.group (GroupSpec.ofKey (.single field)),
        .group ((GroupSpec.ofKey .all).upsert "count" .count)] := by
  have hselection : (q.selectionStages owner).map Prod.snd = owned owner ++ q.selecting := by
    rw [selectionStages, owned, selecting, List.map_append]
    congr 1
    · cases owner <;> rfl
    · split <;> rfl
  rw [distinctCountPipeline, Outcome.bind_eq_ok, hselection]
  simp only [Outcome.pure_eq_ok, eq_comm (b := p)]
  constructor
  · rintro ⟨_, hfield, hp⟩
    exact ⟨hfield, hp⟩
  · rintro ⟨hfield, hp⟩
    exact ⟨_, hfield, hp⟩

/-- The number in the row that a pipeline counted into. -/
def countIn (rows : List Document) : Nat :=
  ((rows.head?.bind fun row => row.value? "count").bind Value.count?).getD 0

theorem count?_of_integer? {v : Value} {n : Nat} (h : v.integer? = some (n : Int)) :
    v.count? = some n := by
  cases v <;> simp [Value.integer?] at h <;> simp [Value.count?, h]

theorem count?_narrow {n : Nat} (h : n < 2 ^ 63) :
    (Accumulator.narrow n).count? = some n := by
  have hfits : fits64 n = true := by
    simp only [fits64, Bool.and_eq_true, decide_eq_true_eq]
    omega
  exact count?_of_integer? (Accumulator.integer?_narrow hfits)

theorem countIn_run_count {rows : List Document} (hfew : rows.length < 2 ^ 63) :
    countIn (((GroupSpec.ofKey .all).upsert "count" .count).run rows) = rows.length := by
  have hrow : (((GroupSpec.ofKey .all).upsert "count" .count).summary .null rows).value? "count" =
      some (Accumulator.narrow rows.length) := rfl
  rw [GroupSpec.run, GroupSpec.groups_all rfl, countIn]
  by_cases hempty : rows = []
  · subst hempty
    rfl
  · rw [if_neg (by simpa using hempty), List.map_singleton, List.head?_cons, Option.bind_some,
      hrow, Option.bind_some, count?_narrow hfew, Option.getD_some]

/-- One group for each value is made, and these groups are counted. -/
theorem countIn_of_run_distinctCount {c : Collections} {documents matched rows : List Document}
    (hp : q.distinctCountPipeline field owner = .ok p)
    (hmatched : (q.ownedCriteria owner).select documents = .ok matched)
    (hfew : matched.length < 2 ^ 63) (hrun : p.run c documents = .ok rows) :
    countIn rows =
      (Collections.distinctOf (matched.map (GroupKey.single field).ofRow)).length := by
  obtain ⟨-, rfl⟩ := distinctCountPipeline_eq_ok_iff.mp hp
  rw [Pipeline.run_append, run_selection, hmatched] at hrun
  have hrows : ((GroupSpec.ofKey .all).upsert "count" .count).run
      ((GroupSpec.ofKey (.single field)).run matched) = rows := Except.ok.inj hrun
  have hgroups : ((GroupSpec.ofKey (.single field)).run matched).length =
      (Collections.distinctOf (matched.map (GroupKey.single field).ofRow)).length := by
    rw [GroupSpec.run, List.length_map, ← List.length_map (f := Prod.fst), GroupSpec.keys_groups]
    rfl
  have hle := Collections.length_distinctOf_le (matched.map (GroupKey.single field).ofRow)
  rw [List.length_map, ← hgroups] at hle
  rw [← hrows, countIn_run_count (Nat.lt_of_le_of_lt hle hfew), hgroups]

theorem exists_run_distinctCount_iff {c : Collections} {documents : List Document}
    (hp : q.distinctCountPipeline field owner = .ok p) :
    (∃ rows, p.run c documents = .ok rows) ↔
      ∃ matched, (q.ownedCriteria owner).select documents = .ok matched := by
  obtain ⟨-, rfl⟩ := distinctCountPipeline_eq_ok_iff.mp hp
  rw [Pipeline.run_append, run_selection]
  cases (q.ownedCriteria owner).select documents with
  | error e => exact ⟨nofun, nofun⟩
  | ok matched => exact ⟨fun _ => ⟨_, rfl⟩, fun _ => ⟨_, rfl⟩⟩

theorem sink?_of_distinctCountPipeline (hp : q.distinctCountPipeline field owner = .ok p) :
    p.sink? = none := by
  obtain ⟨-, rfl⟩ := distinctCountPipeline_eq_ok_iff.mp hp
  exact ((makesRows_owned owner).append (makesRows_selecting q)).sink?_append rfl

end QuerySpec

theorem Criteria.length_le_of_select {criteria : Criteria} {documents matched : List Document}
    (h : criteria.select documents = .ok matched) : matched.length ≤ documents.length := by
  obtain ⟨p, -, rfl⟩ := eq_filter_of_select h
  exact List.length_filter_le p.accepts documents

/-! ### Both ways of counting -/

namespace CollectionView

variable {v : CollectionView} {query : Query} {field : String} {env : Environment} {w : World}

/-- The documents that a query selects for whoever reads. -/
def matching (v : CollectionView) (query : Query) (stored : Collections) :
    Outcome (List Document) := do
  let context ← v.context true
  let spec ← query.build
  let owner ← v.owner context
  (spec.ownedCriteria owner).select (stored.rows v.name)

/-- The documents that a call is about are those that its criteria and its owner select. -/
theorem matching_eq_ok_iff {stored : Collections} {matched : List Document} :
    v.matching query stored = .ok matched ↔
      ∃ context, v.context true = .ok context ∧ ∃ spec, query.build = .ok spec ∧
        ∃ owner, v.owner context = .ok owner ∧
          (spec.ownedCriteria owner).select (stored.rows v.name) = .ok matched := by
  simp only [matching, Outcome.bind_eq_ok]

theorem reads_counted (n : Nat) (context : HookContext) :
    Reads env (v.counted n context) fun _ => (v.answer .count (.count n) context).asCount :=
  (v.tells_after env .count (.count n) context).reads.bind fun result => reads_lift result.asCount

theorem reads_countDistinct (hhooks : v.Unhooked) :
    Reads env (v.countDistinct query field) fun stored => do
      let context ← v.context true
      let spec ← query.build
      let owner ← v.owner context
      let pipeline ← spec.distinctCountPipeline field owner
      let rows ← (env.access v.name v.acquireOptions >>= fun _ =>
        pipeline.run stored (stored.rows v.name)).mapError
          (·.inOperation Operation.count.name v.name)
      return QuerySpec.countIn rows := by
  apply (tells_lift env (v.context true)).reads_bind
  intro context _
  rw [← prepared_of_no_hooks hhooks .count context]
  apply (tells_prepare .count query).reads_bind
  intro spec _
  apply (tells_lift env (v.owner context)).reads_bind
  intro owner _
  apply (tells_lift env (spec.distinctCountPipeline field owner)).reads_bind
  intro pipeline hpipeline
  have hrows : Reads env (Action.change fun c => c.aggregate v.name pipeline) fun c =>
      pipeline.run c (c.rows v.name) :=
    reads_aggregate (QuerySpec.sink?_of_distinctCountPipeline hpipeline)
  apply (hrows.holding v .count).bind
  intro rows
  apply (reads_counted (QuerySpec.countIn rows) context).congr
  intro stored
  rw [answer_of_no_hooks hhooks]
  rfl

/-- A count of distinct values that succeeds has found the documents and counted their keys. -/
theorem countDistinct_eq_ok_iff (hhooks : v.Unhooked)
    (hfew : (w.collections.rows v.name).length < 2 ^ 63) {n : Nat} :
    (∃ w', (v.countDistinct query field).run env w = (.ok n, w')) ↔
      checkField field = .ok () ∧ env.access v.name v.acquireOptions = .ok () ∧
        ∃ matched, v.matching query w.collections = .ok matched ∧
          n = (Collections.distinctOf (matched.map (GroupKey.single field).ofRow)).length := by
  rw [(reads_countDistinct hhooks).exists_ok_iff]
  simp only [Outcome.bind_eq_ok, Outcome.mapError_eq_ok, Outcome.pure_eq_ok, matching_eq_ok_iff]
  constructor
  · rintro ⟨context, hcontext, spec, hspec, owner, howner, pipeline, hpipeline, rows,
      ⟨_, haccess, hrows⟩, rfl⟩
    obtain ⟨matched, hmatched⟩ :=
      (QuerySpec.exists_run_distinctCount_iff hpipeline).mp ⟨rows, hrows⟩
    refine ⟨(QuerySpec.distinctCountPipeline_eq_ok_iff.mp hpipeline).1, haccess, matched,
      ⟨context, hcontext, spec, hspec, owner, howner, hmatched⟩, ?_⟩
    exact QuerySpec.countIn_of_run_distinctCount hpipeline hmatched
      (Nat.lt_of_le_of_lt (Criteria.length_le_of_select hmatched) hfew) hrows
  · rintro ⟨hfield, haccess, matched, ⟨context, hcontext, spec, hspec, owner, howner, hmatched⟩,
      rfl⟩
    have hpipeline : spec.distinctCountPipeline field owner = .ok _ :=
      QuerySpec.distinctCountPipeline_eq_ok_iff.mpr ⟨hfield, rfl⟩
    obtain ⟨rows, hrows⟩ :=
      (QuerySpec.exists_run_distinctCount_iff hpipeline).mpr ⟨matched, hmatched⟩
    refine ⟨context, hcontext, spec, hspec, owner, howner, _, hpipeline, rows,
      ⟨_, haccess, hrows⟩, ?_⟩
    exact QuerySpec.countIn_of_run_distinctCount hpipeline hmatched
      (Nat.lt_of_le_of_lt (Criteria.length_le_of_select hmatched) hfew) hrows

theorem isReadable_of_distinct {c : PageCursor} {owner : Option String}
    (hmode : c.mode = .distinct field) : c.IsReadable env owner := by
  intro request hrequest
  rw [PageCursor.request, hmode] at hrequest
  cases hrequest
  exact (reads_read fun stored => stored.distinct c.view.name field _).bind fun _ => reads_pure _

theorem select_nil_ownedCriteria {q : QuerySpec} {owner : Option String} {p : Predicate}
    (hp : q.criteria.predicate = .ok p) : (q.ownedCriteria owner).select [] = .ok [] := by
  have hselect : q.criteria.select [] = .ok [] := by
    rw [Criteria.select, hp]
    rfl
  cases owner with
  | none => exact hselect
  | some owner => exact (Criteria.select_owner_and owner q.criteria []).trans hselect

/-- The total of a page of distinct values that was read is the number of the values that the
documents have. -/
theorem total_of_distinct (hhooks : v.Unhooked)
    (hlegible : ∀ spec, query.build = .ok spec →
      (∃ p, spec.criteria.predicate = .ok p) ∨ (w.collections.rows? v.name).isSome = true)
    {page : ResultPage} {w' : World}
    (h : (v.distinct query field).run env w = (.ok page, w')) (hfresh : page.fromCache = false) :
    checkField field = .ok () ∧ env.access v.name v.acquireOptions = .ok () ∧
      ∃ matched, v.matching query w.collections = .ok matched ∧
        page.total =
          (Collections.distinctOf (matched.flatMap (Collections.fieldValues field))).length := by
  obtain ⟨_, begun, hchecked, hread⟩ := run_bind_eq_ok h
  obtain ⟨hfield, hbegun⟩ := run_lift_eq_ok hchecked
  obtain ⟨context, spec, between, hcontext, hspec, hbetween, hresolve⟩ :=
    resolveIn_of_readFirst hread
  rw [prepared_of_no_hooks hhooks] at hspec
  obtain ⟨owner, howner⟩ := PageCursor.exists_owner_of_resolveIn hresolve
  obtain ⟨snapshot, hsnapshot, htotal⟩ := PageCursor.heldSnapshot_of_resolveIn howner
    (isReadable_of_distinct rfl) hfresh hresolve
  rw [hbetween, hbegun] at hsnapshot
  obtain ⟨_, hrequest, hheld⟩ := Outcome.bind_eq_ok.mp hsnapshot
  cases hrequest
  obtain ⟨_, haccess, hvalues⟩ := Outcome.bind_eq_ok.mp (Outcome.mapError_eq_ok.mp hheld)
  obtain ⟨values, hdistinct, hpage⟩ := Outcome.bind_eq_ok.mp hvalues
  cases hpage
  have hselect : (spec.ownedCriteria owner).select [] = .ok [] ∨
      (w.collections.rows? v.name).isSome = true :=
    (hlegible spec hspec).imp_left fun ⟨_, hp⟩ => select_nil_ownedCriteria hp
  obtain ⟨matched, hmatched⟩ := Collections.exists_select_of_distinct hselect hdistinct
  refine ⟨hfield, haccess, matched,
    matching_eq_ok_iff.mpr ⟨context, hcontext, spec, hspec, owner, howner, hmatched⟩, ?_⟩
  have hfound := Collections.distinct_of_select field hmatched
  rw [← htotal, Except.ok.inj (hdistinct.symm.trans hfound)]

/-- Distinct values that can be read are found. -/
theorem exists_distinct (hhooks : v.Unhooked) (hfield : checkField field = .ok ())
    (haccess : env.access v.name v.acquireOptions = .ok ()) {matched : List Document}
    (hmatched : v.matching query w.collections = .ok matched) :
    ∃ page w', (v.distinct query field).run env w = (.ok page, w') := by
  obtain ⟨context, hcontext, spec, hspec, owner, howner, hmatched⟩ :=
    matching_eq_ok_iff.mp hmatched
  have hfound := Collections.distinct_of_select field hmatched
  have hprepare : Tells env (v.prepare .distinct query context) (.ok spec) := by
    rw [← hspec, ← prepared_of_no_hooks hhooks .distinct context]
    exact tells_prepare .distinct query
  obtain ⟨events, hprepare⟩ := hprepare w
  have hheld : ∃ snapshot, (PageCursor.first v spec (.distinct field)).heldSnapshot env owner
      w.collections = .ok snapshot := by
    refine ⟨_, Outcome.bind_eq_ok.mpr ⟨_, rfl, Outcome.mapError_eq_ok.mpr
      (Outcome.bind_eq_ok.mpr ⟨_, haccess, Outcome.bind_eq_ok.mpr ⟨_, hfound, rfl⟩⟩)⟩⟩
  obtain ⟨snapshot, hsnapshot⟩ := hheld
  obtain ⟨page, w', hresolve⟩ := PageCursor.exists_resolveIn (w := { w with events }) howner
    (isReadable_of_distinct rfl) hhooks hsnapshot
  refine ⟨page, w', ?_⟩
  exact (run_lift_bind_of_ok hfield).trans ((run_lift_bind_of_ok hcontext).trans
    ((run_bind_of_ok hprepare).trans hresolve))

/-- Distinct values are counted as they are found where no array is met, but documents without
the field count as one value more, unless there is null among the values. -/
theorem countDistinct_eq_total (hhooks : v.Unhooked)
    (hlegible : ∀ spec, query.build = .ok spec →
      (∃ p, spec.criteria.predicate = .ok p) ∨ (w.collections.rows? v.name).isSome = true)
    (hfew : (w.collections.rows v.name).length < 2 ^ 63)
    (hflat : ∀ matched, v.matching query w.collections = .ok matched →
      ∀ d ∈ matched, d.meetsArray field = false) :
    (∀ page w', (v.distinct query field).run env w = (.ok page, w') → page.fromCache = false →
      ∃ matched w'', v.matching query w.collections = .ok matched ∧
        (v.countDistinct query field).run env w =
          (.ok (page.total + (Collections.lacksOnly (matched.map (·.at? field))).toNat), w'')) ∧
    (∀ n w', (v.countDistinct query field).run env w = (.ok n, w') →
      ∃ page w'', (v.distinct query field).run env w = (.ok page, w'')) := by
  constructor
  · intro page w' hread hfresh
    obtain ⟨hfield, haccess, matched, hmatched, htotal⟩ :=
      total_of_distinct hhooks hlegible hread hfresh
    obtain ⟨w'', hcount⟩ := (countDistinct_eq_ok_iff hhooks hfew).mpr
      ⟨hfield, haccess, matched, hmatched, rfl⟩
    refine ⟨matched, w'', hmatched, ?_⟩
    rw [hcount, Collections.length_keys (hflat matched hmatched), htotal]
  · intro n w' hcount
    obtain ⟨hfield, haccess, matched, hmatched, -⟩ :=
      (countDistinct_eq_ok_iff hhooks hfew).mp ⟨w', hcount⟩
    exact exists_distinct hhooks hfield haccess hmatched

end CollectionView

namespace DistinctExample

open TotalExample (view environment world)

def query : Query :=
  Query.empty.calls [.narrow (.compare .eq "open" (.bool true))]

def orders : List Document :=
  [[("_id", .int32 1), ("open", .bool true), ("price", .int32 5)],
    [("_id", .int32 2), ("open", .bool true)],
    [("_id", .int32 3), ("open", .bool false), ("price", .int32 7)],
    [("_id", .int32 4), ("open", .bool true), ("price", .int64 5)]]

theorem matching_orders : view.matching query (world orders []).collections =
    .ok [[("_id", .int32 1), ("open", .bool true), ("price", .int32 5)],
      [("_id", .int32 2), ("open", .bool true)],
      [("_id", .int32 4), ("open", .bool true), ("price", .int64 5)]] := rfl

end DistinctExample

open TotalExample DistinctExample in
/-- One price, and an order without a price. -/
theorem CollectionView.countDistinct_of_order_without_price :
    ∃ page w' w'',
      (view.distinct query "price").run environment (world orders []) = (.ok page, w') ∧
      page.fromCache = false ∧
      (view.countDistinct query "price").run environment (world orders []) =
        (.ok (page.total + 1), w'') := by
  have hread : ∃ page w',
      (view.distinct query "price").run environment (world orders []) = (.ok page, w') ∧
        page.fromCache = false := ⟨_, _, rfl, rfl⟩
  obtain ⟨page, w', hread, hfresh⟩ := hread
  have hflat : ∀ matched, view.matching query (world orders []).collections = .ok matched →
      ∀ d ∈ matched, d.meetsArray "price" = false := by
    intro matched hmatched
    rw [← Except.ok.inj (matching_orders.symm.trans hmatched)]
    decide +kernel
  obtain ⟨hcount, -⟩ := CollectionView.countDistinct_eq_total (Or.inr rfl)
    (fun _ _ => Or.inr rfl) (by decide) hflat
  obtain ⟨matched, w'', hmatched, hrun⟩ := hcount page w' hread hfresh
  rw [← Except.ok.inj (matching_orders.symm.trans hmatched)] at hrun
  exact ⟨page, w', w'', hread, hfresh, hrun⟩

namespace DistinctExample

open TotalExample (view environment world)

/-- The number of distinct values of a field, and the total of the page of these values. -/
def counts (field : String) (documents : List Document) : Option (Nat × Nat) :=
  match ((view.countDistinct .empty field).run environment (world documents [])).1,
    ((view.distinct .empty field).run environment (world documents [])).1 with
  | .ok n, .ok page => some (n, page.total)
  | _, _ => none

end DistinctExample

open DistinctExample in
/-- An array is one value or several ones; a field that is not there is one value or none. -/
theorem CollectionView.countDistinct_ne_total :
    counts "x" [[("_id", .int32 1), ("x", .array [.int32 1, .int32 2])]] = some (1, 2) ∧
    counts "x" [[("_id", .int32 1)], [("_id", .int32 2), ("x", .int32 1)]] = some (2, 1) := by
  decide +kernel

end DocumentBase
