import DocumentBase.Proofs.Query.GroupRows
import DocumentBase.Proofs.Store.Pages

/-!
# Requests that are performed

A read of rows that is not answered from the cache performs one request on its collection.  What
the request makes of the collections is what the read makes of them, as long as the number of rows
is found without writing, and the rows of the request are the items that the hook after the
operation sees.
-/

namespace DocumentBase

open DocumentBase.Action

/-- The rows of a request, and the collections afterwards. -/
def Request.perform (name : String) (stored : Collections) :
    Request → Outcome (List Document × Collections)
  | .find request => do return (← stored.find name request, stored)
  | .aggregate pipeline => stored.aggregate name pipeline

/-- A pipeline that writes leaves no rows to be shown. -/
theorem Collections.aggregate_eq_ok {stored after : Collections} {name : String} {p : Pipeline}
    {rows : List Document} (h : stored.aggregate name p = .ok (rows, after)) :
    ∃ made, p.run stored (stored.rows name) = .ok made ∧
      (rows, after) = match p.sink? with
        | some sink => ([], sink.apply stored made)
        | none => (made, stored) := by
  obtain ⟨made, hmade, h⟩ := Outcome.bind_eq_ok.mp h
  refine ⟨made, hmade, ?_⟩
  cases hsink : p.sink? with
  | none =>
      rw [hsink] at h
      exact (Outcome.pure_eq_ok.mp h).symm
  | some sink =>
      rw [hsink] at h
      exact (Outcome.pure_eq_ok.mp h).symm

/-! ### Pages of queries without further stages -/

/-- A pipeline without the stages that end a page. -/
def Pipeline.unlimited (p : Pipeline) : Pipeline :=
  p.filter fun stage =>
    match stage with
    | .limit _ => false
    | _ => true

theorem Pipeline.MakesRows.unlimited_eq {p : Pipeline} (hp : p.MakesRows) : p.unlimited = p := by
  apply List.filter_eq_self.mpr
  intro stage hstage
  have hmakes := hp stage hstage
  cases stage <;> first | rfl | cases hmakes

namespace QuerySpec

variable {q : QuerySpec} {page : Page} {owner : Option String} {force : Bool} {p : Pipeline}
  (hextra : q.assembler.extra = []) (h : q.compile page owner force = .ok (.aggregate p))
include hextra h

theorem eq_page_of_compile :
    p = q.rowStages owner ++ (skipping page ++ [.limit page.size]) ++
      (q.replacing ++ q.merging) := by
  rw [q.assembler.eq_arrange_of_assemble (assemble_of_compile h), arrange_page_of_extra hextra]

/-- Rows are merged rather than put in the place of a collection. -/
theorem sink?_of_compile :
    p.sink? = (q.merge.map Sink.merge).or (q.out.map Sink.replace) := by
  have hrows : (q.rowStages owner ++ (skipping page ++ [Stage.limit page.size])).filterMap
      Stage.sink? = [] := by
    rw [List.filterMap_append, List.append_eq_nil_iff]
    refine ⟨List.filterMap_eq_nil_iff.mpr fun stage hstage => ?_, ?_⟩
    · have hmakes := q.makesRows_rowStages owner stage hstage
      cases stage <;> first | rfl | cases hmakes
    · rw [skipping]
      split <;> rfl
  rw [eq_page_of_compile hextra h, Pipeline.sink?, List.filterMap_append, hrows, replacing, merging]
  cases q.out <;> cases q.merge <;> rfl

/-- A page is the beginning of all rows behind those that are skipped. -/
theorem run_page_eq_ok {stored : Collections} {documents rows : List Document}
    (hrun : p.run stored documents = .ok rows) :
    ∃ made, Pipeline.run stored (q.rowStages owner) documents = .ok made ∧
      p.unlimited.run stored documents = .ok (made.drop page.offset) ∧
      rows = (made.drop page.offset).take page.size := by
  have hunlimited : p.unlimited =
      q.rowStages owner ++ (skipping page ++ (q.replacing ++ q.merging)) := by
    have hrows : (q.rowStages owner).unlimited = q.rowStages owner :=
      (q.makesRows_rowStages owner).unlimited_eq
    have hrest : ((skipping page ++ [Stage.limit page.size]) ++ (q.replacing ++ q.merging) :
        Pipeline).unlimited = skipping page ++ (q.replacing ++ q.merging) := by
      rw [skipping, replacing, merging]
      split <;> cases q.out <;> cases q.merge <;> rfl
    rw [eq_page_of_compile hextra h, List.append_assoc]
    rw [Pipeline.unlimited] at hrows hrest ⊢
    rw [List.filter_append, hrows, hrest]
  rw [eq_page_of_compile hextra h, List.append_assoc, Pipeline.run_append] at hrun
  obtain ⟨made, hmade, hrun⟩ := Outcome.bind_eq_ok.mp hrun
  rw [Pipeline.run_append, run_skipping] at hrun
  refine ⟨made, hmade, ?_, ?_⟩
  · rw [hunlimited, Pipeline.run_append, hmade]
    change Pipeline.run stored (skipping page ++ (q.replacing ++ q.merging)) made = _
    rw [Pipeline.run_append, run_skip]
    exact run_targets stored _
  · exact (Except.ok.inj (hrun.symm.trans (run_targets stored _)))

end QuerySpec

/-! ### Reads that perform a request -/

theorem run_change_eq_ok {α : Type} {env : Environment} {w w' : World} {result : α}
    {f : Collections → Outcome (α × Collections)}
    (h : (change f).run env w = (.ok result, w')) :
    f w.collections = .ok (result, w'.collections) := by
  simp only [run, change] at h
  split at h
  · rename_i heq
    cases h
    exact heq
  · cases h

/-- What is done while a collection is held is done between two steps that leave it alone. -/
theorem CollectionView.exists_run_of_holding {α : Type} {v : CollectionView}
    {operation : Operation} {a : Action α} {env : Environment} {w w' : World} {result : α}
    (h : (v.holding operation a).run env w = (.ok result, w')) :
    ∃ begun held, begun.collections = w.collections ∧ a.run env begun = (.ok result, held) ∧
      w'.collections = held.collections := by
  rcases v.run_holding operation a env w with ⟨e, events, -, hrun⟩ | ⟨before, later, -, hrun⟩
  · rw [hrun] at h
    cases h
  · obtain ⟨hresult, rfl⟩ := Prod.mk.inj (hrun.symm.trans h)
    exact ⟨{ w with events := before }, _, rfl, Prod.ext (Outcome.mapError_eq_ok.mp hresult) rfl,
      rfl⟩

namespace PageCursor

variable {c : PageCursor} {env : Environment} {context : HookContext} {owner : Option String}
  {w w' : World}

/-- Counting all rows changes nothing. -/
theorem eq_of_counting {rows : List Document} {snapshot : Snapshot}
    (htotal : ∀ counted, c.spec.countRequest owner = .ok counted → counted.IsReadOnly)
    (h : Action.run (do
        let total ← countRows c.view.name c.view.options.exactCount (← c.spec.countRequest owner)
        return (⟨rows.map Value.document, total⟩ : Snapshot)) env w = (.ok snapshot, w')) :
    w'.collections = w.collections ∧ snapshot.items = rows.map Value.document := by
  obtain ⟨counted, counting, hlift, h⟩ := run_bind_eq_ok h
  obtain ⟨hcounted, hcounting⟩ := run_lift_eq_ok hlift
  obtain ⟨total, after, hcount, h⟩ := run_bind_eq_ok h
  cases h
  have hreads : Reads env (countRows c.view.name c.view.options.exactCount counted) fun stored =>
      countOf c.view.name stored (counted.counted c.view.options.exactCount) :=
    reads_countRows (htotal counted hcounted) _
  obtain ⟨events, hrun⟩ := hreads counting
  rw [(Prod.mk.inj (hcount.symm.trans hrun)).2, hcounting]
  exact ⟨rfl, rfl⟩

/-- Rows are found or made by the request. -/
theorem perform_of_execute {request : Request} {snapshot : Snapshot}
    (htotal : ∀ counted, c.spec.countRequest owner = .ok counted → counted.IsReadOnly)
    (h : (c.execute owner (.rows request)).run env w = (.ok snapshot, w')) :
    ∃ rows, request.perform c.view.name w.collections = .ok (rows, w'.collections) ∧
      snapshot.items = rows.map Value.document := by
  cases request with
  | find found =>
      obtain ⟨rows, between, hrows, h⟩ := run_bind_eq_ok h
      obtain ⟨hsame, hitems⟩ := eq_of_counting htotal h
      obtain ⟨hfound, rfl⟩ := Prod.mk.inj hrows
      have hfind : w.collections.find c.view.name found = .ok rows := hfound
      refine ⟨rows, ?_, hitems⟩
      rw [Request.perform, hfind, hsame]
      rfl
  | aggregate p =>
      obtain ⟨rows, between, hrows, h⟩ := run_bind_eq_ok h
      obtain ⟨hsame, hitems⟩ := eq_of_counting htotal h
      refine ⟨rows, ?_, hitems⟩
      rw [hsame]
      exact run_change_eq_ok hrows

/-- A page of rows that was not answered from the cache comes from a request that was performed. -/
theorem performed_of_resolveIn (hmode : c.mode = .find ∨ c.mode = .run) {r : ResultPage}
    (hfresh : r.fromCache = false)
    (htotal : ∀ owner counted, c.spec.countRequest owner = .ok counted → counted.IsReadOnly)
    (h : (c.resolveIn context).run env w = (.ok r, w')) :
    ∃ owner force request rows, c.view.owner context = .ok owner ∧
      c.spec.compile c.page owner force = .ok request ∧
      request.perform c.view.name w.collections = .ok (rows, w'.collections) ∧
      (c.view.answer c.mode.operation (.items (rows.map Value.document)) context).asItems =
        .ok r.items := by
  obtain ⟨⟨snapshot, fromCache⟩, between, hfetch, h⟩ := run_bind_eq_ok h
  obtain ⟨result, answered, hafter, h⟩ := run_bind_eq_ok h
  obtain ⟨items, told, hlift, h⟩ := run_bind_eq_ok h
  obtain ⟨hitems, htold⟩ := run_lift_eq_ok hlift
  cases h
  simp only at hfresh
  subst hfresh
  obtain ⟨owner, request, begun, held, howner, hrequest, hbegun, hholding, hbetween⟩ :=
    holding_of_fetch (run_inOperation_eq_ok hfetch)
  obtain ⟨force, compiled, -, hcompile, rfl⟩ : ∃ force compiled,
      (∀ field, c.mode ≠ .distinct field) ∧ c.spec.compile c.page owner force = .ok compiled ∧
        request = .rows compiled := by
    rcases request_cases hrequest with ⟨field, hdistinct, -⟩ | hrows
    · rcases hmode with hmode | hmode
      · rw [hmode] at hdistinct
        cases hdistinct
      · rw [hmode] at hdistinct
        cases hdistinct
    · exact hrows
  obtain ⟨reading, read, hreading, hexecute, hheld⟩ :=
    CollectionView.exists_run_of_holding hholding
  obtain ⟨rows, hperform, hsnapshot⟩ := perform_of_execute (htotal owner) hexecute
  obtain ⟨events, hrun⟩ := c.view.tells_after env c.mode.operation (.items snapshot.items)
    context between
  obtain ⟨hresult, hanswered⟩ := Prod.mk.inj (hafter.symm.trans hrun)
  refine ⟨owner, force, compiled, rows, howner, hcompile, ?_, ?_⟩
  · have hsame : w'.collections = read.collections := by
      rw [htold, hanswered, ← hheld, ← hbetween]
    rw [hsame, ← hbegun, ← hreading]
    exact hperform
  · rw [← hsnapshot, ← Except.ok.inj hresult]
    exact hitems

end PageCursor

namespace CollectionView

variable {v : CollectionView} {query : Query} {spec : QuerySpec} {mode : ReadMode}
  {env : Environment} {w w' : World} {r : ResultPage}

/-- The hook before an operation leaves a query as it is, in the context of the view's own reads.
Nothing is asked of the hooks before other operations, or of those of other collections. -/
def Passes (v : CollectionView) (operation : Operation) (query : Query) : Prop :=
  ∀ context, v.context true = .ok context →
    v.argument operation (.query query) context = .ok (.query query)

theorem Unhooked.passes (hhooks : v.Unhooked) (operation : Operation) (query : Query) :
    v.Passes operation query :=
  fun context _ => argument_of_no_hooks hhooks operation (.query query) context

/-- The first page of a query was found or run, and the hook before that left the query alone. -/
def ReadsPage (v : CollectionView) (query : Query) (env : Environment) (w : World) (r : ResultPage)
    (w' : World) : Prop :=
  (v.Passes .query query ∧ (v.find query).run env w = (.ok r, w')) ∨
    (v.Passes .aggregate query ∧ (v.run query).run env w = (.ok r, w'))

/-- The first page of a query to which no stages were added. -/
theorem performed_of_readFirst (hpasses : v.Passes mode.operation query)
    (hmode : mode = .find ∨ mode = .run)
    (hbuild : query.build = .ok spec) (hextra : spec.assembler.extra = [])
    (hfresh : r.fromCache = false) (h : (v.readFirst mode query).run env w = (.ok r, w')) :
    ∃ context owner force request rows, v.context true = .ok context ∧
      v.owner context = .ok owner ∧
      spec.compile (PageCursor.first v spec mode).page owner force = .ok request ∧
      request.perform v.name w.collections = .ok (rows, w'.collections) ∧
      (v.answer mode.operation (.items (rows.map Value.document)) context).asItems =
        .ok r.items := by
  obtain ⟨context, checked, between, hcontext, hchecked, hbetween, hresolve⟩ :=
    resolveIn_of_readFirst h
  rw [prepared, hpasses context hcontext] at hchecked
  obtain rfl : spec = checked := Except.ok.inj (hbuild.symm.trans hchecked)
  have htotal : ∀ owner counted, spec.countRequest owner = .ok counted → counted.IsReadOnly :=
    fun _ _ => QuerySpec.isReadOnly_of_countRequest_of_extra (by simp [hextra])
  obtain ⟨owner, force, request, rows, howner, hcompile, hperform, hitems⟩ :=
    PageCursor.performed_of_resolveIn hmode hfresh htotal hresolve
  rw [hbetween] at hperform
  exact ⟨context, owner, force, request, rows, hcontext, howner, hcompile, hperform, hitems⟩

/-- A page that was not in the cache was made by one request, which began with the collections as
they were. -/
theorem performed_of_page (hbuild : query.build = .ok spec) (hextra : spec.assembler.extra = [])
    (hfresh : r.fromCache = false) (h : v.ReadsPage query env w r w') :
    ∃ operation context owner force request rows, v.context true = .ok context ∧
      v.owner context = .ok owner ∧
      spec.compile (PageCursor.first v spec .run).page owner force = .ok request ∧
      request.perform v.name w.collections = .ok (rows, w'.collections) ∧
      (v.answer operation (.items (rows.map Value.document)) context).asItems = .ok r.items := by
  rcases h with ⟨hpasses, hfind⟩ | ⟨hpasses, hrun⟩
  · exact ⟨ReadMode.find.operation,
      performed_of_readFirst hpasses (.inl rfl) hbuild hextra hfresh hfind⟩
  · exact ⟨ReadMode.run.operation,
      performed_of_readFirst hpasses (.inr rfl) hbuild hextra hfresh hrun⟩

end CollectionView

end DocumentBase
