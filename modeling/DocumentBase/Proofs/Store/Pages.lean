import DocumentBase.Proofs.Store.Questions

/-!
# What a page is

Without a cache, and if no pipeline writes, a page is a function of the collections: of the rows
that its request selects, of the number of rows that the request for the total counts, and of
the hook that sees the rows.
-/

namespace DocumentBase

open DocumentBase.Action

variable {env : Environment}

namespace PageCursor

/-- The rows of a request. -/
def rowsOf (c : PageCursor) (stored : Collections) : Request → Outcome (List Document)
  | .find request => stored.find c.view.name request
  | .aggregate pipeline => pipeline.run stored (stored.rows c.view.name)

/-- The rows of a page and the number of all rows. -/
def snapshotOf (c : PageCursor) (owner : Option String) (stored : Collections) :
    PageRequest → Outcome Snapshot
  | .rows request => do
    let rows ← c.rowsOf stored request
    let total ← countOf c.view.name stored (← c.spec.countRequest owner)
    return ⟨rows.map Value.document, total⟩
  | .distinct field criteria => do
    let values ← stored.distinct c.view.name field criteria
    return ⟨(values.drop c.page.offset).take c.page.size, values.length⟩

/-- Whether a cursor counts exactly, and its requests write nothing. -/
structure ReadsOnly (c : PageCursor) (owner : Option String) : Prop where
  exactCount : c.view.options.exactCount = true
  rows : ∀ request, c.request owner = .ok (.rows request) → request.IsReadOnly
  total : ∀ request, c.spec.countRequest owner = .ok request → request.IsReadOnly

variable {c : PageCursor} {owner : Option String} {context : HookContext}

theorem totalRequest_of_exactCount (hexact : c.view.options.exactCount = true) :
    c.totalRequest owner = c.spec.countRequest owner := by
  have hcounted : CountRequest.counted true = id := by
    funext request
    cases request <;> rfl
  rw [totalRequest, hexact, hcounted]
  cases c.spec.countRequest owner <;> rfl

/-- What the requests of a cursor read is a function of the collections. -/
def IsReadable (c : PageCursor) (env : Environment) (owner : Option String) : Prop :=
  ∀ request, c.request owner = .ok request →
    Reads env (c.execute owner request) fun stored => c.snapshotOf owner stored request

theorem ReadsOnly.isReadable (hc : c.ReadsOnly owner) : c.IsReadable env owner := by
  intro request hrequest
  have hreads : Reads env (c.execute owner request) fun stored =>
      (c.question owner request).answer c.view.name stored :=
    reads_answer (fun rows heq => hc.rows rows (heq ▸ hrequest)) hc.total
  apply hreads.congr
  intro stored
  cases request with
  | distinct field criteria => rfl
  | rows request =>
      rw [question, totalRequest_of_exactCount hc.exactCount]
      cases request <;> rfl

/-- The items of a page and the number of all rows, or the error that is told. -/
def heldSnapshot (c : PageCursor) (env : Environment) (owner : Option String)
    (stored : Collections) : Outcome Snapshot := do
  let request ← c.request owner
  (env.access c.view.name c.view.acquireOptions >>= fun _ =>
    c.snapshotOf owner stored request).mapError fun e =>
      e.inOperation c.mode.operation.name c.view.name

/-- The page of a cursor, as the hook after the operation leaves it. -/
def pageOf (c : PageCursor) (env : Environment) (context : HookContext) (owner : Option String)
    (stored : Collections) : Outcome ResultPage := do
  let snapshot ← (c.heldSnapshot env owner stored).mapError fun e =>
    e.inOperation c.mode.operation.name c.view.name
  let items ← (c.view.answer c.mode.operation (.items snapshot.items) context).asItems
  return { items, total := snapshot.total, fromCache := false, cursor := c }

theorem reads_fetch (hcache : c.view.options.useCache = false)
    (howner : c.view.owner context = .ok owner) (hc : c.IsReadable env owner) :
    Reads env (c.fetch context) fun stored => do
      return (← c.heldSnapshot env owner stored, false) := by
  have hfetch : c.fetch context = (do
      let request ← c.request owner
      let snapshot ← c.view.holding c.mode.operation (c.execute owner request)
      return (snapshot, false)) := by
    unfold fetch
    rw [howner, hcache]
    rfl
  rw [hfetch]
  have hreads := (tells_lift env (c.request owner)).reads_bind fun request hrequest =>
    ((hc request hrequest).holding c.view c.mode.operation).bind
      fun snapshot => reads_pure (snapshot, false)
  apply hreads.congr
  intro stored
  rw [heldSnapshot]
  cases c.request owner <;> rfl

/-- Without a cache a page is read and nothing is changed. -/
theorem reads_resolveIn (hcache : c.view.options.useCache = false)
    (howner : c.view.owner context = .ok owner) (hc : c.IsReadable env owner) :
    Reads env (c.resolveIn context) (c.pageOf env context owner) := by
  have hafter : ∀ read : Snapshot × Bool, Reads env (do
      let result ← c.view.after c.mode.operation (.items read.1.items) context
      return ({ items := ← result.asItems, total := read.1.total, fromCache := read.2,
                cursor := c } : ResultPage)) fun _ => do
        let items ← (c.view.answer c.mode.operation (.items read.1.items) context).asItems
        return { items, total := read.1.total, fromCache := read.2, cursor := c } := by
    intro read
    exact (c.view.tells_after env _ _ _).reads.bind fun result =>
      (reads_lift result.asItems).bind fun _ => reads_pure _
  have hfetch := (reads_fetch hcache howner hc).inOperation c.mode.operation c.view.name
  apply (hfetch.bind hafter).congr
  intro stored
  rw [pageOf]
  cases c.heldSnapshot env owner stored <;> rfl

/-! ### Pages that do not come from the cache -/

theorem quiet_cached? (c : PageCursor) (category : CacheCategory) (key : String) :
    Quiet (c.cached? category key) := by
  have hget := quiet_onCache c.view.store.caches category fun cache now => cache.get key now
  exact hget.bind fun found => quiet_pure (found.bind Snapshot.decode?)

/-- What does not come from the cache is found while the collection is held.  Looking into the
cache before and keeping it there afterwards leaves the collections alone. -/
theorem holding_of_fetch {w w' : World} {snapshot : Snapshot}
    (h : (c.fetch context).run env w = (.ok (snapshot, false), w')) :
    ∃ owner request begun held, c.view.owner context = .ok owner ∧
      c.request owner = .ok request ∧ begun.collections = w.collections ∧
      (c.view.holding c.mode.operation (c.execute owner request)).run env begun =
        (.ok snapshot, held) ∧ w'.collections = held.collections := by
  unfold fetch at h
  obtain ⟨owner, begun, hlift, h⟩ := run_bind_eq_ok h
  obtain ⟨howner, hbegun⟩ := run_lift_eq_ok hlift
  obtain ⟨request, between, hlift, h⟩ := run_bind_eq_ok h
  obtain ⟨hrequest, hbetween⟩ := run_lift_eq_ok hlift
  rw [← hbegun, ← hbetween]
  dsimp only at h
  split at h
  · obtain ⟨found, asked, hcached, h⟩ := run_bind_eq_ok h
    have hasked : asked.collections = between.collections := by
      have hquiet := c.quiet_cached? request.category (c.cacheKey context request).render env
        between
      rw [hcached] at hquiet
      exact hquiet
    cases found with
    | some kept => cases h
    | none =>
        simp only at h
        obtain ⟨read, held, hread, h⟩ := run_bind_eq_ok h
        obtain ⟨_, _, hkeep, h⟩ := run_bind_eq_ok h
        cases h
        cases hkeep
        exact ⟨owner, request, asked, held, howner, hrequest, hasked, hread, rfl⟩
  · obtain ⟨read, held, hread, h⟩ := run_bind_eq_ok h
    cases h
    exact ⟨owner, request, between, w', howner, hrequest, rfl, hread, rfl⟩

/-- What does not come from the cache was read, whether it is kept there afterwards or not. -/
theorem heldSnapshot_of_fetch (howner : c.view.owner context = .ok owner)
    (hc : c.IsReadable env owner) {w w' : World} {snapshot : Snapshot}
    (h : (c.fetch context).run env w = (.ok (snapshot, false), w')) :
    c.heldSnapshot env owner w.collections = .ok snapshot := by
  obtain ⟨acting, request, begun, held, hacting, hrequest, hbegun, hread, -⟩ := holding_of_fetch h
  obtain rfl : owner = acting := Except.ok.inj (howner.symm.trans hacting)
  obtain ⟨events, hrun⟩ := (hc request hrequest).holding c.view c.mode.operation begun
  rw [heldSnapshot, hrequest, ← hbegun]
  exact congrArg Prod.fst (hrun.symm.trans hread)

/-- What can be read is found, be it in the cache: no look into the cache fails. -/
theorem exists_fetch (howner : c.view.owner context = .ok owner) (hc : c.IsReadable env owner)
    {w : World} {snapshot : Snapshot}
    (h : c.heldSnapshot env owner w.collections = .ok snapshot) :
    ∃ found w', (c.fetch context).run env w = (.ok found, w') := by
  obtain ⟨request, hrequest, hheld⟩ := Outcome.bind_eq_ok.mp h
  have hread (begun : World) (hsame : begun.collections = w.collections) :
      ∃ w', (c.view.holding c.mode.operation (c.execute owner request)).run env begun =
        (.ok snapshot, w') := by
    obtain ⟨events, hrun⟩ := (hc request hrequest).holding c.view c.mode.operation begun
    rw [hsame] at hrun
    exact ⟨_, hrun.trans (congrArg (·, _) hheld)⟩
  unfold fetch
  rw [run_lift_bind_of_ok howner, run_lift_bind_of_ok hrequest]
  dsimp only
  cases c.view.options.useCache with
  | false =>
      obtain ⟨read, hrun⟩ := hread w rfl
      exact ⟨_, _, run_bind_of_ok hrun⟩
  | true =>
      generalize (c.cacheKey context request).render = key
      have hquiet := c.quiet_cached? request.category key env w
      cases hcached : (c.cached? request.category key).run env w with
      | mk outcome asked =>
          rw [hcached] at hquiet
          cases outcome with
          | error e => cases hcached
          | ok found =>
              rw [if_pos rfl, run_bind_of_ok hcached]
              cases found with
              | some kept => exact ⟨_, _, rfl⟩
              | none =>
                  obtain ⟨read, hrun⟩ := hread asked hquiet
                  exact ⟨_, _, run_bind_of_ok hrun⟩

/-- Without hooks a page is returned whenever its items and its total can be read. -/
theorem exists_resolveIn (howner : c.view.owner context = .ok owner)
    (hc : c.IsReadable env owner) (hhooks : c.view.Unhooked) {w : World} {snapshot : Snapshot}
    (h : c.heldSnapshot env owner w.collections = .ok snapshot) :
    ∃ r w', (c.resolveIn context).run env w = (.ok r, w') := by
  obtain ⟨found, between, hfetch⟩ := exists_fetch howner hc h
  have hread := run_inOperation_of_ok c.mode.operation c.view.name hfetch
  obtain ⟨events, hafter⟩ := c.view.tells_after env c.mode.operation
    (.items found.1.items) context between
  rw [CollectionView.answer_of_no_hooks hhooks] at hafter
  exact ⟨_, _, (run_bind_of_ok hread).trans (run_bind_of_ok hafter)⟩

theorem cursor_of_resolveIn {w w' : World} {r : ResultPage}
    (h : (c.resolveIn context).run env w = (.ok r, w')) : r.cursor = c := by
  obtain ⟨_, _, _, h⟩ := run_bind_eq_ok h
  obtain ⟨_, _, _, h⟩ := run_bind_eq_ok h
  obtain ⟨_, _, _, h⟩ := run_bind_eq_ok h
  cases h
  rfl

theorem exists_owner_of_resolveIn {w w' : World} {r : ResultPage}
    (h : (c.resolveIn context).run env w = (.ok r, w')) :
    ∃ owner, c.view.owner context = .ok owner := by
  obtain ⟨_, _, hfetch, _⟩ := run_bind_eq_ok h
  obtain ⟨owner, _, howner, _⟩ := run_bind_eq_ok (run_inOperation_eq_ok hfetch)
  exact ⟨owner, (run_lift_eq_ok howner).1⟩

/-- A page that is not from the cache has the total that is read from the stored documents. -/
theorem heldSnapshot_of_resolveIn (howner : c.view.owner context = .ok owner)
    (hc : c.IsReadable env owner) {w w' : World} {r : ResultPage} (hfresh : r.fromCache = false)
    (h : (c.resolveIn context).run env w = (.ok r, w')) :
    ∃ snapshot, c.heldSnapshot env owner w.collections = .ok snapshot ∧
      snapshot.total = r.total := by
  obtain ⟨⟨snapshot, fromCache⟩, _, hfetch, h⟩ := run_bind_eq_ok h
  obtain ⟨_, _, _, h⟩ := run_bind_eq_ok h
  obtain ⟨_, _, _, h⟩ := run_bind_eq_ok h
  cases h
  simp only at hfresh
  subst hfresh
  exact ⟨snapshot, heldSnapshot_of_fetch howner hc (run_inOperation_eq_ok hfetch), rfl⟩

/-- The total of rows is what the request for the total finds. -/
theorem countOf_of_heldSnapshot {stored : Collections} {snapshot : Snapshot}
    (hmode : c.mode = .find ∨ c.mode = .run)
    (h : c.heldSnapshot env owner stored = .ok snapshot) :
    ∃ counted, c.spec.countRequest owner = .ok counted ∧
      countOf c.view.name stored counted = .ok snapshot.total := by
  obtain ⟨request, hrequest, hheld⟩ := Outcome.bind_eq_ok.mp h
  obtain ⟨_, _, hsnapshot⟩ := Outcome.bind_eq_ok.mp (Outcome.mapError_eq_ok.mp hheld)
  have hrows : ∃ selected, request = .rows selected := by
    rw [PageCursor.request] at hrequest
    rcases hmode with hmode | hmode
    · rw [hmode] at hrequest
      obtain ⟨selected, _, heq⟩ := Outcome.bind_eq_ok.mp hrequest
      exact ⟨selected, (Except.ok.inj heq).symm⟩
    · rw [hmode] at hrequest
      obtain ⟨selected, _, heq⟩ := Outcome.bind_eq_ok.mp hrequest
      exact ⟨selected, (Except.ok.inj heq).symm⟩
  obtain ⟨selected, rfl⟩ := hrows
  obtain ⟨_, _, htotal⟩ := Outcome.bind_eq_ok.mp hsnapshot
  obtain ⟨counted, hcounted, htotal⟩ := Outcome.bind_eq_ok.mp htotal
  obtain ⟨total, hcount, heq⟩ := Outcome.bind_eq_ok.mp htotal
  cases heq
  exact ⟨counted, hcounted, hcount⟩

end PageCursor

/-! ### First pages -/

namespace CollectionView

variable {v : CollectionView} {context : HookContext} {owner : Option String}

/-- A query after the hook before an operation, checked. -/
def prepared (v : CollectionView) (operation : Operation) (query : Query)
    (context : HookContext) : Outcome QuerySpec := do
  let payload ← v.argument operation (.query query) context
  let query ← payload.asQuery
  query.build

theorem prepared_of_no_hooks (hhooks : v.Unhooked) (operation : Operation) {query : Query}
    (context : HookContext) : v.prepared operation query context = query.build := by
  rw [prepared, argument_of_no_hooks hhooks]
  rfl

theorem tells_prepare (operation : Operation) (query : Query) :
    Tells env (v.prepare operation query context) (v.prepared operation query context) := by
  have hprepare := (v.tells_before env operation (.query query) context).reads.bind fun payload =>
    (reads_lift payload.asQuery).bind fun query => reads_lift query.build
  exact hprepare

theorem reads_readFirst {mode : ReadMode} {query : Query}
    (hcache : v.options.useCache = false) (hcontext : v.context true = .ok context)
    (howner : v.owner context = .ok owner)
    (hreads : ∀ spec, v.prepared mode.operation query context = .ok spec →
      (PageCursor.first v spec mode).ReadsOnly owner) :
    Reads env (v.readFirst mode query) fun stored =>
      v.prepared mode.operation query context >>= fun spec =>
        (PageCursor.first v spec mode).pageOf env context owner stored := by
  have hfirst : v.readFirst mode query = (do
      let spec ← v.prepare mode.operation query context
      (PageCursor.first v spec mode).resolveIn context) := by
    unfold readFirst
    rw [hcontext]
    rfl
  rw [hfirst]
  apply (tells_prepare mode.operation query).reads_bind
  intro spec hspec
  exact PageCursor.reads_resolveIn hcache howner (hreads spec hspec).isReadable

/-- The first page is resolved in the context of its operation, once the query is prepared. -/
theorem resolveIn_of_readFirst {mode : ReadMode} {query : Query} {w w' : World} {r : ResultPage}
    (h : (v.readFirst mode query).run env w = (.ok r, w')) :
    ∃ context spec between, v.context true = .ok context ∧
      v.prepared mode.operation query context = .ok spec ∧
      between.collections = w.collections ∧
      ((PageCursor.first v spec mode).resolveIn context).run env between = (.ok r, w') := by
  obtain ⟨context, begun, hlift, h⟩ := run_bind_eq_ok h
  obtain ⟨hcontext, hbegun⟩ := run_lift_eq_ok hlift
  obtain ⟨spec, between, hprepare, h⟩ := run_bind_eq_ok h
  have htells : Tells env (v.prepare mode.operation query context)
      (v.prepared mode.operation query context) := tells_prepare mode.operation query
  obtain ⟨events, hrun⟩ := htells begun
  obtain ⟨hspec, hbetween⟩ := Prod.mk.inj (hprepare.symm.trans hrun)
  refine ⟨context, spec, between, hcontext, hspec.symm, ?_, h⟩
  rw [hbetween, hbegun]

end CollectionView

end DocumentBase
