import DocumentBase.Proofs.Query.Paging

/-!
# Walking through pages

Whoever reads the first page of a simple query and then asks for the next page as long as there
is one gets every row once and in order, if the collection stays as it is meanwhile.
-/

namespace DocumentBase

open DocumentBase.Action

def ResultPage.hasNext (r : ResultPage) : Bool :=
  r.cursor.page.hasNext r.total

namespace CollectionView

/-- An action has this result whenever the collection is handed out and holds these documents,
whatever else has happened. -/
def Yields {α : Type} (v : CollectionView) (documents : List Document) (a : Action α)
    (result : α) : Prop :=
  ∀ (env : Environment) (w : World), env.access v.name v.acquireOptions = .ok () →
    w.collections.rows v.name = documents → (a.run env w).1 = .ok result

/-- The pages that are visited by asking for the next one as long as there is one. -/
inductive Walk (v : CollectionView) (documents : List Document) :
    ResultPage → List ResultPage → Prop
  | last {r : ResultPage} (hlast : r.hasNext = false) : Walk v documents r [r]
  | next {r following : ResultPage} {rest : List ResultPage} (hmore : r.hasNext = true)
      (hnext : v.Yields documents r.next following) (hrest : Walk v documents following rest) :
      Walk v documents r (r :: rest)

variable {v : CollectionView} {documents : List Document}

theorem Yields.unique {α : Type} {a : Action α} {x y : α} (hx : v.Yields documents a x)
    (hy : v.Yields documents a y) : x = y := by
  let env : Environment :=
    { date := 0, moment := 0, fresh := fun _ => "", access := fun _ _ => .ok () }
  let w : World :=
    { collections := [(v.name, documents)]
      registries := fun _ => .ofConfig .default 0
      drawn := 0
      events := [] }
  have hrows : w.collections.rows v.name = documents := by
    simp [w, Collections.rows, Collections.rows?]
  exact Except.ok.inj ((hx env w rfl hrows).symm.trans (hy env w rfl hrows))

/-- From a page on there is only one walk. -/
theorem Walk.unique {r : ResultPage} {pages visited : List ResultPage}
    (hpages : v.Walk documents r pages) (hvisited : v.Walk documents r visited) :
    visited = pages := by
  induction hpages generalizing visited with
  | last hlast =>
      cases hvisited with
      | last _ => rfl
      | next hmore _ _ =>
          rw [hlast] at hmore
          cases hmore
  | next hmore hnext _ ih =>
      cases hvisited with
      | last hlast =>
          rw [hlast] at hmore
          cases hmore
      | next _ hother hrest =>
          rw [hother.unique hnext] at hrest
          rw [ih hrest]

/-! ### The pages of a simple read -/

/-- A query that is read with exact counts, without hooks and without the cache, and the documents
that it selects; their number is a word. -/
structure SimpleRead (v : CollectionView) (mode : ReadMode) (spec : QuerySpec)
    (owner : Option String) (documents matched : List Document) : Prop where
  rows : mode = .find ∨ mode = .run
  exactCount : v.options.exactCount = true
  useCache : v.options.useCache = false
  hooks : v.options.suppressHooks = true ∨ v.store.hooks = .empty
  acting : v.context true >>= v.owner = .ok owner
  simple : spec.IsSimple
  selected : (spec.ownedCriteria owner).select documents = .ok matched
  word : matched.length ≤ Value.maxWord

def pageSize (v : CollectionView) (spec : QuerySpec) : Nat :=
  spec.pageSize v.store.config.defaultPageSize

def pageAt (v : CollectionView) (mode : ReadMode) (spec : QuerySpec) (matched : List Document)
    (page : Page) : ResultPage :=
  { items := (spec.pageRows matched page).map Value.document
    total := matched.length
    fromCache := false
    cursor := ⟨v, spec, mode, page⟩ }

variable {mode : ReadMode} {spec : QuerySpec} {owner : Option String}
  {matched : List Document}

namespace SimpleRead

/-- A cursor of a simple read finds its part of the rows and the number of all of them. -/
theorem snapshotOf_eq (h : SimpleRead v mode spec owner documents matched) (page : Page)
    {stored : Collections} (hstored : stored.rows v.name = documents) :
    ∃ request, (⟨v, spec, mode, page⟩ : PageCursor).request owner = .ok request ∧
      (⟨v, spec, mode, page⟩ : PageCursor).snapshotOf owner stored request =
        .ok ⟨(spec.pageRows matched page).map Value.document, matched.length⟩ := by
  have hselect : (spec.ownedCriteria owner).select (stored.rows v.name) = .ok matched := by
    rw [hstored]
    exact h.selected
  have hrequest : ∃ force, (⟨v, spec, mode, page⟩ : PageCursor).request owner =
      spec.compile page owner force >>= fun request => pure (.rows request) := by
    rcases h.rows with rfl | rfl
    · exact ⟨false, rfl⟩
    · exact ⟨true, rfl⟩
  obtain ⟨force, hrequest⟩ := hrequest
  have hcompile : spec.compile page owner force = _ :=
    QuerySpec.compile_of_isSimple h.simple page force
  generalize (if !force && !spec.requiresPipeline then
      Request.find ⟨spec.ownedCriteria owner, spec.sort, page.offset, page.size⟩
    else .aggregate _) = request at hcompile
  rw [hcompile] at hrequest
  refine ⟨.rows request, hrequest, ?_⟩
  have hrows : (⟨v, spec, mode, page⟩ : PageCursor).rowsOf stored request =
      .ok (spec.pageRows matched page) :=
    PageCursor.rowsOf_of_isSimple h.simple hselect hcompile
  have hcount : countOf v.name stored (.documents (spec.ownedCriteria owner)) =
      .ok matched.length := Collections.count_of_select hselect
  rw [PageCursor.snapshotOf, hrows, QuerySpec.countRequest_of_isSimple h.simple]
  simp only [bind, Except.bind, hcount]
  rfl

/-- A page is what its cursor resolves to. -/
theorem pageOf_eq (h : SimpleRead v mode spec owner documents matched) (page : Page)
    {env : Environment} (haccess : env.access v.name v.acquireOptions = .ok ())
    (context : HookContext) {stored : Collections} (hstored : stored.rows v.name = documents) :
    (⟨v, spec, mode, page⟩ : PageCursor).pageOf env context owner stored =
      .ok (v.pageAt mode spec matched page) := by
  obtain ⟨request, hrequest, hsnapshot⟩ := h.snapshotOf_eq page hstored
  have hheld : (⟨v, spec, mode, page⟩ : PageCursor).heldSnapshot env owner stored =
      .ok ⟨(spec.pageRows matched page).map Value.document, matched.length⟩ := by
    rw [PageCursor.heldSnapshot, hrequest]
    simp only [bind, Except.bind, haccess, hsnapshot]
    rfl
  rw [PageCursor.pageOf, hheld]
  simp only [bind, Except.bind, Outcome.mapError_ok, answer_of_no_hooks h.hooks]
  rfl

theorem yields_resolveIn (h : SimpleRead v mode spec owner documents matched) (page : Page)
    {context : HookContext} (hcontext : v.context true = .ok context) :
    v.Yields documents ((⟨v, spec, mode, page⟩ : PageCursor).resolveIn context)
      (v.pageAt mode spec matched page) := by
  intro env w haccess hstored
  obtain ⟨_, hsame, howner⟩ := Outcome.bind_eq_ok.mp h.acting
  rw [hcontext] at hsame
  rw [← Except.ok.inj hsame] at howner
  have hreads : (⟨v, spec, mode, page⟩ : PageCursor).ReadsOnly owner :=
    PageCursor.readsOnly_of_isPlain h.exactCount h.simple.toIsPlain
  have hresolve : Reads env ((⟨v, spec, mode, page⟩ : PageCursor).resolveIn context) _ :=
    PageCursor.reads_resolveIn h.useCache howner hreads.isReadable
  obtain ⟨events, hrun⟩ := hresolve w
  rw [hrun]
  exact h.pageOf_eq page haccess context hstored

/-- Resolving a page gives its part of the rows, in every environment that hands the collection out.
-/
theorem yields_resolve (h : SimpleRead v mode spec owner documents matched) (page : Page) :
    v.Yields documents ((⟨v, spec, mode, page⟩ : PageCursor).resolve)
      (v.pageAt mode spec matched page) := by
  obtain ⟨context, hcontext, _⟩ := Outcome.bind_eq_ok.mp h.acting
  have hresolve : (⟨v, spec, mode, page⟩ : PageCursor).resolve =
      (⟨v, spec, mode, page⟩ : PageCursor).resolveIn context := by
    rw [PageCursor.resolve, hcontext]
    rfl
  rw [hresolve]
  exact h.yields_resolveIn page hcontext

/-! ### The walk -/

/-- The page after `k` others. -/
def nthPage (v : CollectionView) (mode : ReadMode) (spec : QuerySpec) (matched : List Document)
    (k : Nat) : ResultPage :=
  v.pageAt mode spec matched
    (.nth (v.pageSize spec) spec.skip k)

theorem yields_first (h : SimpleRead v mode spec owner documents matched) {query : Query}
    (hbuild : query.build = .ok spec) :
    v.Yields documents (v.readFirst mode query) (nthPage v mode spec matched 0) := by
  obtain ⟨context, hcontext, howner⟩ := Outcome.bind_eq_ok.mp h.acting
  have hpage : Page.of 1 (spec.pageSize v.store.config.defaultPageSize) spec.skip =
      .nth (v.pageSize spec) spec.skip 0 := by
    have hsize : 1 ≤ spec.pageSize v.store.config.defaultPageSize := Nat.le_max_right _ _
    rw [Page.of, Nat.max_eq_left hsize]
    rfl
  have hprepared : v.prepared mode.operation query context = .ok spec := by
    rw [prepared, argument_of_no_hooks h.hooks]
    exact hbuild
  intro env w haccess hstored
  have hreads : Reads env (v.readFirst mode query) _ :=
    reads_readFirst h.useCache hcontext howner fun checked hchecked => by
      rw [hprepared] at hchecked
      rw [← Except.ok.inj hchecked]
      exact PageCursor.readsOnly_of_isPlain h.exactCount h.simple.toIsPlain
  obtain ⟨events, hrun⟩ := hreads w
  rw [hrun, hprepared]
  simp only [bind, Except.bind, PageCursor.first, hpage]
  exact h.pageOf_eq _ haccess context hstored

/-- Asking for the next page leads from each page to the one with the next number. -/
theorem yields_next (h : SimpleRead v mode spec owner documents matched) (k : Nat) :
    v.Yields documents (nthPage v mode spec matched k).next
      (nthPage v mode spec matched (k + 1)) :=
  h.yields_resolve _

/-- There is a next page as long as rows are left behind the page. -/
theorem hasNext_nthPage (h : SimpleRead v mode spec owner documents matched) (k : Nat) :
    (nthPage v mode spec matched k).hasNext = true ↔
      spec.skip + (k + 1) * v.pageSize spec < matched.length :=
  Page.hasNext_nth _ _ _ h.word

/-- A page has the rows that come after those of the pages before it. -/
theorem items_nthPage (h : SimpleRead v mode spec owner documents matched) (k : Nat) :
    (nthPage v mode spec matched k).items =
      ((((spec.rowsOf matched).drop spec.skip).drop
        (k * v.pageSize spec)).take
          (v.pageSize spec)).map Value.document := by
  have hlength : (spec.rowsOf matched).length ≤ Value.maxWord := by
    rw [QuerySpec.length_rowsOf]
    exact h.word
  have hrows : spec.pageRows matched
      (.nth (v.pageSize spec) spec.skip k) =
      (((spec.rowsOf matched).drop spec.skip).drop
        (k * v.pageSize spec)).take
          (v.pageSize spec) := by
    rw [QuerySpec.pageRows, Page.drop_offset_nth _ _ _ hlength]
    rfl
  rw [nthPage, pageAt, hrows]

/-- The walk goes on until the pages cover all rows. -/
theorem walk_nthPage (h : SimpleRead v mode spec owner documents matched) {m k : Nat}
    (hcovers : matched.length - spec.skip ≤
      (k + m + 1) * v.pageSize spec)
    (hneeded : m = 0 ∨ (k + m) * v.pageSize spec <
      matched.length - spec.skip) :
    v.Walk documents (nthPage v mode spec matched k)
      ((List.range' k (m + 1)).map (nthPage v mode spec matched)) := by
  induction m generalizing k with
  | zero =>
      apply Walk.last
      rw [Bool.eq_false_iff, ne_eq, h.hasNext_nthPage]
      rw [Nat.add_zero] at hcovers
      omega
  | succ m ih =>
      have hmore : (nthPage v mode spec matched k).hasNext = true := by
        rw [h.hasNext_nthPage]
        have hlast := hneeded.resolve_left (Nat.succ_ne_zero m)
        have hpages : (k + 1) * v.pageSize spec ≤
            (k + (m + 1)) * v.pageSize spec :=
          Nat.mul_le_mul_right _ (by omega)
        omega
      apply Walk.next hmore (h.yields_next k)
      apply ih
      · rwa [Nat.add_right_comm k 1 m]
      · right
        have hlast := hneeded.resolve_left (Nat.succ_ne_zero m)
        rwa [Nat.add_assoc, Nat.add_comm 1 m]

/-- Going on and back again returns to the page. -/
theorem back_of_next (h : SimpleRead v mode spec owner documents matched)
    (hsize : v.pageSize spec ≤ Value.maxWord) (k : Nat) :
    v.Yields documents (nthPage v mode spec matched (k + 1)).prev
      (nthPage v mode spec matched k) := by
  have hprev := Page.prev_nth _ spec.skip k hsize
  have hresolve := h.yields_resolve
    (Page.nth (v.pageSize spec) spec.skip (k + 1)).prev
  rw [hprev] at hresolve
  have hmove : (nthPage v mode spec matched (k + 1)).prev =
      PageCursor.resolve ⟨v, spec, mode,
        (Page.nth (v.pageSize spec) spec.skip (k + 1)).prev⟩ := rfl
  rw [hmove, hprev]
  exact hresolve

/-- There is a next page exactly when it has items. -/
theorem hasNext_iff_items (h : SimpleRead v mode spec owner documents matched) (k : Nat) :
    (nthPage v mode spec matched k).hasNext = true ↔
      (nthPage v mode spec matched (k + 1)).items ≠ [] := by
  have hsize : 1 ≤ v.pageSize spec := Nat.le_max_right _ _
  rw [h.hasNext_nthPage, h.items_nthPage, ne_eq, List.map_eq_nil_iff, List.take_eq_nil_iff,
    List.drop_eq_nil_iff, List.length_drop, QuerySpec.length_rowsOf]
  omega

/-- Pages that are enough for all rows hold each of them once and in order. -/
theorem flatMap_items (h : SimpleRead v mode spec owner documents matched) {count : Nat}
    (hcovers : matched.length - spec.skip ≤
      count * v.pageSize spec) :
    ((List.range count).map (nthPage v mode spec matched)).flatMap (·.items) =
      ((spec.rowsOf matched).drop spec.skip).map Value.document := by
  have hlength : ((spec.rowsOf matched).drop spec.skip).length ≤
      count * v.pageSize spec := by
    rw [List.length_drop, QuerySpec.length_rowsOf]
    exact hcovers
  have hitems : (fun k => (nthPage v mode spec matched k).items) = fun k =>
      ((((spec.rowsOf matched).drop spec.skip).drop
        (k * v.pageSize spec)).take
          (v.pageSize spec)).map Value.document := by
    funext k
    exact h.items_nthPage k
  rw [List.flatMap_map, hitems, ← List.map_flatMap, flatMap_slices,
    List.take_of_length_le hlength]

end SimpleRead

/-- Asking for the next page as long as there is one visits every row once, in stable order and
without those that are skipped.  The pages are as many as the rows fill, at least one; each of
them knows the number of all rows and whether the following one is empty, from which there is a
way back. -/
theorem walk_visits_rows {query : Query} (h : SimpleRead v mode spec owner documents matched)
    (hbuild : query.build = .ok spec) (hsort : ∀ d ∈ matched, spec.sort.Comparable d)
    (hsize : v.pageSize spec ≤ Value.maxWord) :
    ∃ first pages sorted,
      v.Yields documents (v.readFirst mode query) first ∧
      (∀ visited, v.Walk documents first visited ↔ visited = pages) ∧
      pages.length = max 1 ((matched.length - spec.skip +
        v.pageSize spec - 1) /
          v.pageSize spec) ∧
      StablySorted (fun left right => spec.sort.compare left right == .lt) matched sorted ∧
      pages.flatMap (·.items) =
        (sorted.drop spec.skip).map (fun d => Value.document (spec.projectRow d)) ∧
      ∀ page ∈ pages, page.total = matched.length ∧
        ∃ following, v.Yields documents page.next following ∧
          (page.hasNext = true ↔ following.items ≠ []) ∧
          ∃ back, v.Yields documents following.prev back ∧ back.items = page.items := by
  have hone : 0 < v.pageSize spec := Nat.le_max_right _ _
  obtain ⟨m, hcount, hcovers, hneeded⟩ :=
    exists_pageCount (matched.length - spec.skip) hone
  have hwalk := h.walk_nthPage (k := 0) (by simpa using hcovers) (by simpa using hneeded)
  rw [← List.range_eq_range'] at hwalk
  refine ⟨SimpleRead.nthPage v mode spec matched 0,
    (List.range (m + 1)).map (SimpleRead.nthPage v mode spec matched),
    spec.sort.sort matched, h.yields_first hbuild, ?_, ?_, SortSpec.stablySorted_sort hsort, ?_, ?_⟩
  · intro visited
    constructor
    · exact hwalk.unique
    · rintro rfl
      exact hwalk
  · rw [List.length_map, List.length_range, hcount]
  · rw [h.flatMap_items hcovers, QuerySpec.rowsOf, ← List.map_drop, List.map_map]
    rfl
  · intro page hpage
    obtain ⟨k, _, rfl⟩ := List.mem_map.mp hpage
    exact ⟨rfl, _, h.yields_next k, h.hasNext_iff_items k, _, h.back_of_next hsize k, rfl⟩

end CollectionView

/-! ### Three notes on two pages -/

namespace WalkExample

def view : CollectionView := (Store.basic 0).collection "notes"

def query : Query :=
  Query.empty.calls [.order "size" .descending, .limit 2]

def notes : List Document :=
  [3, 5, 3].map fun size => [("size", .int32 size)]

theorem build_query : query.build = .ok (query.spec .empty) := rfl

theorem simpleRead : view.SimpleRead .find (query.spec .empty) none notes notes where
  rows := Or.inl rfl
  exactCount := rfl
  useCache := rfl
  hooks := Or.inr rfl
  acting := rfl
  simple := ⟨⟨rfl, rfl, rfl⟩, rfl, rfl⟩
  selected := rfl
  word := by decide

theorem comparable : ∀ d ∈ notes, (query.spec .empty).sort.Comparable d := by
  intro d hd key hkey
  obtain ⟨size, _, rfl⟩ := List.mem_map.mp hd
  have hfield : key = ("size", .descending) := List.mem_singleton.mp hkey
  rw [hfield]
  rfl

end WalkExample

open WalkExample in
theorem CollectionView.walk_visits_three_notes :
    ∃ first pages, view.Yields notes (view.find query) first ∧
      view.Walk notes first pages ∧ pages.length = 2 := by
  obtain ⟨first, pages, _, hfirst, hwalk, hlength, _⟩ :=
    CollectionView.walk_visits_rows simpleRead build_query comparable (by decide)
  exact ⟨first, pages, hfirst, (hwalk pages).mpr rfl, hlength⟩

end DocumentBase
