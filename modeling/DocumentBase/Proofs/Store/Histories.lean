import DocumentBase.Proofs.Store.Caching
import DocumentBase.Proofs.Store.Ownership
import DocumentBase.Proofs.Store.Pages

/-!
# Histories of reads

Views of one collection read page after page through the caches of their store, each with its
own options and for its own identity.  They see what they would see without caches, as long as
two reads that look at the same entry of a cache read one query and count its rows in one way,
or ask the same question after all.
-/

namespace DocumentBase

open DocumentBase.Action

/-! ### Reads -/

/-- The operations that read a page. -/
inductive PageRead where
  | first (view : CollectionView) (mode : ReadMode) (query : Query)
  /-- A turn of any page, such as one that was read before. -/
  | turn (page : ResultPage) (turn : Turn)

/-- The context of an operation tells the collection of its view. -/
theorem CollectionView.eq_of_context {v : CollectionView} {acceptsVisitor : Bool}
    {context : HookContext} (h : v.context acceptsVisitor = .ok context) :
    context.database = v.store.config.database ∧ context.collection = v.name := by
  unfold CollectionView.context at h
  split at h
  · cases h
    exact ⟨rfl, rfl⟩
  · obtain ⟨_, -, h⟩ := Outcome.bind_eq_ok.mp h
    cases h
    exact ⟨rfl, rfl⟩

/-- The view with all its options, but for the cache. -/
def CollectionView.withoutCache (v : CollectionView) : CollectionView :=
  { v with options := { v.options with useCache := false } }

def PageCursor.withoutCache (c : PageCursor) : PageCursor :=
  { c with view := c.view.withoutCache }

def Page.turn (p : Page) : Turn → Page
  | .next => p.next
  | .prev => p.prev

theorem ResultPage.turn_eq_resolve (r : ResultPage) (t : Turn) :
    r.turn t = (r.cursor.moveTo (r.cursor.page.turn t)).resolve := by
  cases t <;> rfl

/-- The check that comes before everything else. -/
def ReadMode.checked : ReadMode → Outcome Unit
  | .distinct field => checkField field
  | _ => .ok ()

namespace PageRead

def view : PageRead → CollectionView
  | first view _ _ => view
  | turn page _ => page.cursor.view

def perform : PageRead → Action ResultPage
  | first view mode query => ReadCall.firstPage view query mode
  | turn page t => page.turn t

def withoutCache : PageRead → PageRead
  | first view mode query => first view.withoutCache mode query
  | turn page t => turn { page with cursor := page.cursor.withoutCache } t

/-- The cursor that a read resolves, and the context that it does this in. -/
def reaches : PageRead → Outcome (PageCursor × HookContext)
  | first view mode query => do
    mode.checked
    let context ← view.context true
    let spec ← view.prepared mode.operation query context
    return (PageCursor.first view spec mode, context)
  | turn page t => do
    let context ← page.cursor.view.context true
    return (page.cursor.moveTo (page.cursor.page.turn t), context)

/-- What is seen of a read when nothing stands between it and the collections. -/
def shown (r : PageRead) (stored : Collections) : Outcome (List Value × Nat) := do
  let (c, context) ← r.reaches
  c.shown context stored

variable {r : PageRead} {c : PageCursor} {context : HookContext} {stored : Collections}
  {env : Environment} {mayHold : CacheCategory → String → Value → Prop}

theorem reaches_first {v : CollectionView} {mode : ReadMode} {query : Query} {spec : QuerySpec}
    (hchecked : mode.checked = .ok ()) (hcontext : v.context true = .ok context)
    (hspec : v.prepared mode.operation query context = .ok spec) :
    (first v mode query).reaches = .ok (PageCursor.first v spec mode, context) := by
  rw [reaches, hchecked, hcontext]
  simp only [bind, Except.bind, hspec]
  rfl

theorem reaches_turn {page : ResultPage} {t : Turn}
    (hcontext : page.cursor.view.context true = .ok context) :
    (turn page t).reaches = .ok (page.cursor.moveTo (page.cursor.page.turn t), context) := by
  rw [reaches, hcontext]
  rfl

theorem view_of_reaches (h : r.reaches = .ok (c, context)) :
    c.view = r.view ∧ r.view.context true = .ok context := by
  cases r with
  | first view mode query =>
      obtain ⟨_, -, h⟩ := Outcome.bind_eq_ok.mp h
      obtain ⟨found, hcontext, h⟩ := Outcome.bind_eq_ok.mp h
      obtain ⟨spec, -, h⟩ := Outcome.bind_eq_ok.mp h
      obtain ⟨rfl, rfl⟩ := Prod.mk.inj (Outcome.pure_eq_ok.mp h)
      exact ⟨rfl, hcontext⟩
  | turn page t =>
      obtain ⟨found, hcontext, h⟩ := Outcome.bind_eq_ok.mp h
      obtain ⟨rfl, rfl⟩ := Prod.mk.inj (Outcome.pure_eq_ok.mp h)
      exact ⟨rfl, hcontext⟩

/-- Reading without a cache reaches the same pages. -/
theorem reaches_withoutCache (r : PageRead) :
    r.withoutCache.reaches =
      r.reaches.map fun reached => (reached.1.withoutCache, reached.2) := by
  cases r with
  | first view mode query =>
      have hcontext : view.withoutCache.context true = view.context true := rfl
      have hprepared : ∀ context, view.withoutCache.prepared mode.operation query context =
        view.prepared mode.operation query context := fun _ => rfl
      simp only [withoutCache, reaches, hcontext, hprepared]
      cases mode.checked with
      | error e => rfl
      | ok _ =>
          cases view.context true with
          | error e => rfl
          | ok context =>
              simp only [bind, Except.bind]
              cases view.prepared mode.operation query context <;> rfl
  | turn page t =>
      have hcontext : page.cursor.view.withoutCache.context true =
        page.cursor.view.context true := rfl
      simp only [withoutCache, reaches, PageCursor.withoutCache, hcontext]
      cases page.cursor.view.context true <;> rfl

theorem shown_withoutCache (r : PageRead) (stored : Collections) :
    r.withoutCache.shown stored = r.shown stored := by
  rw [shown, shown, reaches_withoutCache]
  cases r.reaches <;> rfl

/-- The collection is handed out to a read that writes nothing, and that may look at the caches if
it does. -/
structure Served (r : PageRead) (env : Environment) (stored : Collections)
    (mayHold : CacheCategory → String → Value → Prop) : Prop where
  access : env.access r.view.name r.view.acquireOptions = .ok ()
  writesNothing : ∀ c context, r.reaches = .ok (c, context) → c.spec.WritesNothing
  reliable : r.view.options.useCache = true → ∀ c context, r.reaches = .ok (c, context) →
    c.Reliable context stored mayHold

theorem Served.shows_resolveIn (h : r.Served env stored mayHold)
    (hreaches : r.reaches = .ok (c, context)) :
    Shows (Faithful r.view.store.caches stored mayHold) env ResultPage.shown
      (c.resolveIn context) (c.shown context stored) := by
  obtain ⟨hview, -⟩ := view_of_reaches hreaches
  have haccess := h.access
  have hreliable := h.reliable
  rw [← hview] at haccess hreliable ⊢
  exact PageCursor.shows_resolveIn (h.writesNothing c context hreaches) haccess
    fun hcache => hreliable hcache c context hreaches

theorem Served.shows_readFirst {v : CollectionView} {mode : ReadMode} {query : Query}
    (h : (first v mode query).Served env stored mayHold) (hchecked : mode.checked = .ok ()) :
    Shows (Faithful v.store.caches stored mayHold) env ResultPage.shown (v.readFirst mode query)
      (do
        let context ← v.context true
        let spec ← v.prepared mode.operation query context
        (PageCursor.first v spec mode).shown context stored) := by
  unfold CollectionView.readFirst
  apply (shows_lift (v.context true)).bind
  intro context hcontext
  have hprepare : Shows (Faithful v.store.caches stored mayHold) env id
      (v.prepare mode.operation query context) (v.prepared mode.operation query context) :=
    (CollectionView.tells_prepare mode.operation query).reads.shows (fun _ hw => hw.collections)
      fun _ events hw => hw.withEvents events
  apply hprepare.bind
  intro spec hspec
  exact h.shows_resolveIn (reaches_first hchecked hcontext hspec)

/-- A read that is served faithfully shows what it would show without a cache. -/
theorem Served.shows_perform (h : r.Served env stored mayHold) :
    Shows (Faithful r.view.store.caches stored mayHold) env ResultPage.shown r.perform
      (r.shown stored) := by
  cases r with
  | first v mode query =>
      simp only [shown, reaches, bind_assoc, pure_bind]
      cases mode with
      | find => exact h.shows_readFirst rfl
      | run => exact h.shows_readFirst rfl
      | distinct field =>
          exact (shows_lift (checkField field)).bind fun _ hchecked => h.shows_readFirst hchecked
  | turn page t =>
      rw [perform, page.turn_eq_resolve]
      simp only [shown, reaches, bind_assoc, pure_bind]
      exact (shows_lift (page.cursor.view.context true)).bind fun context hcontext =>
        h.shows_resolveIn (reaches_turn hcontext)

end PageRead

/-! ### Histories -/

/-- Reads one after the other, each in its environment. -/
abbrev History := List (Environment × PageRead)

namespace History

def answers : History → World → List (Outcome (List Value × Nat))
  | [], _ => []
  | (env, r) :: rest, w =>
    (r.perform.run env w).1.map ResultPage.shown :: answers rest (r.perform.run env w).2

def withoutCache (history : History) : History :=
  history.map fun item => (item.1, item.2.withoutCache)

/-- Some read of a history looks for the page of a cursor in a cache. -/
def LooksUp (history : History) (c : PageCursor) (context : HookContext) : Prop :=
  ∃ item ∈ history, item.2.view.options.useCache = true ∧ item.2.reaches = .ok (c, context)

/-- The reads of a history go to one collection and one registry of caches, get the collection,
and write nothing. -/
structure InOneCollection (history : History) (place : Nat) (database name : String) : Prop where
  caches : ∀ item ∈ history, item.2.view.store.caches = place
  database : ∀ item ∈ history, item.2.view.store.config.database = database
  name : ∀ item ∈ history, item.2.view.name = name
  access : ∀ item ∈ history, item.1.access item.2.view.name item.2.view.acquireOptions = .ok ()
  writesNothing : ∀ item ∈ history, ∀ c context, item.2.reaches = .ok (c, context) →
    c.spec.WritesNothing

/-- Two reads that look at the same entry are reads of one query, or ask the same. -/
structure ToldApart (history : History) (place : Nat) (name : String) (w : World) : Prop where
  byEntry : ∀ c context d context', history.LooksUp c context → history.LooksUp d context' →
    ∀ entry, c.entry context = .ok entry → d.entry context' = .ok entry →
    c.SameQuery d ∨ c.asked context = d.asked context'
  /-- The caches begin without the entries that are looked for. -/
  fresh : ∀ c context, history.LooksUp c context → ∀ (request : PageRequest),
    ∀ found ∈ ((w.registries place).cache request.category).entries,
    c.entry context ≠ .ok (request.category, found.1)
  /-- All rows can be counted in a word. -/
  totals : ∀ c context, history.LooksUp c context → ∀ question snapshot,
    c.asked context = .ok question → question.answer name w.collections = .ok snapshot →
    snapshot.total ≤ Value.maxWord

/-- A value that may stand in a cache under a key: it is the answer to every read that looks
there. -/
def MayHold (history : History) (name : String) (stored : Collections)
    (category : CacheCategory) (key : String) (value : Value) : Prop :=
  ∀ c context, history.LooksUp c context → c.entry context = .ok (category, key) →
    ∃ question snapshot, c.asked context = .ok question ∧
      question.answer name stored = .ok snapshot ∧ value = snapshot.encode

variable {history : History} {place : Nat} {database name : String} {w : World}

theorem LooksUp.context_eq (hone : history.InOneCollection place database name) {c : PageCursor}
    {context : HookContext} (h : history.LooksUp c context) :
    context.database = database ∧ context.collection = name := by
  obtain ⟨item, hitem, -, hreaches⟩ := h
  obtain ⟨-, hcontext⟩ := PageRead.view_of_reaches hreaches
  obtain ⟨hdatabase, hcollection⟩ := CollectionView.eq_of_context hcontext
  exact ⟨hdatabase.trans (hone.database item hitem), hcollection.trans (hone.name item hitem)⟩

/-- Reads that look at the same entry ask the same. -/
theorem ToldApart.asked_eq (hone : history.InOneCollection place database name)
    (hapart : history.ToldApart place name w) {c d : PageCursor} {context context' : HookContext}
    (hc : history.LooksUp c context) (hd : history.LooksUp d context')
    {entry : CacheCategory × String} (hentry : c.entry context = .ok entry)
    (hentry' : d.entry context' = .ok entry) : c.asked context = d.asked context' := by
  rcases hapart.byEntry c context d context' hc hd entry hentry hentry' with hsame | hasked
  · obtain ⟨hdatabase, hcollection⟩ := hc.context_eq hone
    obtain ⟨hdatabase', hcollection'⟩ := hd.context_eq hone
    exact PageCursor.asked_eq_of_entry hsame (hdatabase.trans hdatabase'.symm)
      (hcollection.trans hcollection'.symm) hentry hentry'
  · exact hasked

theorem ToldApart.reliable (hone : history.InOneCollection place database name)
    (hapart : history.ToldApart place name w) {c : PageCursor} {context : HookContext}
    (hname : c.view.name = name) (hc : history.LooksUp c context) :
    c.Reliable context w.collections (history.MayHold name w.collections) := by
  constructor
  · intro entry question snapshot hentry hquestion hanswer d context' hd hentry'
    refine ⟨question, snapshot, ?_, hname ▸ hanswer, rfl⟩
    rw [← hquestion]
    exact hapart.asked_eq hone hd hc hentry' hentry
  · intro entry value hentry hmay
    obtain ⟨question, snapshot, hquestion, hanswer, hvalue⟩ := hmay c context hc hentry
    exact ⟨question, snapshot, hquestion, hname ▸ hanswer, hvalue,
      hapart.totals c context hc question snapshot hquestion hanswer⟩

theorem ToldApart.faithful (hapart : history.ToldApart place name w) :
    Faithful place w.collections (history.MayHold name w.collections) w :=
  ⟨rfl, fun request found hfound c context hc hentry =>
    absurd hentry (hapart.fresh c context hc request found hfound)⟩

theorem ToldApart.served (hone : history.InOneCollection place database name)
    (hapart : history.ToldApart place name w) :
    ∀ item ∈ history, item.2.Served item.1 w.collections
      (history.MayHold name w.collections) := by
  intro item hitem
  refine ⟨hone.access item hitem, hone.writesNothing item hitem, ?_⟩
  intro hcache c context hreaches
  obtain ⟨hview, -⟩ := PageRead.view_of_reaches hreaches
  have hname : c.view.name = name := by rw [hview, hone.name item hitem]
  exact hapart.reliable hone hname ⟨item, hitem, hcache, hreaches⟩

/-- Reads that look at no cache are served whatever the caches hold. -/
theorem InOneCollection.served_withoutCache (hone : history.InOneCollection place database name)
    (stored : Collections) :
    ∀ item ∈ history.withoutCache, item.2.Served item.1 stored fun _ _ _ => True := by
  intro item hitem
  obtain ⟨cached, hcached, rfl⟩ := List.mem_map.mp hitem
  have hview : cached.2.withoutCache.view = cached.2.view.withoutCache := by
    cases cached.2 <;> rfl
  refine ⟨?_, ?_, ?_⟩
  · rw [hview]
    exact hone.access cached hcached
  · intro c context hreaches
    rw [PageRead.reaches_withoutCache] at hreaches
    cases hcursor : cached.2.reaches with
    | error e =>
        rw [hcursor] at hreaches
        cases hreaches
    | ok reached =>
        rw [hcursor] at hreaches
        cases hreaches
        exact hone.writesNothing cached hcached reached.1 reached.2 hcursor
  · intro hcache
    rw [hview] at hcache
    cases hcache

/-- Faithful caches stay faithful along a history, so every read shows what it shows without
them. -/
theorem answers_eq {stored : Collections} {mayHold : CacheCategory → String → Value → Prop}
    (hplace : ∀ item ∈ history, item.2.view.store.caches = place)
    (hserved : ∀ item ∈ history, item.2.Served item.1 stored mayHold)
    (hw : Faithful place stored mayHold w) :
    history.answers w = history.map fun item => item.2.shown stored := by
  induction history generalizing w with
  | nil => rfl
  | cons item rest ih =>
      obtain ⟨hfirst, hrest⟩ := List.forall_mem_cons.mp hserved
      obtain ⟨hcaches, hothers⟩ := List.forall_mem_cons.mp hplace
      have hshows := hfirst.shows_perform
      rw [hcaches] at hshows
      obtain ⟨hanswer, hafter⟩ := hshows w hw
      rw [answers, List.map_cons, hanswer, ih hothers hrest hafter]

/-- Reads through the caches show what the same reads show without them. -/
theorem answers_withoutCache (hone : history.InOneCollection place database name)
    (hapart : history.ToldApart place name w) :
    history.answers w = history.withoutCache.answers w := by
  have hplace : ∀ item ∈ history.withoutCache, item.2.view.store.caches = place := by
    intro item hitem
    obtain ⟨cached, hcached, rfl⟩ := List.mem_map.mp hitem
    rw [← hone.caches cached hcached]
    cases cached.2 <;> rfl
  calc
    history.answers w = history.map fun item => item.2.shown w.collections :=
      answers_eq hone.caches (hapart.served hone) hapart.faithful
    _ = history.withoutCache.map fun item => item.2.shown w.collections := by
      rw [withoutCache, List.map_map]
      exact List.map_congr_left fun item _ => (item.2.shown_withoutCache w.collections).symm
    _ = history.withoutCache.answers w :=
      (answers_eq hplace (hone.served_withoutCache w.collections)
        ⟨rfl, fun _ _ _ => trivial⟩).symm

end History

/-! ### Notes read by two people -/

namespace HistoryExample

open OwnedExample (note world environment)

def view (owner : String) (onlyOwned : Bool) : CollectionView :=
  { store := { Store.basic 0 with identity := .fixed ⟨owner, []⟩ }
    name := "notes"
    options := { OperationOptions.default with useCache := true, onlyOwned } }

def context (owner : String) : HookContext :=
  ⟨StoreConfig.default.database, "notes", some owner, []⟩

def query : Query :=
  Query.empty.calls [.order Item.idField .descending, .limit 1]

def spec : QuerySpec := query.spec .empty

/-- The third read finds the entry of the first one, and the fourth one does not. -/
def reads : List PageRead :=
  [.first (view "ann" true) .find query, .first (view "bob" true) .find query,
    .first (view "ann" true) .find query, .first (view "ann" false) .find query,
    .first (view "bob" false) .run query,
    .first (view "bob" false) (.distinct Item.ownerField) query,
    .turn ⟨[], 0, true, PageCursor.first (view "ann" true) spec .find⟩ .next]

def history : History :=
  reads.map fun r => (environment, r)

def notes : World :=
  world [note "1" "ann", note "2" "bob", note "3" "ann"]

/-- Whether a cursor belongs to the query, and no more rows than there are notes are counted. -/
structure Ordinary (c : PageCursor) (context : HookContext) : Prop where
  spec : c.spec = spec
  exactCount : c.view.options.exactCount = true
  page : c.page.size = 1 ∧ c.page.skip = 0
  total : ((c.asked context).bind fun question =>
    question.answer "notes" notes.collections).toOption.all (fun s => s.total ≤ 3) = true

theorem reaches_view (owner : String) (onlyOwned : Bool) {mode : ReadMode}
    (hchecked : mode.checked = .ok ()) :
    (PageRead.first (view owner onlyOwned) mode query).reaches =
      .ok (PageCursor.first (view owner onlyOwned) spec mode, context owner) := by
  have hprepared : (view owner onlyOwned).prepared mode.operation query (context owner) =
      .ok spec := rfl
  exact PageRead.reaches_first hchecked rfl hprepared

/-- Whether a read reaches such a cursor. -/
def ReachesOrdinary (r : PageRead) : Prop :=
  ∃ c context, r.reaches = .ok (c, context) ∧ Ordinary c context

theorem reachesOrdinary_view {owner : String} {onlyOwned : Bool} {mode : ReadMode}
    (hchecked : mode.checked = .ok ())
    (htotal : (((PageCursor.first (view owner onlyOwned) spec mode).asked (context owner)).bind
      fun question => question.answer "notes" notes.collections).toOption.all
        (fun s => s.total ≤ 3) = true) :
    ReachesOrdinary (.first (view owner onlyOwned) mode query) :=
  ⟨_, _, reaches_view owner onlyOwned hchecked, rfl, rfl, ⟨rfl, rfl⟩, htotal⟩

theorem reachesOrdinary : ∀ r ∈ reads, ReachesOrdinary r := by
  have hfind : ∀ owner ∈ ["ann", "bob"], ∀ onlyOwned : Bool,
      ReachesOrdinary (.first (view owner onlyOwned) .find query) := by
    intro owner howner onlyOwned
    apply reachesOrdinary_view rfl
    revert owner onlyOwned
    decide +kernel
  have hrun : ReachesOrdinary (.first (view "bob" false) .run query) :=
    reachesOrdinary_view rfl (by decide +kernel)
  have hdistinct : ReachesOrdinary (.first (view "bob" false) (.distinct Item.ownerField) query) :=
    reachesOrdinary_view rfl (by decide +kernel)
  have hturn : ReachesOrdinary
      (.turn ⟨[], 0, true, PageCursor.first (view "ann" true) spec .find⟩ .next) :=
    ⟨_, context "ann", PageRead.reaches_turn rfl, rfl, rfl, ⟨rfl, rfl⟩, by decide +kernel⟩
  have hann := hfind "ann" List.mem_cons_self
  have hbob := hfind "bob" (List.mem_cons_of_mem _ List.mem_cons_self)
  simp only [reads, List.forall_mem_cons]
  exact ⟨hann true, hbob true, hann true, hann false, hrun, hdistinct, hturn,
    List.forall_mem_nil _⟩

theorem ordinary_of_reaches {item : Environment × PageRead} (hitem : item ∈ history)
    {c : PageCursor} {context : HookContext} (h : item.2.reaches = .ok (c, context)) :
    Ordinary c context := by
  obtain ⟨r, hr, rfl⟩ := List.mem_map.mp hitem
  obtain ⟨c', context', hreached, hordinary⟩ := reachesOrdinary r hr
  cases hreached.symm.trans h
  exact hordinary

theorem inOneCollection :
    history.InOneCollection 0 StoreConfig.default.database "notes" where
  caches := by decide
  database := by decide
  name := by decide
  access := fun item hitem => by
    obtain ⟨r, -, rfl⟩ := List.mem_map.mp hitem
    rfl
  writesNothing := fun item hitem c context h => by
    rw [(ordinary_of_reaches hitem h).spec]
    exact ⟨rfl, rfl, nofun⟩

theorem toldApart : history.ToldApart 0 "notes" notes where
  byEntry := fun c context d context' ⟨_, hitem, _, hc⟩ ⟨_, hitem', _, hd⟩ _ _ _ => by
    have h := ordinary_of_reaches hitem hc
    have h' := ordinary_of_reaches hitem' hd
    exact .inl (PageCursor.sameQuery_of_spec (h.spec.trans h'.spec.symm)
      (h.exactCount.trans h'.exactCount.symm) (h.page.1.trans h'.page.1.symm)
      (h.page.2.trans h'.page.2.symm))
  fresh := fun _ _ _ _ _ hfound => nomatch hfound
  totals := fun c context ⟨_, hitem, _, hc⟩ question snapshot hquestion hanswer => by
    have h := (ordinary_of_reaches hitem hc).total
    rw [hquestion] at h
    simp only [Except.bind, hanswer] at h
    have hthree : snapshot.total ≤ 3 := of_decide_eq_true h
    exact hthree.trans (by decide)

end HistoryExample

open HistoryExample in
theorem History.answers_withoutCache_of_two_readers :
    history.ToldApart 0 "notes" notes ∧
      history.answers notes = history.withoutCache.answers notes :=
  ⟨toldApart, History.answers_withoutCache inOneCollection toldApart⟩

namespace HistoryExample

open OwnedExample (world environment)

def totals (history : History) (w : World) : List (Option Nat) :=
  (history.answers w).map fun answer => answer.toOption.map Prod.snd

def all : CollectionView := view "ann" false

def comparing (field : String) (operand : Value) : Query :=
  Query.ofFilter (Filter.empty.calls [.compare .eq field operand])

/-- A total is estimated, and counted then. -/
def recounted : History :=
  [(environment, .first { all with options := { all.options with exactCount := false } } .find
      (comparing Item.ownerField (.string "ann"))),
    (environment, .first all .find (comparing Item.ownerField (.string "ann")))]

/-- Two joins with one output, the first or the second of which is unwound. -/
def joining (first second : Bool) : Query :=
  Query.empty.calls
    [.attach { Join.on "x" "notes" with foreign := "x", output := "y", unwound := first },
      .attach { Join.on "z" "notes" with foreign := "x", output := "y", unwound := second }]

/-- Two queries have the same rows and count different ones. -/
def rejoined : History :=
  [(environment, .first all .find (joining true false)),
    (environment, .first all .find (joining false true))]

def linked : World :=
  world [[("x", .string "k")], [("x", .string "k")]]

/-- The text of this value is that of the smallest key. -/
def lookalike : Value :=
  .document [("$minKey", .int32 1)]

/-- Two queries have the same text and different rows. -/
def mistaken : History :=
  [(environment, .first all .find (comparing "x" .minKey)),
    (environment, .first all .find (comparing "x" lookalike))]

def keyed : World :=
  world [[("x", .minKey)], [("x", lookalike)], [("x", lookalike)]]

end HistoryExample

open HistoryExample in
/-- What reads that look at the same entry have in common cannot be dropped. -/
theorem History.answers_ne_withoutCache :
    (totals recounted notes = [some 3, some 3] ∧
      totals recounted.withoutCache notes = [some 3, some 2]) ∧
    (totals rejoined linked = [some 4, some 4] ∧
      totals rejoined.withoutCache linked = [some 4, some 2]) ∧
    (totals mistaken keyed = [some 1, some 1] ∧
      totals mistaken.withoutCache keyed = [some 1, some 2]) := by
  decide +kernel

end DocumentBase
