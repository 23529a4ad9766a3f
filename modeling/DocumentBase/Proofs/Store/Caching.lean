import DocumentBase.Proofs.Action.Showing
import DocumentBase.Proofs.Cache.Entries
import DocumentBase.Proofs.Store.Sharing

/-!
# Reading through a cache

The caches of a store are faithful as long as every entry is the answer to the question of each
read that looks at it.  Then a read shows the same whether it finds an entry, does not find one,
or does not look for one, and the caches are faithful afterwards.
-/

namespace DocumentBase

open DocumentBase.Action

/-- The collections are given, and every entry in the caches for reads at a place is one that may
be there. -/
structure Faithful (place : Nat) (stored : Collections)
    (mayHold : CacheCategory → String → Value → Prop) (w : World) : Prop where
  collections : w.collections = stored
  entries : ∀ (request : PageRequest),
    ∀ found ∈ ((w.registries place).cache request.category).entries,
      mayHold request.category found.1 found.2.value

namespace Faithful

variable {place : Nat} {stored : Collections} {mayHold : CacheCategory → String → Value → Prop}
  {w : World} {env : Environment}

theorem withEvents (h : Faithful place stored mayHold w) (events : List Event) :
    Faithful place stored mayHold { w with events } :=
  ⟨h.collections, h.entries⟩

/-- Caches stay faithful when a cache is changed so that it only holds what it may hold. -/
theorem onCache {α : Type} (h : Faithful place stored mayHold w) (category : CacheCategory)
    {f : ResultCache → Nat → α × ResultCache}
    (hf : ∀ found ∈ (f ((w.registries place).cache category) env.moment).2.entries,
      mayHold category found.1 found.2.value) :
    Faithful place stored mayHold ((Action.onCache place category f).run env w).2 := by
  refine ⟨h.collections, ?_⟩
  intro request found hfound
  have hplace : ((Action.onCache place category f).run env w).2.registries place =
      (w.registries place).store category
        (f ((w.registries place).cache category) env.moment).2 := by
    simp [Action.run, Action.onCache]
  rw [hplace] at hfound
  by_cases hcategory : request.category = category
  · rw [hcategory, CacheRegistry.cache_store_self] at hfound
    rw [hcategory]
    exact hf found hfound
  · rw [CacheRegistry.cache_store_ne _ _ hcategory] at hfound
    exact h.entries request found hfound

end Faithful

/-- What is seen of a page: its items, and the number of all rows. -/
def ResultPage.shown (r : ResultPage) : List Value × Nat :=
  (r.items, r.total)

namespace PageCursor

variable {stored : Collections} {mayHold : CacheCategory → String → Value → Prop}
  {c : PageCursor} {context : HookContext} {env : Environment} {w : World}

/-- A read may look at a cache and keep its answer there. -/
structure Reliable (c : PageCursor) (context : HookContext) (stored : Collections)
    (mayHold : CacheCategory → String → Value → Prop) : Prop where
  /-- Its own answer may be held. -/
  keeps : ∀ entry question snapshot, c.entry context = .ok entry →
    c.asked context = .ok question → question.answer c.view.name stored = .ok snapshot →
    mayHold entry.1 entry.2 snapshot.encode
  /-- Nothing else may be held under its key. -/
  finds : ∀ entry value, c.entry context = .ok entry → mayHold entry.1 entry.2 value →
    ∃ question snapshot, c.asked context = .ok question ∧
      question.answer c.view.name stored = .ok snapshot ∧ value = snapshot.encode ∧
      snapshot.total ≤ Value.maxWord

/-- What a read fetches: the answer to its question, or the error that is told. -/
def fetched (c : PageCursor) (context : HookContext) (stored : Collections) : Outcome Snapshot := do
  let owner ← c.view.owner context
  let request ← c.request owner
  ((c.question owner request).answer c.view.name stored).mapError
    (·.inOperation c.mode.operation.name c.view.name)

/-- Looking for an entry leaves the caches faithful and finds nothing but what may be held. -/
theorem cached?_spec {request : PageRequest} {key : String}
    (hw : Faithful c.view.store.caches stored mayHold w) :
    ∃ found w', (c.cached? request.category key).run env w = (.ok found, w') ∧
      Faithful c.view.store.caches stored mayHold w' ∧
      ∀ snapshot, found = some snapshot →
        ∃ value, mayHold request.category key value ∧
          Snapshot.decode? value = some snapshot := by
  have hheld := hw.entries request
  have hget : Faithful c.view.store.caches stored mayHold
      ((Action.onCache c.view.store.caches request.category fun cache now =>
        cache.get key now).run env w).2 :=
    hw.onCache request.category fun found hfound =>
      hheld found (ResultCache.mem_of_mem_get hfound)
  refine ⟨_, _, rfl, hget, ?_⟩
  intro snapshot hsnapshot
  obtain ⟨value, hvalue, hdecode⟩ := Option.bind_eq_some_iff.mp hsnapshot
  obtain ⟨entry, hentry, rfl⟩ := ResultCache.exists_mem_of_get hvalue
  exact ⟨entry.value, hheld _ hentry, hdecode⟩

theorem shows_keep {request : PageRequest} {key : String} {snapshot : Snapshot}
    (hmay : mayHold request.category key snapshot.encode) :
    Shows (Faithful c.view.store.caches stored mayHold) env id
      (c.keep request.category key snapshot) (.ok ()) := by
  intro w hw
  have hset : Faithful c.view.store.caches stored mayHold
      ((Action.onCache c.view.store.caches request.category fun cache now =>
        cache.set key snapshot.encode now).run env w).2 := by
    apply hw.onCache request.category
    intro found hfound
    rcases ResultCache.mem_of_mem_set hfound with hold | rfl
    · exact hw.entries request found hold
    · exact hmay
  exact ⟨rfl, hset⟩

variable {owner : Option String} {request : PageRequest}

/-- Running a request shows the answer to the question, and leaves the caches alone. -/
theorem shows_held (hc : c.spec.WritesNothing)
    (haccess : env.access c.view.name c.view.acquireOptions = .ok ())
    (hrequest : c.request owner = .ok request) :
    Shows (Faithful c.view.store.caches stored mayHold) env id
      (c.view.holding c.mode.operation (c.execute owner request))
      (((c.question owner request).answer c.view.name stored).mapError
        (·.inOperation c.mode.operation.name c.view.name)) := by
  have hquestion : Reads env (c.execute owner request) fun stored =>
      (c.question owner request).answer c.view.name stored := reads_question hc hrequest
  have hshows := (hquestion.holding c.view c.mode.operation).shows
    (I := Faithful c.view.store.caches stored mayHold)
    (fun _ hw => hw.collections) fun _ events hw => hw.withEvents events
  rw [haccess] at hshows
  exact hshows

/-- Nothing is found under the key of a read but the answer to its question. -/
theorem Reliable.answer_eq (hreliable : c.Reliable context stored mayHold)
    (howner : c.view.owner context = .ok owner) (hrequest : c.request owner = .ok request)
    {value : Value} (hmay : mayHold request.category (c.cacheKey context request).render value)
    {snapshot : Snapshot} (hdecode : Snapshot.decode? value = some snapshot) :
    (c.question owner request).answer c.view.name stored = .ok snapshot := by
  obtain ⟨question, kept, hquestion, hanswer, rfl, htotal⟩ :=
    hreliable.finds _ value (entry_eq howner hrequest) hmay
  rw [asked_eq howner hrequest] at hquestion
  rw [Except.ok.inj hquestion, hanswer, Snapshot.eq_of_decode?_encode htotal hdecode]

/-- Reading without having found an entry, and keeping what was read. -/
theorem shows_held_keep (hc : c.spec.WritesNothing)
    (haccess : env.access c.view.name c.view.acquireOptions = .ok ())
    (hreliable : c.Reliable context stored mayHold)
    (howner : c.view.owner context = .ok owner) (hrequest : c.request owner = .ok request) :
    Shows (Faithful c.view.store.caches stored mayHold) env Prod.fst
      (do
        let snapshot ← c.view.holding c.mode.operation (c.execute owner request)
        c.keep request.category (c.cacheKey context request).render snapshot
        return (snapshot, false))
      (((c.question owner request).answer c.view.name stored).mapError
        (·.inOperation c.mode.operation.name c.view.name)) := by
  have hentry : c.entry context = .ok (request.category, (c.cacheKey context request).render) :=
    entry_eq howner hrequest
  have hkeep : ∀ snapshot, ((c.question owner request).answer c.view.name stored).mapError
      (·.inOperation c.mode.operation.name c.view.name) = .ok snapshot →
      Shows (Faithful c.view.store.caches stored mayHold) env Prod.fst
        (do
          c.keep request.category (c.cacheKey context request).render snapshot
          return (snapshot, false))
        (pure snapshot) := by
    intro snapshot hsnapshot
    have hanswer := Outcome.mapError_eq_ok.mp hsnapshot
    have hmay := hreliable.keeps _ _ snapshot hentry (asked_eq howner hrequest) hanswer
    exact (shows_keep hmay).bind (f := fun _ => pure snapshot)
      fun _ _ => shows_pure Prod.fst (snapshot, false)
  have hboth := (shows_held hc haccess hrequest).bind hkeep
  rwa [bind_pure] at hboth

/-- A read fetches the answer to its question, from a cache or not. -/
theorem shows_fetch (hc : c.spec.WritesNothing)
    (haccess : env.access c.view.name c.view.acquireOptions = .ok ())
    (hreliable : c.view.options.useCache = true → c.Reliable context stored mayHold) :
    Shows (Faithful c.view.store.caches stored mayHold) env Prod.fst (c.fetch context)
      (c.fetched context stored) := by
  unfold fetch fetched
  apply (shows_lift (c.view.owner context)).bind
  intro owner howner
  apply (shows_lift (c.request owner)).bind
  intro request hrequest
  rw [id] at howner hrequest
  simp only [id]
  cases hcache : c.view.options.useCache with
  | false => exact (shows_held hc haccess hrequest).map fun _ => rfl
  | true =>
      intro w hw
      obtain ⟨found, w', hrun, hw', hfound⟩ :
          ∃ found w', (c.cached? request.category (c.cacheKey context request).render).run env w =
              (.ok found, w') ∧ Faithful c.view.store.caches stored mayHold w' ∧ _ :=
        cached?_spec hw
      simp only [if_true]
      rw [run_bind_of_ok hrun]
      cases found with
      | some snapshot =>
          obtain ⟨value, hmay, hdecode⟩ := hfound snapshot rfl
          rw [(hreliable hcache).answer_eq howner hrequest hmay hdecode]
          exact ⟨rfl, hw'⟩
      | none => exact shows_held_keep hc haccess (hreliable hcache) howner hrequest w' hw'

/-- What is seen of the page of a cursor, as the hook after the operation leaves it. -/
def shown (c : PageCursor) (context : HookContext) (stored : Collections) :
    Outcome (List Value × Nat) := do
  let snapshot ← (c.fetched context stored).mapError
    (·.inOperation c.mode.operation.name c.view.name)
  let items ← (c.view.answer c.mode.operation (.items snapshot.items) context).asItems
  return (items, snapshot.total)

/-- A page that is resolved with a cache shows what the stored documents give, and the cache stays
faithful. -/
theorem shows_resolveIn (hc : c.spec.WritesNothing)
    (haccess : env.access c.view.name c.view.acquireOptions = .ok ())
    (hreliable : c.view.options.useCache = true → c.Reliable context stored mayHold) :
    Shows (Faithful c.view.store.caches stored mayHold) env ResultPage.shown
      (c.resolveIn context) (c.shown context stored) := by
  unfold resolveIn shown
  apply ((shows_fetch hc haccess hreliable).inOperation c.mode.operation c.view.name).bind
  rintro ⟨snapshot, fromCache⟩ -
  have hafter : Shows (Faithful c.view.store.caches stored mayHold) env id
      (c.view.after c.mode.operation (.items snapshot.items) context)
      (.ok (c.view.answer c.mode.operation (.items snapshot.items) context)) :=
    (c.view.tells_after env _ _ _).reads.shows (fun _ hw => hw.collections)
      fun _ events hw => hw.withEvents events
  refine hafter.bind (f := fun result => do return (← result.asItems, snapshot.total)) ?_
  intro result _
  apply (shows_lift result.asItems).bind
  intro items _
  exact shows_pure ResultPage.shown _

end PageCursor

end DocumentBase
