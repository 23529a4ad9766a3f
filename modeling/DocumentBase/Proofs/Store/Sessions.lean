import DocumentBase.Proofs.Action.Invariance
import DocumentBase.Proofs.Store.Ownership
import DocumentBase.Proofs.Store.Pages
import DocumentBase.Proofs.Store.Transitions

/-!
# Sessions

In a session operations run one after the other on the collections of one world, each through a
view of its own and in an environment of its own.  An operation may fail; the session goes on.
What every operation keeps of the collections, a whole session keeps.
-/

namespace DocumentBase

open DocumentBase.Action

/-- The operations of a session: those that write, and the first pages of queries. -/
inductive StoreCall where
  | write (call : WriteCall)
  | read (mode : ReadMode) (query : Query)

def StoreCall.perform (v : CollectionView) : StoreCall → Action Unit
  | write call => do let _ ← call.perform v
  | read mode query => do let _ ← ReadCall.firstPage v query mode

/-- An operation, with the view and the environment that it has. -/
structure SessionStep where
  environment : Environment
  view : CollectionView
  call : StoreCall

abbrev Session := List SessionStep

namespace Session

/-- The world after a session.  Results and errors are not looked at. -/
def run : Session → World → World
  | [], w => w
  | step :: rest, w => run rest ((step.call.perform step.view).run step.environment w).2

/-- What every step keeps holds after the whole session. -/
theorem keeps {P : Collections → Prop} {session : Session}
    (h : ∀ step ∈ session, Keeps P (step.call.perform step.view)) {w : World}
    (hw : P w.collections) : P (session.run w).collections := by
  induction session generalizing w with
  | nil => exact hw
  | cons step rest ih =>
      obtain ⟨hstep, hrest⟩ := List.forall_mem_cons.mp h
      exact ih hrest (hstep step.environment w hw)

end Session

/-! ### Properties of all collections -/

namespace Collections

/-- Every collection has a property, the missing ones included. -/
def Each (R : List Document → Prop) (c : Collections) : Prop :=
  ∀ name, R (c.rows name)

theorem Each.store {R : List Document → Prop} {c : Collections} (h : c.Each R) (name : String)
    {rows : List Document} (hrows : R rows) : (c.store name rows).Each R := by
  intro other
  by_cases hne : name = other
  · subst hne
    rwa [Collections.rows, rows?_store_self]
  · rw [Collections.rows, rows?_store_ne c rows hne]
    exact h other

theorem each_nil {R : List Document → Prop} (h : R []) : Each R [] :=
  fun _ => h

end Collections

variable {P : Collections → Prop} {v : CollectionView}

/-! ### Writes -/

/-- A write keeps what its steps keep. -/
theorem StoreCall.keeps_write {call : WriteCall}
    (h : ∀ context c operation written c', v.context false = .ok context → P c →
      call.Step v context c operation written c' → P c') :
    Keeps P ((write call).perform v) := by
  have hcall : Keeps P (call.perform v) := by
    refine (v.fulfils_call call).keeps ?_
    rintro result start now hstart ⟨operation, context, written, hcontext, hstep, -⟩
    exact h context start operation written now hcontext hstart hstep
  exact hcall.bind fun _ => keeps_pure ()

/-! ### Queries -/

/-- Storing rows keeps a property of the collections. -/
def Sink.Keeps (P : Collections → Prop) (sink : Sink) : Prop :=
  ∀ c rows, P c → P (sink.apply c rows)

/-- Whatever a query asks to be written keeps a property of the collections. -/
structure QuerySpec.Keeps (P : Collections → Prop) (q : QuerySpec) : Prop where
  page : ∀ {page owner force p sink}, q.compile page owner force = .ok (.aggregate p) →
    p.sink? = some sink → sink.Keeps P
  count : ∀ {owner p sink}, q.countRequest owner = .ok (.pipeline p) →
    p.sink? = some sink → sink.Keeps P

theorem keeps_aggregate {name : String} {p : Pipeline}
    (hp : ∀ sink, p.sink? = some sink → sink.Keeps P) :
    Keeps P (Action.change fun c => c.aggregate name p) := by
  apply keeps_change
  intro c result c' hc h
  obtain ⟨rows, -, h⟩ := Outcome.bind_eq_ok.mp h
  cases hsink : p.sink? with
  | some sink =>
      simp only [hsink] at h
      cases h
      exact hp sink hsink c rows hc
  | none =>
      simp only [hsink] at h
      cases h
      exact hc

theorem keeps_countRows {name : String} {exact : Bool} {request : CountRequest}
    (h : ∀ p sink, request = .pipeline p → p.sink? = some sink → sink.Keeps P) :
    Keeps P (countRows name exact request) := by
  cases request with
  | documents criteria => exact keeps_read _
  | pipeline p => exact (keeps_aggregate fun sink => h p sink rfl).bind fun _ => keeps_pure _

namespace PageCursor

variable {c : PageCursor}

/-- A query keeps what its pipelines for pages and for the total keep. -/
theorem keeps_execute (hq : c.spec.Keeps P) {owner : Option String} {request : PageRequest}
    (hrequest : c.request owner = .ok request) : Keeps P (c.execute owner request) := by
  rcases request_cases hrequest with ⟨field, -, rfl⟩ | ⟨force, compiled, -, hcompile, rfl⟩
  · exact (keeps_read _).bind fun _ => keeps_pure _
  · have htotal : ∀ rows : List Document, Keeps P (do
        let total ← countRows c.view.name c.view.options.exactCount
          (← c.spec.countRequest owner)
        return (⟨rows.map Value.document, total⟩ : Snapshot)) := by
      intro rows
      apply keeps_lift_bind
      intro counted hcounted
      refine (keeps_countRows ?_).bind fun _ => keeps_pure _
      rintro p sink rfl
      exact hq.count hcounted
    cases compiled with
    | find found => exact (keeps_read _).bind htotal
    | aggregate p => exact (keeps_aggregate fun _ => hq.page hcompile).bind htotal

theorem keeps_fetch (hq : c.spec.Keeps P) (context : HookContext) :
    Keeps P (c.fetch context) := by
  apply keeps_lift_bind
  intro owner _
  apply keeps_lift_bind
  intro request hrequest
  have hheld : Keeps P (c.view.holding c.mode.operation (c.execute owner request)) :=
    (keeps_execute hq hrequest).holding c.view c.mode.operation
  dsimp only
  split
  · refine (c.quiet_cached? _ _).keeps.bind fun found => ?_
    cases found with
    | some kept => exact keeps_pure _
    | none =>
        refine hheld.bind fun snapshot => ?_
        have hkeep := quiet_onCache c.view.store.caches request.category fun cache now =>
          cache.set (c.cacheKey context request).render snapshot.encode now
        exact (hkeep.bind fun _ => quiet_pure ()).keeps.bind fun _ => keeps_pure _
  · exact hheld.bind fun _ => keeps_pure _

theorem keeps_resolveIn (hq : c.spec.Keeps P) (context : HookContext) :
    Keeps P (c.resolveIn context) := by
  refine ((keeps_fetch hq context).inOperation c.mode.operation c.view.name).bind ?_
  rintro ⟨snapshot, fromCache⟩
  have htold : ∀ env, Tells env (c.view.after c.mode.operation (.items snapshot.items) context) _ :=
    fun env => c.view.tells_after env _ _ context
  exact keeps_tells_bind htold fun result _ => keeps_lift_bind fun items _ => keeps_pure _

end PageCursor

/-- A query keeps what storing its rows keeps. -/
theorem StoreCall.keeps_read {mode : ReadMode} {query : Query}
    (h : ∀ context spec, v.context true = .ok context →
      v.prepared mode.operation query context = .ok spec → spec.Keeps P) :
    Keeps P ((read mode query).perform v) := by
  have hfirst : Keeps P (v.readFirst mode query) := by
    apply keeps_lift_bind
    intro context hcontext
    refine keeps_tells_bind (fun env => v.tells_prepare mode.operation query) fun spec hspec => ?_
    exact PageCursor.keeps_resolveIn (h context spec hcontext hspec) context
  have hpage : Keeps P (ReadCall.firstPage v query mode) := by
    cases mode with
    | find => exact hfirst
    | run => exact hfirst
    | distinct field => exact keeps_lift_bind fun _ _ => hfirst
  exact hpage.bind fun _ => keeps_pure ()

/-! ### Examples -/

namespace SessionExample

def view (name : String) : CollectionView :=
  (Store.basic 0).collection name

def empty : World :=
  { OwnedExample.world [] with collections := [] }

def note (id : Value) (text : String) : Document :=
  [(Item.idField, id), ("text", .string text)]

def step (name : String) (call : StoreCall) : SessionStep :=
  ⟨OwnedExample.environment, view name, call⟩

end SessionExample

end DocumentBase
