import DocumentBase.Proofs.Action.Agreement
import DocumentBase.Proofs.Pipeline.Locality
import DocumentBase.Proofs.Value.Sameness
import DocumentBase.Store.Reading

/-!
# Owned reads

A read that is restricted to the acting identity cannot tell collections apart that hold the
same documents of this identity.  Queries select these documents before they do anything else;
a look-up by identity drops a document of somebody else after it was found, which comes to the
same because identities are unique.
-/

namespace DocumentBase

open DocumentBase.Action

/-! ### Collections with the same owned documents -/

/-- No two documents have the same identity. -/
def DistinctIds (rows : List Document) : Prop :=
  rows.Pairwise fun d e => ∀ i j, d.value? Item.idField = some i →
    e.value? Item.idField = some j → i.same j = false

/-- A collection exists on both sides, its identities are unique, and the same documents in it
match the condition on the owner. -/
structure SameOwned (owner name : String) (c₁ c₂ : Collections) : Prop where
  left_exists : (c₁.rows? name).isSome = true
  right_exists : (c₂.rows? name).isSome = true
  left_distinct : DistinctIds (c₁.rows name)
  right_distinct : DistinctIds (c₂.rows name)
  selected : (Criteria.fieldIs Item.ownerField owner).select (c₁.rows name) =
    (Criteria.fieldIs Item.ownerField owner).select (c₂.rows name)

variable {owner name : String} {c₁ c₂ : Collections}

theorem Collections.rows?_eq_some_rows {c : Collections} (h : (c.rows? name).isSome = true) :
    c.rows? name = some (c.rows name) := by
  obtain ⟨found, hfound⟩ := Option.isSome_iff_exists.mp h
  rw [rows, hfound]
  rfl

theorem SameOwned.filter_eq (h : SameOwned owner name c₁ c₂) :
    (c₁.rows name).filter (isOwned owner) = (c₂.rows name).filter (isOwned owner) := by
  have hselected := h.selected
  rwa [Criteria.select_owner, Criteria.select_owner, Except.ok.injEq] at hselected

/-- What a query selects for an owner does not depend on the documents of others. -/
theorem SameOwned.select_eq (h : SameOwned owner name c₁ c₂) (q : QuerySpec) :
    (q.ownedCriteria (some owner)).select (c₁.rows name) =
      (q.ownedCriteria (some owner)).select (c₂.rows name) := by
  rw [QuerySpec.ownedCriteria, Criteria.select_owner_and, Criteria.select_owner_and,
    h.filter_eq]

theorem SameOwned.find_eq (h : SameOwned owner name c₁ c₂) (q : QuerySpec)
    {request : FindRequest} (hcriteria : request.criteria = q.ownedCriteria (some owner)) :
    c₁.find name request = c₂.find name request := by
  simp only [Collections.find, Collections.rows?_eq_some_rows h.left_exists,
    Collections.rows?_eq_some_rows h.right_exists, hcriteria, h.select_eq]

theorem SameOwned.count_eq (h : SameOwned owner name c₁ c₂) (q : QuerySpec) :
    c₁.count name (q.ownedCriteria (some owner)) =
      c₂.count name (q.ownedCriteria (some owner)) := by
  simp only [Collections.count, Collections.rows?_eq_some_rows h.left_exists,
    Collections.rows?_eq_some_rows h.right_exists, h.select_eq]

theorem SameOwned.distinct_eq (h : SameOwned owner name c₁ c₂) (q : QuerySpec) (field : String) :
    c₁.distinct name field (q.ownedCriteria (some owner)) =
      c₂.distinct name field (q.ownedCriteria (some owner)) := by
  simp only [Collections.distinct, Collections.rows?_eq_some_rows h.left_exists,
    Collections.rows?_eq_some_rows h.right_exists, h.select_eq]

/-- A pipeline that begins with the documents of an owner and reads no other collection does not
notice what others own. -/
theorem SameOwned.run_eq (h : SameOwned owner name c₁ c₂) {rest : Pipeline}
    (hrest : rest.IsLocal) :
    Pipeline.run c₁ (Pipeline.ownership owner :: rest) (c₁.rows name) =
      Pipeline.run c₂ (Pipeline.ownership owner :: rest) (c₂.rows name) := by
  rw [Pipeline.run_ownership, Pipeline.run_ownership, h.filter_eq]
  exact Pipeline.run_of_isLocal hrest c₁ c₂ _

theorem Collections.aggregate_of_isLocal (c : Collections) (name : String) {p : Pipeline}
    (hp : p.IsLocal) :
    c.aggregate name p = (p.run c (c.rows name)).map fun rows => (rows, c) := by
  rw [aggregate, Pipeline.sink?_of_isLocal hp]
  cases p.run c (c.rows name) <;> rfl

/-! ### Looking up an identity -/

def hasId (id : Value) (d : Document) : Bool :=
  (d.value? Item.idField).any fun other => other.same id

theorem hasId_iff {id : Value} {d : Document} :
    hasId id d = true ↔ ∃ i, d.value? Item.idField = some i ∧ i.same id = true := by
  rw [hasId]
  cases d.value? Item.idField <;> simp

theorem Collections.findById_eq (c : Collections) (id : Value) :
    c.findById name id = (c.rows name).find? (hasId id) :=
  List.find?_eq_bind_findIdx?_getElem?.symm

theorem DistinctIds.not_hasId {d : Document} {rows : List Document} {id : Value}
    (hrows : DistinctIds (d :: rows)) (hd : hasId id d = true) :
    ∀ e ∈ rows, ¬ hasId id e = true := by
  intro e he hid
  obtain ⟨i, hi, hsame⟩ := hasId_iff.mp hd
  obtain ⟨j, hj, hsame'⟩ := hasId_iff.mp hid
  have hij := Value.same_trans hsame (Value.same_symm hsame')
  have hdistinct := (List.pairwise_cons.mp hrows).1 e he i j hi hj
  simp [hij] at hdistinct

/-- It makes no difference whether the documents that may be seen are looked for beforehand. -/
theorem DistinctIds.find?_filter {rows : List Document} (hrows : DistinctIds rows) (id : Value)
    {seen wide : Document → Bool} (hwide : ∀ d, seen d = true → wide d = true) :
    (rows.find? (hasId id)).filter seen = ((rows.filter wide).find? (hasId id)).filter seen := by
  induction rows with
  | nil => rfl
  | cons d rest ih =>
      have hrest := ih (List.pairwise_cons.mp hrows).2
      by_cases hid : hasId id d = true
      · by_cases hd : wide d = true
        · rw [List.filter_cons_of_pos hd, List.find?_cons_of_pos hid, List.find?_cons_of_pos hid]
        · have hothers : (rest.filter wide).find? (hasId id) = none := by
            rw [List.find?_eq_none]
            intro e he
            exact hrows.not_hasId hid e (List.mem_filter.mp he).1
          have hseen : ¬ seen d = true := fun h => hd (hwide d h)
          rw [List.filter_cons_of_neg hd, List.find?_cons_of_pos hid, hothers]
          simp [hseen]
      · by_cases hd : wide d = true
        · rw [List.filter_cons_of_pos hd, List.find?_cons_of_neg hid, List.find?_cons_of_neg hid,
            hrest]
        · rw [List.filter_cons_of_neg hd, List.find?_cons_of_neg hid, hrest]

theorem isOwned_of_isVisible (d : Document)
    (h : CollectionView.isVisible (some owner) d = true) : isOwned owner d = true := by
  simp only [CollectionView.isVisible, beq_iff_eq, Option.bind_eq_some_iff] at h
  obtain ⟨v, hv, htext⟩ := h
  have hstring : v = .string owner := by
    cases v <;> simp [Value.text?] at htext
    rw [htext]
  have hpath : Path.ofString Item.ownerField = [Item.ownerField] := by decide
  have hreach : d.reachAt Item.ownerField = [.string owner] := by
    rw [Document.reachAt, hpath, Document.reach, Value.reach, hv, hstring]
    rfl
  rw [isOwned, hreach]
  simp [Predicate.anyEqual, Predicate.withItems, Value.items?, Value.same, Value.sameScalar]

/-! ### The steps of a read -/

section Steps

variable {env : Environment}

theorem agrees_aggregate {rest : Pipeline} (hrest : rest.IsLocal) :
    Agrees (SameOwned owner name) env
      (Action.change fun c => c.aggregate name (Pipeline.ownership owner :: rest))
      fun _ => True := by
  have hlocal : Pipeline.IsLocal (Pipeline.ownership owner :: rest) := by
    intro stage hstage
    rcases List.mem_cons.mp hstage with rfl | hstage
    · rfl
    · exact hrest stage hstage
  exact agrees_change (fun c => c.aggregate_of_isLocal name hlocal) fun _ _ h => h.run_eq hrest

/-- The total that an owner is told does not depend on the documents of others. -/
theorem QuerySpec.IsLocal.agrees_countRows {q : QuerySpec} (hq : q.IsLocal)
    {request : CountRequest} (hrequest : q.countRequest (some owner) = .ok request) :
    Agrees (SameOwned owner name) env (countRows name true request) fun _ => True := by
  rcases hq.countRequest hrequest with rfl | ⟨rest, rfl, hrest⟩
  · exact agrees_read fun _ _ h => h.count_eq q
  · exact (agrees_aggregate hrest).bind fun _ _ => agrees_pure trivial

theorem PageCursor.agrees_execute (c : PageCursor) (hspec : c.spec.IsLocal)
    (hexact : c.view.options.exactCount = true) {request : PageRequest}
    (hrequest : c.request (some owner) = .ok request) :
    Agrees (SameOwned owner c.view.name) env (c.execute (some owner) request)
      fun _ => True := by
  have hpage : ∀ force, (do return .rows (← c.spec.compile c.page (some owner) force)) =
      Except.ok request → Agrees (SameOwned owner c.view.name) env
        (c.execute (some owner) request) fun _ => True := by
    intro force h
    obtain ⟨compiled, hcompile, hrows⟩ := Outcome.bind_eq_ok.mp h
    obtain rfl := Outcome.pure_eq_ok.mp hrows
    have htotal : ∀ rows : List Document, Agrees (SameOwned owner c.view.name) env
        (do
          let total ← countRows c.view.name c.view.options.exactCount
            (← c.spec.countRequest (some owner))
          return (⟨rows.map Value.document, total⟩ : Snapshot)) fun _ => True := by
      intro rows
      apply agrees_unknown
      intro counted hcounted
      rw [hexact]
      exact (hspec.agrees_countRows hcounted).bind fun _ _ => agrees_pure trivial
    rcases hspec.compile hcompile with ⟨found, rfl, hcriteria⟩ | ⟨rest, rfl, hrest⟩
    · exact (agrees_read fun _ _ hsame => hsame.find_eq c.spec hcriteria).bind
        fun rows _ => htotal rows
    · exact (agrees_aggregate hrest).bind fun rows _ => htotal rows
  cases hmode : c.mode with
  | find => exact hpage false (by simpa [PageCursor.request, hmode] using hrequest)
  | run => exact hpage true (by simpa [PageCursor.request, hmode] using hrequest)
  | distinct field =>
      simp only [PageCursor.request, hmode, Except.ok.injEq] at hrequest
      subst hrequest
      exact (agrees_read fun _ _ hsame => hsame.distinct_eq c.spec field).bind
        fun _ _ => agrees_pure trivial

/-! ### Operations -/

variable {v : CollectionView} {context : HookContext}

/-- How a view reads that is restricted to the acting identity and neither estimates nor
remembers anything. -/
structure CollectionView.ReadsOwned (v : CollectionView) (context : HookContext)
    (owner : String) : Prop where
  context_eq : v.context true = .ok context
  identity : context.identity = some owner
  onlyOwned : v.options.onlyOwned = true
  exactCount : v.options.exactCount = true
  useCache : v.options.useCache = false

theorem CollectionView.ReadsOwned.owner_eq (hv : v.ReadsOwned context owner) :
    v.owner context = .ok (some owner) := by
  simp [CollectionView.owner, hv.onlyOwned, hv.identity]

theorem PageCursor.agrees_resolveIn (c : PageCursor) (hv : c.view.ReadsOwned context owner)
    (hspec : c.spec.IsLocal) :
    Agrees (SameOwned owner c.view.name) env (c.resolveIn context) fun r => r.cursor = c := by
  have hfetch : Agrees (SameOwned owner c.view.name) env (c.fetch context) fun _ => True := by
    unfold PageCursor.fetch
    rw [hv.useCache]
    refine agrees_given hv.owner_eq (agrees_unknown fun request hrequest => ?_)
    apply ((c.agrees_execute hspec hv.exactCount hrequest).holding c.view _).bind
    intro _ _
    exact agrees_pure trivial
  unfold PageCursor.resolveIn
  apply (hfetch.inOperation c.mode.operation c.view.name).bind
  intro read _
  have hafter : Agrees (SameOwned owner c.view.name) env
      (c.view.after c.mode.operation (.items read.1.items) context) fun _ => True :=
    (c.view.tells_after env _ _ _).agrees fun _ _ => trivial
  apply hafter.bind
  intro result _
  exact agrees_unknown fun _ _ => agrees_pure rfl

theorem PageCursor.agrees_resolve (c : PageCursor) (hv : c.view.ReadsOwned context owner)
    (hspec : c.spec.IsLocal) :
    Agrees (SameOwned owner c.view.name) env c.resolve fun r => r.cursor = c := by
  unfold PageCursor.resolve
  exact agrees_given hv.context_eq (c.agrees_resolveIn hv hspec)

/-- Whether every query that the hook before an operation may hand on is local. -/
def CollectionView.PreparesLocal (v : CollectionView) (operation : Operation) (query : Query)
    (context : HookContext) : Prop :=
  ∀ prepared, v.argument operation (.query query) context = .ok (.query prepared) →
    prepared.IsLocal

theorem agrees_prepare {operation : Operation} {query : Query}
    (hlocal : v.PreparesLocal operation query context) :
    Agrees (SameOwned owner v.name) env (v.prepare operation query context)
      fun spec => spec.IsLocal := by
  have hbefore : Agrees (SameOwned owner v.name) env
      (v.before operation (.query query) context)
      fun payload => v.argument operation (.query query) context = .ok payload :=
    (v.tells_before env _ _ _).agrees fun _ h => h
  unfold CollectionView.prepare
  apply hbefore.bind
  intro payload hpayload
  apply agrees_unknown
  intro prepared hprepared
  have hquery : payload = .query prepared := by
    cases payload <;> simp_all [Payload.asQuery]
  subst hquery
  exact agrees_lift fun spec hspec => (hlocal prepared hpayload).build hspec

/-- The first page that an owner reads does not depend on the documents of others. -/
theorem agrees_readFirst (hv : v.ReadsOwned context owner) {mode : ReadMode} {query : Query}
    (hlocal : v.PreparesLocal mode.operation query context) :
    Agrees (SameOwned owner v.name) env (v.readFirst mode query)
      fun r => r.cursor.view = v ∧ r.cursor.spec.IsLocal := by
  unfold CollectionView.readFirst
  apply agrees_given hv.context_eq
  apply (agrees_prepare hlocal).bind
  intro spec hspec
  apply ((PageCursor.first v spec mode).agrees_resolveIn hv hspec).weaken
  intro r hr
  rw [hr]
  exact ⟨rfl, hspec⟩

theorem agrees_counted (n : Nat) :
    Agrees (SameOwned owner v.name) env (v.counted n context) fun _ => True := by
  unfold CollectionView.counted
  have hafter : Agrees (SameOwned owner v.name) env (v.after .count (.count n) context)
      fun _ => True := (v.tells_after env _ _ _).agrees fun _ _ => trivial
  exact hafter.bind fun result _ => agrees_lift fun _ _ => trivial

end Steps

/-! ### Calls -/

/-- A step from a page to the one after or before it. -/
inductive Turn where
  | next
  | prev
deriving DecidableEq, Repr

def ResultPage.turn (r : ResultPage) : Turn → Action ResultPage
  | .next => r.next
  | .prev => r.prev

/-- The operations that read, with their arguments. -/
inductive ReadCall where
  /-- The first page of a query, and from there a number of turns. -/
  | pages (mode : ReadMode) (query : Query) (turns : List Turn)
  | count (query : Query)
  | countDistinct (query : Query) (field : String)
  | get (id : Value)

inductive ReadAnswer where
  | page (r : ResultPage)
  | number (n : Nat)
  | item (d : Option Document)

namespace ReadCall

def firstPage (v : CollectionView) (query : Query) : ReadMode → Action ResultPage
  | .find => v.find query
  | .run => v.run query
  | .distinct field => v.distinct query field

/-- Runs a call; of several pages the last one is the answer. -/
def perform (v : CollectionView) : ReadCall → Action ReadAnswer
  | pages mode query turns => do
    return .page (← turns.foldlM ResultPage.turn (← firstPage v query mode))
  | count query => do return .number (← v.count query)
  | countDistinct query field => do return .number (← v.countDistinct query field)
  | get id => do return .item (← v.get id)

/-- Whether the query of a call stays local, whatever the hook before it makes of it. -/
def IsLocal (v : CollectionView) (context : HookContext) : ReadCall → Prop
  | pages mode query _ => v.PreparesLocal mode.operation query context
  | count query | countDistinct query _ => v.PreparesLocal .count query context
  | get _ => True

end ReadCall

section Calls

variable {env : Environment} {v : CollectionView} {context : HookContext}

theorem agrees_turn (hv : v.ReadsOwned context owner) {r : ResultPage} (hview : r.cursor.view = v)
    (hspec : r.cursor.spec.IsLocal) (turn : Turn) :
    Agrees (SameOwned owner v.name) env (r.turn turn)
      fun r => r.cursor.view = v ∧ r.cursor.spec.IsLocal := by
  subst hview
  have hresolve : ∀ page, Agrees (SameOwned owner r.cursor.view.name) env
      (r.cursor.moveTo page).resolve
      fun r' => r'.cursor.view = r.cursor.view ∧ r'.cursor.spec.IsLocal := by
    intro page
    apply ((r.cursor.moveTo page).agrees_resolve hv hspec).weaken
    intro r' hr'
    rw [hr']
    exact ⟨rfl, hspec⟩
  cases turn with
  | next => exact hresolve _
  | prev => exact hresolve _

/-- Any turns from a page lead to the same pages, whatever others own. -/
theorem agrees_turns (hv : v.ReadsOwned context owner) (turns : List Turn) {r : ResultPage}
    (hview : r.cursor.view = v) (hspec : r.cursor.spec.IsLocal) :
    Agrees (SameOwned owner v.name) env (turns.foldlM ResultPage.turn r) fun _ => True := by
  induction turns generalizing r with
  | nil => exact agrees_pure trivial
  | cons turn rest ih =>
      rw [List.foldlM_cons]
      exact (agrees_turn hv hview hspec turn).bind fun _ hr => ih hr.1 hr.2

theorem agrees_firstPage (hv : v.ReadsOwned context owner) {mode : ReadMode} {query : Query}
    (hlocal : v.PreparesLocal mode.operation query context) :
    Agrees (SameOwned owner v.name) env (ReadCall.firstPage v query mode)
      fun r => r.cursor.view = v ∧ r.cursor.spec.IsLocal := by
  cases mode with
  | find => exact agrees_readFirst hv hlocal
  | run => exact agrees_readFirst hv hlocal
  | distinct field =>
      exact agrees_unknown fun _ _ => agrees_readFirst hv hlocal

theorem agrees_count (hv : v.ReadsOwned context owner) {query : Query}
    (hlocal : v.PreparesLocal .count query context) :
    Agrees (SameOwned owner v.name) env (v.count query) fun _ => True := by
  unfold CollectionView.count
  apply agrees_given hv.context_eq
  apply (agrees_prepare hlocal).bind
  intro spec hspec
  rw [hv.exactCount]
  refine agrees_given hv.owner_eq (agrees_unknown fun request hrequest => ?_)
  exact ((hspec.agrees_countRows hrequest).holding v .count).bind fun n _ => agrees_counted n

theorem agrees_countDistinct (hv : v.ReadsOwned context owner) {query : Query} (field : String)
    (hlocal : v.PreparesLocal .count query context) :
    Agrees (SameOwned owner v.name) env (v.countDistinct query field) fun _ => True := by
  unfold CollectionView.countDistinct
  apply agrees_given hv.context_eq
  apply (agrees_prepare hlocal).bind
  intro spec _
  refine agrees_given hv.owner_eq (agrees_unknown fun p hp => ?_)
  obtain ⟨rest, rfl, hrest⟩ := QuerySpec.distinctCountPipeline_ownership hp
  exact ((agrees_aggregate hrest).holding v .count).bind fun rows _ => agrees_counted _

/-- What is found by its identity is seen only if it belongs to the acting identity. -/
theorem SameOwned.visible_eq (h : SameOwned owner name c₁ c₂) (id : Value) :
    (c₁.findById name id).filter (CollectionView.isVisible (some owner)) =
      (c₂.findById name id).filter (CollectionView.isVisible (some owner)) := by
  rw [Collections.findById_eq, Collections.findById_eq,
    h.left_distinct.find?_filter id isOwned_of_isVisible,
    h.right_distinct.find?_filter id isOwned_of_isVisible, h.filter_eq]

theorem agrees_get (hv : v.ReadsOwned context owner) (id : Value) :
    Agrees (SameOwned owner v.name) env (v.get id) fun _ => True := by
  unfold CollectionView.get
  apply agrees_given hv.context_eq
  have hbefore : Agrees (SameOwned owner v.name) env (v.before .get (.itemId id) context)
      fun _ => True := (v.tells_before env _ _ _).agrees fun _ _ => trivial
  apply hbefore.bind
  intro payload _
  apply agrees_unknown
  intro wanted _
  apply agrees_given hv.owner_eq
  have hread : Agrees (SameOwned owner v.name) env (do
      return (← v.holding .get (Action.read fun c => .ok (c.findById v.name wanted))).filter
        (CollectionView.isVisible (some owner))) fun _ => True :=
    agrees_holding_read v .get _ fun _ _ h => h.visible_eq wanted
  have hafter : ∀ found, Agrees (SameOwned owner v.name) env (do
      let result ← v.after .get (.maybeItem found) context
      result.asMaybeItem) fun _ => True := by
    intro found
    have htold : Agrees (SameOwned owner v.name) env (v.after .get (.maybeItem found) context)
        fun _ => True := (v.tells_after env _ _ _).agrees fun _ _ => trivial
    exact htold.bind fun _ _ => agrees_lift fun _ _ => trivial
  have hget := hread.bind_part fun found _ => hafter found
  exact hget

/-- An owned read has the same answer, be it a result or an error, on all collections that hold
the same documents of the acting identity. -/
theorem ReadCall.answer_eq_of_sameOwned (call : ReadCall) (hv : v.ReadsOwned context owner)
    (hlocal : call.IsLocal v context) {w₁ w₂ : World}
    (hsame : SameOwned owner v.name w₁.collections w₂.collections) :
    ((call.perform v).run env w₁).1 = ((call.perform v).run env w₂).1 := by
  have hagrees : Agrees (SameOwned owner v.name) env (call.perform v) fun _ => True := by
    cases call with
    | pages mode query turns =>
        apply (agrees_firstPage hv hlocal).bind
        intro r hr
        apply (agrees_turns hv turns hr.1 hr.2).bind
        exact fun _ _ => agrees_pure trivial
    | count query => exact (agrees_count hv hlocal).bind fun _ _ => agrees_pure trivial
    | countDistinct query field =>
        exact (agrees_countDistinct hv field hlocal).bind fun _ _ => agrees_pure trivial
    | get id => exact (agrees_get hv id).bind fun _ _ => agrees_pure trivial
  exact (hagrees w₁ w₂ hsame).1

end Calls

/-! ### Two collections with one owner in common -/

namespace OwnedExample

def view : CollectionView :=
  { store := { Store.basic 0 with identity := .fixed ⟨"ann", []⟩ }
    name := "notes"
    options := { OperationOptions.default with onlyOwned := true } }

def note (id owner : String) : Document :=
  [(Item.idField, .string id), (Item.ownerField, .string owner)]

def world (notes : List Document) : World :=
  { collections := [("notes", notes)]
    registries := fun _ => .ofConfig .default 0
    drawn := 0
    events := [] }

def environment : Environment :=
  { date := 0
    moment := 0
    fresh := fun _ => ""
    access := fun _ _ => .ok () }

def context : HookContext :=
  ⟨view.store.config.database, "notes", some "ann", []⟩

theorem readsOwned : view.ReadsOwned context "ann" :=
  ⟨rfl, rfl, rfl, rfl, rfl⟩

theorem sameOwned : SameOwned "ann" view.name (world [note "1" "ann"]).collections
    (world [note "2" "bob", note "1" "ann"]).collections where
  left_exists := rfl
  right_exists := rfl
  left_distinct := List.pairwise_singleton _ _
  right_distinct := by
    have hrows : (world [note "2" "bob", note "1" "ann"]).collections.rows view.name =
        [note "2" "bob", note "1" "ann"] := rfl
    rw [hrows, DistinctIds, List.pairwise_pair]
    intro i j hi hj
    cases hi
    cases hj
    simp [Value.same, Value.sameScalar]
  selected := by
    rw [Criteria.select_owner, Criteria.select_owner]
    rfl

end OwnedExample

open OwnedExample in
theorem ReadCall.answer_eq_of_foreign_note :
    (((ReadCall.pages .run .empty [.next]).perform view).run environment
        (world [note "1" "ann"])).1 =
      (((ReadCall.pages .run .empty [.next]).perform view).run environment
        (world [note "2" "bob", note "1" "ann"])).1 := by
  apply ReadCall.answer_eq_of_sameOwned
  · exact readsOwned
  · intro prepared h
    cases h
    exact ⟨rfl, rfl, rfl, fun _ hmem => by cases hmem⟩
  · exact sameOwned

end DocumentBase
