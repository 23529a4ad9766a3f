import DocumentBase.Store

/-!
# Reading from a store

A cursor is a checked query at a page.  Resolving it runs the query for that page, finds the
total number of rows, and sends the items through the hook after the operation.  Results may
come from the cache; the key of a result is made of the page and the text of the request.
-/

namespace DocumentBase

/-- How the rows of a cursor are read. -/
inductive ReadMode where
  /-- By a find request, or by a pipeline if the query needs one. -/
  | find
  /-- By a pipeline in any case. -/
  | run
  /-- As the distinct values of a field. -/
  | distinct (field : String)
deriving DecidableEq, Repr

def ReadMode.operation : ReadMode → Operation
  | .find => .query
  | .run => .aggregate
  | .distinct _ => .distinct

structure PageCursor where
  view : CollectionView
  spec : QuerySpec
  mode : ReadMode
  page : Page

/-- What is read for one page. -/
inductive PageRequest where
  | rows (request : Request)
  | distinct (field : String) (criteria : Criteria)

namespace PageRequest

/-- The caches that results of a request belong to. -/
def category : PageRequest → CacheCategory
  | .rows (.aggregate _) => .aggregate
  | _ => .query

def render (page : Page) : PageRequest → Document
  | .rows request => request.render
  | .distinct field criteria =>
    [("distinct", .string field), ("filter", .document criteria.document),
      ("skip", wideInteger page.offset), ("limit", wideInteger page.size)]

end PageRequest

/-- The number of rows that a request counts.  Documents are only estimated unless the number
has to be exact; a pipeline without a row counted nothing.  -/
def countRows (name : String) (exact : Bool) : CountRequest → Action Nat
  | .documents criteria =>
    Action.read fun c => if exact then c.count name criteria else .ok (c.size name)
  | .pipeline pipeline => do
    let rows ← Action.change fun c => c.aggregate name pipeline
    return ((rows.head?.bind fun row => row.value? totalField).bind Value.count?).getD 0

/-- Items with their total number, as they are kept in a cache. -/
structure Snapshot where
  items : List Value
  total : Nat

namespace Snapshot

def encode (s : Snapshot) : Value :=
  .document [("items", .array s.items), ("totalCount", wideInteger s.total)]

def decode? (v : Value) : Option Snapshot := do
  let fields ← v.fields?
  let total ← (fields.value? "totalCount").bind Value.count?
  let items ← (fields.value? "items").bind Value.items?
  some ⟨items, total⟩

end Snapshot

/-- A page of results. -/
structure ResultPage where
  items : List Value
  total : Nat
  fromCache : Bool
  cursor : PageCursor

namespace PageCursor

def first (view : CollectionView) (spec : QuerySpec) (mode : ReadMode) : PageCursor :=
  { view
    spec
    mode
    page := Page.of 1 (spec.pageSize view.store.config.defaultPageSize) spec.skip }

def moveTo (c : PageCursor) (page : Page) : PageCursor :=
  { c with page }

def request (c : PageCursor) (owner : Option String) : Outcome PageRequest :=
  match c.mode with
  | .find => do return .rows (← c.spec.compile c.page owner false)
  | .run => do return .rows (← c.spec.compile c.page owner true)
  | .distinct field => .ok (.distinct field (c.spec.distinctCriteria owner))

def cacheKey (c : PageCursor) (context : HookContext) (request : PageRequest) : CacheKey :=
  { database := context.database
    collection := context.collection
    page := c.page.number
    query := (Value.document (request.render c.page)).toJson.text }

/-- Runs a request on the collection. -/
def execute (c : PageCursor) (owner : Option String) : PageRequest → Action Snapshot
  | .rows request => do
    let rows ← match request with
      | .find request => Action.read fun stored => stored.find c.view.name request
      | .aggregate pipeline => Action.change fun stored => stored.aggregate c.view.name pipeline
    let total ← countRows c.view.name c.view.options.exactCount (← c.spec.countRequest owner)
    return ⟨rows.map Value.document, total⟩
  | .distinct field criteria => do
    let values ← Action.read fun stored => stored.distinct c.view.name field criteria
    return ⟨(values.drop c.page.offset).take c.page.size, values.length⟩

def cached? (c : PageCursor) (category : CacheCategory) (key : String) :
    Action (Option Snapshot) := do
  let found ← Action.onCache c.view.store.caches category fun cache now => cache.get key now
  return found.bind Snapshot.decode?

/-- Keeps a snapshot if there is room for it. -/
def keep (c : PageCursor) (category : CacheCategory) (key : String) (snapshot : Snapshot) :
    Action Unit := do
  let _ ← Action.onCache c.view.store.caches category fun cache now =>
    cache.set key snapshot.encode now

/-- The items of the page and their total number, and whether they come from the cache. -/
def fetch (c : PageCursor) (context : HookContext) : Action (Snapshot × Bool) := do
  let owner ← c.view.owner context
  let request ← c.request owner
  let key := (c.cacheKey context request).render
  if c.view.options.useCache then
    if let some snapshot ← c.cached? request.category key then
      return (snapshot, true)
  let snapshot ← c.view.holding c.mode.operation (c.execute owner request)
  if c.view.options.useCache then
    c.keep request.category key snapshot
  return (snapshot, false)

/-- Resolves a cursor in the context of an operation that has begun. -/
def resolveIn (c : PageCursor) (context : HookContext) : Action ResultPage := do
  let operation := c.mode.operation
  let (snapshot, fromCache) ← (c.fetch context).inOperation operation c.view.name
  let result ← c.view.after operation (.items snapshot.items) context
  return {
    items := ← result.asItems
    total := snapshot.total
    fromCache
    cursor := c }

/-- Runs the query for the page of a cursor. -/
def resolve (c : PageCursor) : Action ResultPage := do
  c.resolveIn (← c.view.context true)

end PageCursor

namespace ResultPage

def next (r : ResultPage) : Action ResultPage :=
  (r.cursor.moveTo r.cursor.page.next).resolve

def prev (r : ResultPage) : Action ResultPage :=
  (r.cursor.moveTo r.cursor.page.prev).resolve

end ResultPage

namespace CollectionView

/-- Sends a query through the hook before an operation, and checks it. -/
def prepare (v : CollectionView) (operation : Operation) (query : Query) (context : HookContext) :
    Action QuerySpec := do
  let payload ← v.before operation (.query query) context
  let query ← payload.asQuery
  query.build

def readFirst (v : CollectionView) (mode : ReadMode) (query : Query) : Action ResultPage := do
  let context ← v.context true
  let spec ← v.prepare mode.operation query context
  (PageCursor.first v spec mode).resolveIn context

/-- Runs a query, as a find request if that is enough. -/
def find (v : CollectionView) (query : Query) : Action ResultPage :=
  v.readFirst .find query

/-- Runs a query as a pipeline. -/
def run (v : CollectionView) (query : Query) : Action ResultPage :=
  v.readFirst .run query

/-- The distinct values of a field among the items that meet a query. -/
def distinct (v : CollectionView) (query : Query) (field : String) : Action ResultPage := do
  checkField field
  v.readFirst (.distinct field) query

/-- A query at its first page, not run yet.  No hook sees it. -/
def cursor (v : CollectionView) (query : Query) : Outcome PageCursor := do
  return PageCursor.first v (← query.build) .find

def counted (v : CollectionView) (n : Nat) (context : HookContext) : Action Nat := do
  let result ← v.after .count (.count n) context
  result.asCount

def count (v : CollectionView) (query : Query) : Action Nat := do
  let context ← v.context true
  let spec ← v.prepare .count query context
  let owner ← v.owner context
  let request ← spec.countRequest owner
  let n ← v.holding .count (countRows v.name v.options.exactCount request)
  v.counted n context

def countDistinct (v : CollectionView) (query : Query) (field : String) : Action Nat := do
  let context ← v.context true
  let spec ← v.prepare .count query context
  let owner ← v.owner context
  let pipeline ← spec.distinctCountPipeline field owner
  let rows ← v.holding .count (Action.change fun c => c.aggregate v.name pipeline)
  let n := ((rows.head?.bind fun row => row.value? "count").bind Value.count?).getD 0
  v.counted n context

/-- Whether an item belongs to the owner that reads are restricted to. -/
def isVisible (owner : Option String) (item : Document) : Bool :=
  match owner with
  | none => true
  | some owner => (item.value? Item.ownerField).bind Value.text? == some owner

/-- The item with an identity, if there is one that may be seen. -/
def get (v : CollectionView) (id : Value) : Action (Option Document) := do
  let context ← v.context true
  let payload ← v.before .get (.itemId id) context
  let id ← payload.asItemId
  let owner ← v.owner context
  let found ← v.holding .get (Action.read fun c => .ok (c.findById v.name id))
  let result ← v.after .get (.maybeItem (found.filter (isVisible owner))) context
  result.asMaybeItem

end CollectionView

end DocumentBase
