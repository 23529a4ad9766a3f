import DocumentBase.Proofs.Cache.Keys
import DocumentBase.Proofs.Json.Parts
import DocumentBase.Proofs.Store.Questions

/-!
# Reads that share an entry of a cache

The text of a request tells in what way a query is read, for which owner and which field.  So
reads of one query that share an entry of a cache ask the same question, whatever identity acts
and whatever their options are.
-/

namespace DocumentBase

open Json

/-! ### The owner in the text of a request -/

/-- A text in which an owner may stand tells whether there is one, and which. -/
theorem injective_of_owner {text : Option String → String}
    (hlonger : ∀ name, (text none).length < (text (some name)).length)
    (hname : ∀ name other, text (some name) = text (some other) → name = other) :
    Function.Injective text := by
  intro owner owner' h
  cases owner with
  | none =>
      cases owner' with
      | none => rfl
      | some name => exact absurd (congrArg String.length h) (hlonger name).ne
  | some name =>
      cases owner' with
      | none => exact absurd (congrArg String.length h) (hlonger name).ne'
      | some other => exact congrArg some (hname name other h)

theorem Criteria.fieldIs_and (field text : String) (c : Criteria) :
    (fieldIs field text).and c =
      if c.isEmpty then fieldIs field text
      else ⟨[("$and",
        .array [.document (fieldIs field text).document, .document c.document])]⟩ := rfl

/-- The text of a document in a request. -/
def Document.text (d : Document) : String :=
  (Value.document d).toJson.text

/-- The text of a document tells its first key. -/
theorem Document.key_eq_of_text {key key' : String} {v v' : Value} {rest rest' : Document}
    (h : Document.text ((key, v) :: rest) = Document.text ((key', v') :: rest')) : key = key' :=
  (name_eq_of_text h).1

/-- The text of the stages of a pipeline in a request. -/
def Pipeline.text (p : Pipeline) : String :=
  (Value.array (p.render.map Value.document)).toJson.text

namespace QuerySpec

variable {q : QuerySpec} {page : Page} {owner owner' : Option String} {force force' : Bool}

/-- The criteria for two owners are never written alike. -/
theorem injective_text_ownedCriteria (q : QuerySpec) :
    Function.Injective fun owner => Document.text (q.ownedCriteria owner).document := by
  apply injective_of_owner
  · intro name
    simp only [ownedCriteria, Criteria.fieldIs_and]
    split
    next hempty =>
      rw [List.isEmpty_iff.mp hempty]
      exact length_text_lt_object_cons
    next =>
      have hcriteria : (Document.text q.criteria.document).length <
          (array [(Value.document q.criteria.document).toJson]).text.length := length_text_lt_array
      exact (hcriteria.trans length_text_lt_array_cons).trans length_text_lt_object
  · intro name other h
    simp only [ownedCriteria, Criteria.fieldIs_and] at h
    split at h
    · exact string_text_inj (text_eq_of_text_object h)
    · have harray := text_eq_of_text_object h
      exact string_text_inj (text_eq_of_text_object (text_eq_of_text_array harray))

/-- The pipeline for a page without the condition on an owner. -/
def unowned (q : QuerySpec) (page : Page) : Pipeline :=
  Assembler.arrange (q.assembler.staged (q.pageStages page none) .results)

/-- The pipeline for a page of an owner. -/
def ownedPipeline (q : QuerySpec) (page : Page) (owner : Option String) : Pipeline :=
  (owner.map Pipeline.ownership).toList ++ q.unowned page

theorem injective_text_ownedPipeline (q : QuerySpec) (page : Page) :
    Function.Injective fun owner => (q.ownedPipeline page owner).text := by
  apply injective_of_owner
  · intro name
    exact length_text_lt_array_cons
  · intro name other h
    have hstage := text_eq_of_text_object (text_eq_of_text_array h)
    exact string_text_inj (text_eq_of_text_object hstage)

theorem eq_of_compile_aggregate {p : Pipeline}
    (h : q.compile page owner force = .ok (.aggregate p)) : p = q.ownedPipeline page owner := by
  unfold compile at h
  split at h
  · cases h
  · obtain ⟨assembled, hassemble, heq⟩ := Outcome.bind_eq_ok.mp h
    cases heq
    rw [q.assembler.eq_arrange_of_assemble hassemble]
    cases owner with
    | none => rfl
    | some name => exact Assembler.arrange_cons_ownership _ _

theorem eq_of_compile_find {found : FindRequest}
    (h : q.compile page owner force = .ok (.find found)) :
    found = ⟨q.ownedCriteria owner, q.sort, page.offset, page.size⟩ := by
  unfold compile at h
  split at h
  · cases h
    rfl
  · obtain ⟨_, -, heq⟩ := Outcome.bind_eq_ok.mp h
    cases heq

theorem render_find_ne_aggregate (found : FindRequest) (p : Pipeline) :
    Document.text (Request.find found).render ≠ Document.text (Request.aggregate p).render := by
  intro h
  have hkey : "find" = "aggregate" := Document.key_eq_of_text h
  exact absurd hkey (by decide)

/-- The text of a request for a page tells whether it is a find request, and for which owner. -/
theorem eq_of_text_compile {request request' : Request}
    (hrequest : q.compile page owner force = .ok request)
    (hrequest' : q.compile page owner' force' = .ok request')
    (h : Document.text request.render = Document.text request'.render) :
    owner = owner' ∧ request = request' := by
  cases request with
  | find found =>
      cases request' with
      | find found' =>
          have hfound := eq_of_compile_find hrequest
          have hfound' := eq_of_compile_find hrequest'
          subst hfound hfound'
          have hbody := text_eq_of_text_object h
          have howner : owner = owner' :=
            q.injective_text_ownedCriteria (text_eq_of_text_object hbody)
          exact ⟨howner, by rw [howner]⟩
      | aggregate p => exact absurd h (render_find_ne_aggregate found p)
  | aggregate p =>
      cases request' with
      | find found' => exact absurd h.symm (render_find_ne_aggregate found' p)
      | aggregate p' =>
          have hp := eq_of_compile_aggregate hrequest
          have hp' := eq_of_compile_aggregate hrequest'
          subst hp hp'
          have howner : owner = owner' :=
            q.injective_text_ownedPipeline page (text_eq_of_text_object h)
          exact ⟨howner, by rw [howner]⟩

end QuerySpec

/-! ### Cursors of one query -/

namespace PageCursor

/-- Two cursors read one query, at whatever pages and in whatever ways, and count its rows in one
way if they count. -/
structure SameQuery (c d : PageCursor) : Prop where
  rows : ∀ page owner force,
    c.spec.compile page owner force = d.spec.compile page owner force
  criteria : ∀ owner, c.spec.distinctCriteria owner = d.spec.distinctCriteria owner
  total : (∀ field, c.mode ≠ .distinct field) → ∀ owner, c.totalRequest owner = d.totalRequest owner
  size : c.page.size = d.page.size
  skip : c.page.skip = d.page.skip

variable {c d : PageCursor} {context context' : HookContext} {owner owner' : Option String}

/-- Cursors of one query ask the same for pages of the same size behind the same skip. -/
theorem sameQuery_of_spec (hspec : c.spec = d.spec)
    (hexact : c.view.options.exactCount = d.view.options.exactCount)
    (hsize : c.page.size = d.page.size) (hskip : c.page.skip = d.page.skip) : c.SameQuery d where
  rows := by simp only [hspec, implies_true]
  criteria := by simp only [hspec, implies_true]
  total := by simp only [totalRequest, hspec, hexact, implies_true]
  size := hsize
  skip := hskip

theorem render_distinct_ne_rows (field : String) (criteria : Criteria) (request : Request)
    (page page' : Page) :
    Document.text ((PageRequest.distinct field criteria).render page) ≠
      Document.text ((PageRequest.rows request).render page') := by
  intro h
  cases request with
  | find found =>
      have hkey : "distinct" = "find" := Document.key_eq_of_text h
      exact absurd hkey (by decide)
  | aggregate p =>
      have hkey : "distinct" = "aggregate" := Document.key_eq_of_text h
      exact absurd hkey (by decide)

/-- The text of a request tells everything about it, once the query and the page are known. -/
theorem question_eq_of_text (hsame : c.SameQuery d) (hpage : c.page = d.page)
    {request request' : PageRequest} (hrequest : c.request owner = .ok request)
    (hrequest' : d.request owner' = .ok request')
    (h : Document.text (request.render c.page) = Document.text (request'.render d.page)) :
    c.question owner request = d.question owner' request' := by
  rcases request_cases hrequest with ⟨field, -, rfl⟩ | ⟨force, compiled, hmode, hcompile, rfl⟩
  · rcases request_cases hrequest' with ⟨field', -, rfl⟩ | ⟨force', compiled', -, -, rfl⟩
    · obtain ⟨hfield, hrest⟩ := text_eq_of_text_object_string h
      rw [hpage] at hrest
      have hcriteria := text_eq_of_text_object hrest
      rw [hsame.criteria] at hcriteria
      have howner : owner = owner' := d.spec.injective_text_ownedCriteria hcriteria
      rw [question, question, hfield, howner, hpage, hsame.criteria]
    · exact absurd h (render_distinct_ne_rows field _ compiled' c.page d.page)
  · rcases request_cases hrequest' with ⟨field', -, rfl⟩ | ⟨force', compiled', -, hcompile', rfl⟩
    · exact absurd h.symm (render_distinct_ne_rows field' _ compiled d.page c.page)
    · rw [hsame.rows, hpage] at hcompile
      obtain ⟨howner, hcompiled⟩ := QuerySpec.eq_of_text_compile hcompile hcompile' h
      rw [question, question, howner, hcompiled, hsame.total hmode]

/-- The entry of a cache that a read looks at: its category and its key. -/
def entry (c : PageCursor) (context : HookContext) : Outcome (CacheCategory × String) := do
  let owner ← c.view.owner context
  let request ← c.request owner
  return (request.category, (c.cacheKey context request).render)

def asked (c : PageCursor) (context : HookContext) : Outcome Question := do
  let owner ← c.view.owner context
  let request ← c.request owner
  return c.question owner request

theorem entry_eq {request : PageRequest} (howner : c.view.owner context = .ok owner)
    (hrequest : c.request owner = .ok request) :
    c.entry context = .ok (request.category, (c.cacheKey context request).render) :=
  Outcome.bind_eq_ok.mpr ⟨owner, howner, Outcome.bind_eq_ok.mpr ⟨request, hrequest, rfl⟩⟩

theorem asked_eq {request : PageRequest} (howner : c.view.owner context = .ok owner)
    (hrequest : c.request owner = .ok request) :
    c.asked context = .ok (c.question owner request) :=
  Outcome.bind_eq_ok.mpr ⟨owner, howner, Outcome.bind_eq_ok.mpr ⟨request, hrequest, rfl⟩⟩

/-- Two reads of one query in one collection that look at the same entry ask the same. -/
theorem asked_eq_of_entry (hsame : c.SameQuery d) (hdatabase : context.database = context'.database)
    (hcollection : context.collection = context'.collection) {entry : CacheCategory × String}
    (hentry : c.entry context = .ok entry) (hentry' : d.entry context' = .ok entry) :
    c.asked context = d.asked context' := by
  obtain ⟨owner, howner, h⟩ := Outcome.bind_eq_ok.mp hentry
  obtain ⟨request, hrequest, h⟩ := Outcome.bind_eq_ok.mp h
  obtain ⟨owner', howner', h'⟩ := Outcome.bind_eq_ok.mp hentry'
  obtain ⟨request', hrequest', h'⟩ := Outcome.bind_eq_ok.mp h'
  have hkeys : (c.cacheKey context request).render = (d.cacheKey context' request').render := by
    rw [← Outcome.pure_eq_ok.mp h] at h'
    exact (Prod.mk.inj (Outcome.pure_eq_ok.mp h')).2.symm
  have hlocation : (c.cacheKey context request).location =
      (d.cacheKey context' request').location := by
    simp only [CacheKey.location, cacheKey, hdatabase, hcollection]
  obtain ⟨hnumber, htext⟩ := CacheKey.page_query_eq_of_render hlocation hkeys
  have hpage : c.page = d.page := by
    rw [show c.page = ⟨c.page.number, c.page.size, c.page.skip⟩ from rfl, hsame.size, hsame.skip,
      show c.page.number = d.page.number from hnumber]
  rw [asked_eq howner hrequest, asked_eq howner' hrequest']
  exact congrArg Except.ok (question_eq_of_text hsame hpage hrequest hrequest' htext)

end PageCursor

end DocumentBase
