import DocumentBase.Proofs.Store.Requests
import DocumentBase.Proofs.Update.Protection

/-!
# Fields that a page shows

A page of a query that asks for fields shows these, the identity, and what joins read and write.
A projection keeps nothing else of a document, and everything that follows it writes at an output
of a join or at one of its counts, so that a key that is at the head of none of these paths stays
absent.  The projection is made only if a field other than the identity was asked for: a query for
the identity alone shows whole documents.
-/

namespace DocumentBase

open DocumentBase.Path (headOf)

/-! ### Keys that are not written -/

section Keys

variable {key path : String}

theorem Document.value?_removeAt_of_headOf_ne (h : headOf path ≠ key) (d : Document) :
    (d.removeAt path).value? key = d.value? key := by
  rw [removeAt, Path.ofString_eq_cons]
  by_cases hrest : (Path.ofString path).tail = []
  · rw [hrest]
    exact value?_without_ne d h
  · rw [value?_remove_cons hrest, if_neg h]

theorem value?_of_mem_unwindRow (h : headOf path ≠ key) {row made : Document}
    (hmade : made ∈ unwindRow path row) : made.value? key = row.value? key := by
  rw [unwindRow_eq] at hmade
  split at hmade
  · rw [List.mem_singleton.mp hmade]
    exact Document.value?_removeAt_of_headOf_ne h row
  · obtain ⟨item, -, rfl⟩ := List.mem_map.mp hmade
    exact Document.value?_setAt_of_headOf_ne h row item
  · rw [List.mem_singleton.mp hmade]

theorem value?_of_mem_unwindAll {paths : List String} (h : ∀ path ∈ paths, headOf path ≠ key)
    {rows : List Document} {made : Document} (hmade : made ∈ unwindAll paths rows) :
    ∃ row ∈ rows, made.value? key = row.value? key := by
  induction paths generalizing rows with
  | nil => exact ⟨made, hmade, rfl⟩
  | cons path rest ih =>
      obtain ⟨hpath, hrest⟩ := List.forall_mem_cons.mp h
      obtain ⟨between, hbetween, hsame⟩ := ih hrest hmade
      obtain ⟨row, hrow, hunwound⟩ := List.mem_flatMap.mp hbetween
      exact ⟨row, hrow, hsame.trans (value?_of_mem_unwindRow hpath hunwound)⟩

/-- Joins change a row below the heads of their outputs only. -/
theorem Join.value?_runAll {joins : List Join} (h : ∀ join ∈ joins, headOf join.output ≠ key)
    (c : Collections) (row : Document) : (runAll c joins row).value? key = row.value? key := by
  induction joins generalizing row with
  | nil => rfl
  | cons join rest ih =>
      obtain ⟨hjoin, hrest⟩ := List.forall_mem_cons.mp h
      exact (ih hrest _).trans (Document.value?_setAt_of_headOf_ne hjoin row _)

/-- A projection keeps the fields that are asked for and the identity. -/
theorem Projection.value?_keep {fields : List String} (hid : Item.idField ≠ key)
    (h : ∀ field ∈ fields, headOf field ≠ key) (row : Document) :
    ((keep fields).run row).value? key = none := by
  have hstart : (startRow fields row).value? key = none := by
    rw [startRow]
    split
    · rfl
    · cases row.value? Item.idField with
      | none => rfl
      | some id => rw [Document.value?_cons, if_neg hid, Document.value?_nil]
  rw [run_keep]
  generalize startRow fields row = kept at hstart
  induction fields generalizing kept with
  | nil => exact hstart
  | cons field rest ih =>
      obtain ⟨hfield, hrest⟩ := List.forall_mem_cons.mp h
      refine ih hrest _ ?_
      rw [copyField]
      split
      · rw [Document.value?_setAt_of_headOf_ne hfield, hstart]
      · exact hstart

end Keys

/-! ### Rows of a query -/

namespace QuerySpec

/-- The names that may stand in the rows of a query: those at the heads of the fields that are
asked for, and of those that joins read and write. -/
def Names (q : QuerySpec) (key : String) : Prop :=
  key = Item.idField ∨ (∃ field ∈ q.fields, key = headOf field) ∨
    ∃ join ∈ q.joins, key = headOf join.field ∨ key = headOf join.output ∨
      ∃ counted ∈ join.countField, key = headOf counted

instance (q : QuerySpec) (key : String) : Decidable (q.Names key) :=
  inferInstanceAs (Decidable (_ ∨ _ ∨ _))

variable {q : QuerySpec} {key : String}

theorem value?_measureRow (h : ¬ q.Names key) (row : Document) :
    (q.measureRow row).value? key = row.value? key := by
  have houtputs : ∀ entry ∈ q.countedJoins, headOf entry.1 ≠ key := by
    intro entry hentry hkey
    obtain ⟨join, hjoin, hcounted⟩ := List.mem_filterMap.mp hentry
    obtain ⟨counted, hcount, rfl⟩ := Option.map_eq_some_iff.mp hcounted
    exact h (.inr (.inr ⟨join, hjoin, .inr (.inr ⟨counted, hcount, hkey.symm⟩)⟩))
  rw [measureRow]
  generalize q.countedJoins = entries at houtputs
  induction entries generalizing row with
  | nil => rfl
  | cons entry rest ih =>
      obtain ⟨hentry, hrest⟩ := List.forall_mem_cons.mp houtputs
      exact (ih _ hrest).trans (Document.value?_setAt_of_headOf_ne hentry row _)

/-- A field that the projection does not name is in no projected row. -/
theorem value?_projectRow (hprojection : q.hasProjection = true) (h : ¬ q.Names key)
    (row : Document) : (q.projectRow row).value? key = none := by
  rw [projectRow, if_pos hprojection]
  refine Projection.value?_keep (fun hid => h (.inl hid.symm)) (fun field hfield hkey => ?_) row
  rcases mem_foldl_addField.mp hfield with hasked | ⟨join, hjoin, rfl⟩
  · exact h (.inr (.inl ⟨field, hasked, hkey.symm⟩))
  · exact h (.inr (.inr ⟨join, hjoin, .inl hkey.symm⟩))

/-- What joins make of a projected row has no other names than these. -/
theorem names_of_mem_rowsFrom (hprojection : q.hasProjection = true) (c : Collections)
    {row made : Document} (hmade : made ∈ q.rowsFrom c row) {key : String}
    (hkey : key ∈ made.keys) : q.Names key := by
  by_contra h
  have houtputs : ∀ join ∈ q.joins, headOf join.output ≠ key :=
    fun join hjoin hhead => h (.inr (.inr ⟨join, hjoin, .inr (.inl hhead.symm)⟩))
  have hunwound : ∀ path ∈ Join.outputsOf q.joins, headOf path ≠ key := by
    intro path hpath
    obtain ⟨join, hjoin, rfl⟩ := List.mem_map.mp hpath
    exact houtputs join (List.mem_filter.mp hjoin).1
  obtain ⟨joined, hjoined, hsame⟩ := value?_of_mem_unwindAll hunwound hmade
  rw [List.mem_singleton.mp hjoined, Join.value?_runAll houtputs, value?_measureRow h,
    value?_projectRow hprojection h] at hsame
  have hthere := Value.has_of_mem_keys hkey
  rw [Document.has, hsame] at hthere
  cases hthere

/-- Without groups every row comes from one document. -/
theorem exists_row_of_run (hgrouped : q.assembler.isGrouped = false) {owner : Option String}
    {c : Collections} {documents made : List Document}
    (h : Pipeline.run c (q.rowStages owner) documents = .ok made) {d : Document} (hd : d ∈ made) :
    ∃ row, d ∈ q.rowsFrom c row := by
  have hgrouping : q.grouping .results = [] := by
    rw [grouping, Assembler.effectiveGroup_of_not_isGrouped hgrouped]
  rw [rowStages_eq, Pipeline.run_append] at h
  obtain ⟨matched, -, h⟩ := Outcome.bind_eq_ok.mp h
  rw [hgrouping, List.nil_append, Pipeline.run_append, run_sorting] at h
  obtain rfl := Except.ok.inj ((run_rowwise c _).symm.trans h)
  obtain ⟨row, -, hrow⟩ := List.mem_flatMap.mp hd
  exact ⟨row, hrow⟩

/-- A query that asks for a field other than the identity is a pipeline, and the rows of its pages
name nothing but what was asked for. -/
theorem names_of_perform (hfields : ∃ field ∈ q.fields, field ≠ Item.idField)
    (hgrouped : q.assembler.isGrouped = false) (hextra : q.assembler.extra = [])
    {page : Page} {owner : Option String} {force : Bool} {request : Request}
    (hcompile : q.compile page owner force = .ok request) {name : String}
    {stored after : Collections} {rows : List Document}
    (h : request.perform name stored = .ok (rows, after)) {d : Document} (hd : d ∈ rows) :
    ∀ key ∈ d.keys, q.Names key := by
  have hprojection : q.hasProjection = true := by
    obtain ⟨field, hfield, hother⟩ := hfields
    exact List.any_eq_true.mpr ⟨field, hfield, by simpa using hother⟩
  obtain ⟨p, rfl⟩ : ∃ p, request = .aggregate p := by
    have hrequires : q.requiresPipeline = true := by
      simp [requiresPipeline, hprojection]
    exact exists_pipeline_of_compile hrequires hcompile
  obtain ⟨shown, hshown, hrows⟩ := Collections.aggregate_eq_ok h
  have hmem : d ∈ shown := by
    split at hrows
    · rw [(Prod.mk.inj hrows).1] at hd
      cases hd
    · rwa [(Prod.mk.inj hrows).1] at hd
  obtain ⟨made, hmade, -, rfl⟩ := run_page_eq_ok hextra hcompile hshown
  obtain ⟨row, hrow⟩ :=
    exists_row_of_run hgrouped hmade (List.mem_of_mem_drop (List.mem_of_mem_take hmem))
  exact fun key hkey => names_of_mem_rowsFrom hprojection _ hrow hkey

end QuerySpec

/-! ### Pages -/

namespace CollectionView

/-- A page of a query that asks for a field other than the identity names nothing but what was
asked for, as long as nothing was asked about groups or added to the pipeline.  This is said of
pages that were not answered from the cache and that no hook has changed. -/
theorem names_of_page {v : CollectionView} {query : Query} {spec : QuerySpec} {env : Environment}
    {w w' : World} {r : ResultPage} (hhooks : v.Unhooked) (hbuild : query.build = .ok spec)
    (hfields : ∃ field ∈ spec.fields, field ≠ Item.idField) (hgrouped : spec.isGrouped = false)
    (hextra : spec.assembler.extra = []) (hfresh : r.fromCache = false)
    (h : (v.find query).run env w = (.ok r, w') ∨ (v.run query).run env w = (.ok r, w')) :
    ∀ item ∈ r.items, ∃ d : Document, item = .document d ∧ ∀ key ∈ d.keys, spec.Names key := by
  have hread : v.ReadsPage query env w r w' :=
    h.imp (⟨hhooks.passes .query query, ·⟩) (⟨hhooks.passes .aggregate query, ·⟩)
  obtain ⟨operation, context, owner, force, request, rows, -, -, hcompile, hperform, hitems⟩ :=
    performed_of_page hbuild hextra hfresh hread
  rw [answer_of_no_hooks hhooks] at hitems
  intro item hitem
  rw [← Except.ok.inj hitems] at hitem
  obtain ⟨d, hd, rfl⟩ := List.mem_map.mp hitem
  exact ⟨d, rfl, QuerySpec.names_of_perform hfields hgrouped hextra hcompile hperform hd⟩

end CollectionView

/-! ### The fields of a note -/

namespace ShownFieldsExample

open TotalExample (view environment world)

def note : Document :=
  [("_id", .int32 1), ("title", .string "t"), ("author", .string "a"), ("draft", .bool true),
    ("meta", .document [("size", .int32 3), ("lang", .string "en")])]

def others : List Document :=
  [[("_id", .string "a"), ("name", .string "Ann")]]

def selected : Query :=
  Query.empty.calls
    [.select ["title", "meta.size"],
      .attach { Join.on "author" "others" with output := "by", countField := some "authors" }]

def identity : Query :=
  Query.empty.calls [.select ["_id"]]

def shown : Document :=
  [("_id", .int32 1), ("title", .string "t"), ("meta", .document [("size", .int32 3)]),
    ("author", .string "a"), ("authors", .int32 0),
    ("by", .array [.document [("_id", .string "a"), ("name", .string "Ann")]])]

def names (read : Action ResultPage) : Option (List (List String)) :=
  (read.run environment (world [note] others)).1.toOption.map fun r =>
    r.items.map fun item => (item.fields?.getD []).keys

/-- A view whose hook after a read marks the items. -/
def marking : CollectionView :=
  { view with store := { view.store with
    hooks := Hooks.empty.register "notes" ⟨.after, .query⟩ fun payload _ =>
      match payload with
      | .items values => .ok (some (.items (values.map fun item =>
          .document ((item.fields?.getD []).put "seen" (.bool true)))))
      | _ => .ok none } }

/-- A read that finds what somebody else has put into the cache. -/
def planted : Action ResultPage := do
  let caching : CollectionView :=
    { view with options := { OperationOptions.default with useCache := true } }
  let spec ← selected.build
  let context ← caching.context true
  let c := PageCursor.first caching spec .find
  let request ← c.request none
  c.keep request.category (c.cacheKey context request).render ⟨[.document note], 1⟩
  caching.find selected

end ShownFieldsExample

open TotalExample (view environment world)

open ShownFieldsExample in
theorem CollectionView.names_of_page_of_note :
    ∃ spec r w', selected.build = .ok spec ∧
      (view.find selected).run environment (world [note] others) = (.ok r, w') ∧
      r.items = [.document shown] ∧
      ∀ item ∈ r.items, ∃ d : Document, item = .document d ∧ ∀ key ∈ d.keys, spec.Names key := by
  obtain ⟨spec, r, w', hbuild, hfields, hgrouped, hextra, hfresh, hread, hitems⟩ :
      ∃ spec r w', selected.build = .ok spec ∧ (∃ field ∈ spec.fields, field ≠ Item.idField) ∧
        spec.isGrouped = false ∧ spec.assembler.extra = [] ∧ r.fromCache = false ∧
        (view.find selected).run environment (world [note] others) = (.ok r, w') ∧
        r.items = [.document shown] :=
    ⟨_, _, _, rfl, ⟨"title", by decide, by decide⟩, rfl, rfl, rfl, rfl, rfl⟩
  have hhooks : view.Unhooked := .inr rfl
  exact ⟨spec, r, w', hbuild, hread, hitems, CollectionView.names_of_page hhooks hbuild hfields
    hgrouped hextra hfresh (.inl hread)⟩

open ShownFieldsExample in
/-- Who asks for the identity alone is shown whole documents.  Hooks and caches can be made to show
anything. -/
theorem CollectionView.fields_shown_beside_identity :
    (∃ spec r w', identity.build = .ok spec ∧ spec.fields = [Item.idField] ∧
      spec.isGrouped = false ∧ spec.assembler.extra = [] ∧ view.Unhooked ∧ r.fromCache = false ∧
      (view.find identity).run environment (world [note] []) = (.ok r, w') ∧
      r.items = [.document note] ∧ "title" ∈ note.keys ∧ ¬ spec.Names "title") ∧
    ∃ spec, selected.build = .ok spec ∧ ¬ spec.Names "seen" ∧ ¬ spec.Names "draft" ∧
      names (marking.find selected) = some [shown.keys ++ ["seen"]] ∧
      names planted = some [note.keys] ∧ "draft" ∈ note.keys := by
  refine ⟨⟨_, _, _, rfl, rfl, rfl, rfl, .inr rfl, rfl, rfl, rfl, ?_, ?_⟩, _, rfl, ?_⟩
  all_goals decide +kernel

end DocumentBase
