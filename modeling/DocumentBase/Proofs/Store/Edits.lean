import DocumentBase.Proofs.Store.Sessions
import DocumentBase.Proofs.Update.Protection
import DocumentBase.Proofs.Value.Storable

/-!
# Edits under identities

Without hooks a write adds a document under an identity that is free, or it overwrites or takes
out the first document with the identity that the call names.  A document that is overwritten
keeps its identity, as long as no update writes below it.
-/

namespace DocumentBase

/-! ### Positions -/

theorem positionOf?_eq_none {rows : List Document} {id : Value} :
    positionOf? rows id = none ↔ ∀ d ∈ rows, hasId id d = false :=
  List.findIdx?_eq_none_iff

theorem hasId_getElem_of_positionOf? {rows : List Document} {id : Value} {position : Nat}
    (h : positionOf? rows id = some position) (hlt : position < rows.length) :
    hasId id rows[position] = true := by
  obtain ⟨_, hid, _⟩ := List.findIdx?_eq_some_iff_getElem.mp h
  exact hid

theorem hasId_of_positionOf? {rows : List Document} {id : Value} {position : Nat} {d : Document}
    (h : positionOf? rows id = some position) (hrow : rows[position]? = some d) :
    hasId id d = true := by
  obtain ⟨hlt, rfl⟩ := List.getElem?_eq_some_iff.mp hrow
  exact hasId_getElem_of_positionOf? h hlt

theorem hasId_congr {d e : Document} (h : d.value? Item.idField = e.value? Item.idField)
    (id : Value) : hasId id d = hasId id e := by
  rw [hasId, hasId, h]

namespace Collections

variable {c c' : Collections} {name : String} {id : Value} {d : Document}

@[simp]
theorem rows_store_self (c : Collections) (name : String) (rows : List Document) :
    (c.store name rows).rows name = rows := by
  rw [Collections.rows, rows?_store_self]
  rfl

theorem hasId_of_findById (h : c.findById name id = some d) : hasId id d = true := by
  rw [findById_eq] at h
  exact List.find?_some h

theorem mem_of_findById (h : c.findById name id = some d) : d ∈ c.rows name := by
  rw [findById_eq] at h
  exact List.mem_of_find?_eq_some h

theorem positionOf?_of_findById_eq_none (h : c.findById name id = none) :
    positionOf? (c.rows name) id = none := by
  rw [findById_eq, List.find?_eq_none] at h
  exact positionOf?_eq_none.mpr fun e he => Bool.eq_false_iff.mpr (h e he)

/-! ### Edits -/

/-- What may become of a collection when a call names an identity, or none. -/
inductive Edit (name : String) (named : Option Value) (c : Collections) : Collections → Prop
  | added (d : Document)
      (hfree : ∀ id, d.value? Item.idField = some id → positionOf? (c.rows name) id = none) :
      Edit name named c (c.store name (c.rows name ++ [d]))
  | overwritten (target : Value) (position : Nat) (d : Document) (hnamed : named = some target)
      (hposition : positionOf? (c.rows name) target = some position)
      (hid : hasId target d = true) :
      Edit name named c (c.store name ((c.rows name).set position d))
  | removed (target : Value) (position : Nat) (hnamed : named = some target)
      (hposition : positionOf? (c.rows name) target = some position) :
      Edit name named c (c.store name ((c.rows name).eraseIdx position))
  | absent : Edit name named c c

theorem edit_of_insertOne (h : c.insertOne name d = .ok c') (named : Option Value) :
    Edit name named c c' := by
  rw [eq_store_of_insertOne h]
  exact .added d fun id => free_of_insertOne h

/-- A replacement overwrites the document with the identity, or does nothing. -/
theorem edit_of_replaceOne {result : Option Document} (h : c.replaceOne name id d = (result, c'))
    (hid : hasId id d = true) : Edit name (some id) c c' := by
  simp only [replaceOne] at h
  split at h <;> cases h
  next position hposition => exact .overwritten id position d rfl hposition hid
  next => exact .absent

theorem edit_of_deleteOne {result : Option Document} (h : c.deleteOne name id = (result, c')) :
    Edit name (some id) c c' := by
  simp only [deleteOne] at h
  split at h <;> cases h
  next position hposition => exact .removed id position rfl hposition
  next => exact .absent

/-- An update that does not enter the identity keeps it. -/
theorem edit_of_updateOne {u : Update} {now : Instant} {after : Document}
    (h : c.updateOne name id u now = .ok (some after, c')) (hid : ¬ u.Enters Item.idField) :
    Edit name (some id) c c' := by
  obtain ⟨position, before, changed, hposition, hbefore, hchanged, hafter, rfl⟩ :=
    exists_change_of_updateOne h
  refine .overwritten id position after rfl hposition ?_
  have hkept : after.value? Item.idField = before.value? Item.idField := by
    rw [hafter, Document.value?_put_ne _ _ (by decide)]
    exact Update.value?_change_of_not_enters hchanged hid
  rw [hasId_congr hkept]
  exact hasId_of_positionOf? hposition hbefore

end Collections

/-! ### Protected fields of replacements -/

namespace Item

/-- A field that is taken over has the value of the existing document, and others stay. -/
theorem value?_inherit (existing replacement : Document) (field key : String) :
    (inherit existing replacement field).value? key =
      if field = key then existing.value? key else replacement.value? key := by
  by_cases hkey : field = key
  · subst hkey
    rw [inherit, if_pos rfl]
    cases existing.value? field <;> simp
  · rw [inherit, if_neg hkey]
    cases existing.value? field with
    | some v => exact replacement.value?_put_ne v hkey
    | none => exact replacement.value?_without_ne hkey

/-- A replacement has under the protected fields what the stored item has. -/
theorem value?_stampReplacement (replacement existing : Document) (now : Instant) {field : String}
    (hfield : field ∈ protectedFields) :
    (stampReplacement replacement existing now).value? field = existing.value? field := by
  have hinherited : ∀ (fields : List String) (d : Document),
      (fields.foldl (inherit existing) d).value? field =
        if field ∈ fields then existing.value? field else d.value? field := by
    intro fields
    induction fields with
    | nil => simp
    | cons first rest ih =>
        intro d
        rw [List.foldl_cons, ih, value?_inherit]
        by_cases hrest : field ∈ rest
        · simp [hrest]
        · simp [hrest, eq_comm]
  have hne : updatedField ≠ field := by
    rintro rfl
    exact absurd hfield (by decide)
  rw [stampReplacement, Document.value?_put_ne _ _ hne, hinherited, if_pos hfield]

end Item

/-! ### Arguments without hooks -/

namespace CollectionView

variable {v : CollectionView} (hooks : v.Unhooked)
include hooks

theorem insertion_of_no_hooks (item : Document) (context : HookContext) (fresh : String)
    (now : Instant) : v.insertion item context fresh now =
      do return Item.stampNew (← Document.clean item) (.string fresh) context.identity now := by
  rw [insertion, argument_of_no_hooks hooks]
  rfl

theorem replacement_of_no_hooks (id : Value) (item : Document) (context : HookContext) :
    v.replacement id item context =
      do return (id, ← Document.clean (item.put Item.idField id)) := by
  rw [replacement, argument_of_no_hooks hooks]
  simp only [bind, Except.bind, Payload.asItem, Document.value?_put_self]

theorem amendment_of_no_hooks (operation : Operation) (id : Value) (update : Update)
    (context : HookContext) : v.amendment operation id update context = do
      update.validate
      return (id, ← cleanUpdate update) := by
  rw [amendment, argument_of_no_hooks hooks]
  rfl

theorem removal_of_no_hooks (id : Value) (context : HookContext) :
    v.removal id context = .ok id := by
  rw [removal, argument_of_no_hooks hooks]
  rfl

omit hooks

end CollectionView

/-- The values that an update brings along can be stored. -/
def Update.Storable : Update → Prop
  | .set fields => Document.Storable fields
  | .push _ values => ∀ v ∈ values, v.Storable
  | _ => True

/-- Cleaning succeeds on updates whose values can be stored, and changes nothing about them. -/
theorem CollectionView.cleanUpdate_eq_ok {update u : Update} :
    cleanUpdate update = .ok u ↔ update.Storable ∧ u = update := by
  cases update with
  | set fields =>
      rw [cleanUpdate, Outcome.bind_eq_ok]
      constructor
      · rintro ⟨cleaned, hcleaned, hu⟩
        obtain ⟨hstorable, rfl⟩ := Document.clean_eq_ok.mp hcleaned
        exact ⟨hstorable, (Outcome.pure_eq_ok.mp hu).symm⟩
      · rintro ⟨hstorable, rfl⟩
        exact ⟨fields, Document.clean_eq_ok.mpr ⟨hstorable, rfl⟩, rfl⟩
  | push field values =>
      rw [cleanUpdate, Outcome.bind_eq_ok, Value.mapM_clean]
      constructor
      · rintro ⟨cleaned, hcleaned, hu⟩
        obtain ⟨hstorable, rfl⟩ := Value.cleanItems_eq_ok.mp hcleaned
        exact ⟨hstorable, (Outcome.pure_eq_ok.mp hu).symm⟩
      · rintro ⟨hstorable, rfl⟩
        exact ⟨values, Value.cleanItems_eq_ok.mpr ⟨hstorable, rfl⟩, rfl⟩
  | _ =>
      rw [cleanUpdate, Except.ok.injEq, eq_comm]
      · exact (and_iff_right trivial).symm
      all_goals exact nofun

namespace WriteCall

def named : WriteCall → Option Value
  | insert _ => none
  | save item => item.value? Item.idField
  | replace id _ | update id _ | push id _ _ | pull id _ _ | increment id _ _ | multiply id _ _
  | remove id => some id

def paths (call : WriteCall) : List String :=
  match call.patch? with
  | some (_, _, u) => u.named
  | none => []

theorem named_of_patch? {call : WriteCall} {operation : Operation} {id : Value} {update : Update}
    (h : call.patch? = some (operation, id, update)) :
    call.named = some id ∧ call.paths = update.named := by
  cases call <;> cases h <;> exact ⟨rfl, rfl⟩

/-- None of the paths that a call names goes on below a field. -/
def StaysOutside (call : WriteCall) (field : String) : Prop :=
  ∀ path ∈ call.paths, ¬ (field ++ ".").toList <+: path.toList

/-- Without hooks a step is an edit under the identity that the call names. -/
theorem Step.edit {v : CollectionView} {context : HookContext} {c c' : Collections}
    {call : WriteCall} {operation : Operation} {written : Payload} (hooks : v.Unhooked)
    (houtside : call.StaysOutside Item.idField)
    (h : call.Step v context c operation written c') : c.Edit v.name call.named c' := by
  cases h with
  | added hcall hprepared hstored => exact Collections.edit_of_insertOne hstored _
  | replaced hprepared hfound hstored =>
      rw [v.replacement_of_no_hooks hooks] at hprepared
      obtain ⟨_, -, hpair⟩ := Outcome.bind_eq_ok.mp hprepared
      cases hpair
      apply Collections.edit_of_replaceOne hstored
      rw [hasId_congr (Item.value?_stampReplacement _ _ _ (by decide))]
      exact Collections.hasId_of_findById hfound
  | saved hid hfound hprepared hstored =>
      rw [v.replacement_of_no_hooks hooks] at hprepared
      obtain ⟨_, -, hpair⟩ := Outcome.bind_eq_ok.mp hprepared
      cases hpair
      rw [named, hid]
      apply Collections.edit_of_replaceOne hstored
      rw [hasId_congr (Item.value?_stampReplacement _ _ _ (by decide))]
      exact Collections.hasId_of_findById hfound
  | @patched _ _ _ _ update u _ _ _ hcall hprepared hstored =>
      rw [v.amendment_of_no_hooks hooks] at hprepared
      obtain ⟨_, hvalid, hprepared⟩ := Outcome.bind_eq_ok.mp hprepared
      obtain ⟨_, hclean, hpair⟩ := Outcome.bind_eq_ok.mp hprepared
      cases hpair
      obtain ⟨-, rfl⟩ := CollectionView.cleanUpdate_eq_ok.mp hclean
      obtain ⟨hnamed, hpaths⟩ := named_of_patch? hcall
      rw [hnamed]
      apply Collections.edit_of_updateOne hstored
      rintro ⟨path, hpath, hhead⟩
      rcases Path.eq_or_prefix_of_headOf hhead with rfl | hprefix
      · exact Update.not_mem_named_of_validate hvalid (by decide) hpath
      · exact houtside path (hpaths ▸ hpath) hprefix
  | removed hprepared hstored =>
      rw [v.removal_of_no_hooks hooks] at hprepared
      cases hprepared
      exact Collections.edit_of_deleteOne hstored

end WriteCall

end DocumentBase
