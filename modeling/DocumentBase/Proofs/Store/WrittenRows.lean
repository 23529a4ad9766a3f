import DocumentBase.Proofs.Store.Amendments
import DocumentBase.Proofs.Store.Requests

/-!
# Rows that a query writes

A page of a query with a target is not shown but written: its rows become the target, or they are
merged into it one after the other, each over the document with its identity.  Nothing else
changes.  What is written is the page, which ends after as many rows as the store shows unless a
limit says otherwise; the rows behind it are written by no page.
-/

namespace DocumentBase

/-! ### Rows that are merged -/

section Merged

variable {documents rows : List Document} {row d : Document}

/-- A row is found under its identity once it is merged, and other documents are found as before. -/
theorem find?_upsertRow (documents : List Document) (row : Document) (id : Value) :
    (upsertRow documents row).find? (hasId id) =
      if hasId id row then some row else documents.find? (hasId id) := by
  have happended (hnone : hasId id row = true → documents.find? (hasId id) = none) :
      (documents ++ [row]).find? (hasId id) =
        if hasId id row then some row else documents.find? (hasId id) := by
    rw [List.find?_append]
    by_cases hrow : hasId id row = true
    · rw [hnone hrow, if_pos hrow, Option.none_or, List.find?_cons_of_pos hrow]
    · rw [if_neg hrow, List.find?_cons_of_neg hrow, List.find?_nil, Option.or_none]
  rw [upsertRow]
  cases hid : row.value? Item.idField with
  | none =>
      refine happended fun hrow => ?_
      obtain ⟨i, hi, -⟩ := hasId_iff.mp hrow
      rw [hid] at hi
      cases hi
  | some i =>
      -- an identity that is the same as any other is the same as itself
      have hown (hrow : hasId id row = true) : hasId i row = true := by
        obtain ⟨j, hj, hsame⟩ := hasId_iff.mp hrow
        obtain rfl := Option.some.inj (hid.symm.trans hj)
        exact hasId_iff.mpr ⟨i, hid, Value.same_trans hsame (Value.same_symm hsame)⟩
      rw [Option.bind_some]
      cases hposition : positionOf? documents i with
      | none =>
          refine happended fun hrow => ?_
          rw [hasId_eq_hasId hrow (hown hrow), List.find?_eq_none]
          intro e he
          rw [positionOf?_eq_none.mp hposition e he]
          exact Bool.false_ne_true
      | some position =>
          have hlt := lt_length_of_positionOf? hposition
          have hold := hasId_getElem_of_positionOf? hposition hlt
          by_cases hrow : hasId id row = true
          · rw [if_pos hrow, hasId_eq_hasId hrow (hown hrow)]
            exact find?_set_of_findIdx? hposition (hown hrow)
          · have hother : hasId id documents[position] = false :=
              Bool.eq_false_iff.mpr fun hthere =>
                hrow (hasId_iff.mpr ⟨i, hid, Value.same_symm (same_of_hasId hthere hold)⟩)
            rw [if_neg hrow]
            exact find?_set_of_not hother (Bool.eq_false_iff.mpr hrow)

/-- Of the rows with an identity the last one is found, and without any what was there before. -/
theorem find?_foldl_upsertRow (documents rows : List Document) (id : Value) :
    (rows.foldl upsertRow documents).find? (hasId id) =
      (rows.reverse.find? (hasId id)).or (documents.find? (hasId id)) := by
  induction rows using List.reverseRecOn with
  | nil => rfl
  | append_singleton rows row ih =>
      rw [List.foldl_concat, find?_upsertRow, ih, List.reverse_concat, List.find?_cons]
      cases hasId id row <;> rfl

theorem mem_upsertRow (documents : List Document) (row : Document) :
    row ∈ upsertRow documents row := by
  rw [upsertRow]
  split
  · rename_i position hposition
    obtain ⟨i, -, hfound⟩ := Option.bind_eq_some_iff.mp hposition
    exact List.mem_set (lt_length_of_positionOf? hfound) row
  · exact List.mem_append_right _ (List.mem_singleton_self row)

/-- A document without an identity is never overwritten. -/
theorem mem_upsertRow_of_mem (hd : d ∈ documents) (hfree : ∀ id, hasId id d = false) :
    d ∈ upsertRow documents row := by
  rw [upsertRow]
  split
  · rename_i position hposition
    obtain ⟨i, -, hfound⟩ := Option.bind_eq_some_iff.mp hposition
    obtain ⟨k, hk, rfl⟩ := List.mem_iff_getElem.mp hd
    have hne : position ≠ k := by
      rintro rfl
      have hthere := hasId_getElem_of_positionOf? hfound hk
      rw [hfree i] at hthere
      cases hthere
    exact List.mem_iff_getElem.mpr ⟨k, by rwa [List.length_set], List.getElem_set_ne hne _⟩
  · exact List.mem_append_left _ hd

/-- A row without an identity is still there after all rows were merged. -/
theorem mem_foldl_upsertRow (hd : d ∈ rows) (hfree : ∀ id, hasId id d = false) :
    d ∈ rows.foldl upsertRow documents := by
  induction rows using List.reverseRecOn with
  | nil => cases hd
  | append_singleton rows row ih =>
      rw [List.foldl_concat]
      rcases List.mem_append.mp hd with hearlier | hlast
      · exact mem_upsertRow_of_mem (ih hearlier) hfree
      · rw [List.mem_singleton.mp hlast]
        exact mem_upsertRow _ row

end Merged

/-! ### Targets -/

/-- What a target holds after rows were written to it, as the query asks for. -/
structure QuerySpec.Writes (q : QuerySpec) (target : String) (written : List Document)
    (stored after : Collections) : Prop where
  others : ∀ other, other ≠ target → after.rows? other = stored.rows? other
  replaced : q.out = some target → after.rows? target = some written
  found : q.merge = some target → ∀ id, after.findById target id =
    (written.reverse.find? (hasId id)).or (stored.findById target id)
  /-- A row without an identity is found by none. -/
  kept : q.merge = some target → ∀ row ∈ written, (∀ id, hasId id row = false) →
    row ∈ after.rows target

namespace QuerySpec

variable {q : QuerySpec} {page : Page} {owner : Option String} {force : Bool} {target : String}

/-- A pipeline for a page writes the page. -/
theorem writes_of_perform (hextra : q.assembler.extra = [])
    (hsingle : q.out = none ∨ q.merge = none)
    (htarget : q.out = some target ∨ q.merge = some target) {request : Request}
    (hcompile : q.compile page owner force = .ok request) {name : String}
    {stored after : Collections} {rows : List Document}
    (h : request.perform name stored = .ok (rows, after)) :
    ∃ p all, request = .aggregate p ∧ p.unlimited.run stored (stored.rows name) = .ok all ∧
      q.Writes target (all.take page.size) stored after := by
  have hpipeline : q.requiresPipeline = true := by
    rcases htarget with hout | hmerge
    · simp [requiresPipeline, hout]
    · simp [requiresPipeline, hmerge]
  obtain ⟨p, rfl⟩ := exists_pipeline_of_compile hpipeline hcompile
  obtain ⟨written, hwritten, hafter⟩ := Collections.aggregate_eq_ok h
  obtain ⟨made, -, hall, rfl⟩ := run_page_eq_ok hextra hcompile hwritten
  refine ⟨p, made.drop page.offset, rfl, hall, ?_⟩
  generalize (made.drop page.offset).take page.size = written at hafter
  rw [sink?_of_compile hextra hcompile] at hafter
  rcases htarget with hout | hmerge
  · have hmerge := hsingle.resolve_left (by simp [hout])
    rw [hmerge, hout] at hafter
    obtain rfl : after = stored.store target written := (Prod.mk.inj hafter).2
    exact
      { others := fun other hother => stored.rows?_store_ne written hother.symm
        replaced := fun _ => stored.rows?_store_self target written
        found := fun h => absurd h (by simp [hmerge])
        kept := fun h => absurd h (by simp [hmerge]) }
  · have hout := hsingle.resolve_right (by simp [hmerge])
    rw [hmerge] at hafter
    obtain rfl : after = stored.store target (written.foldl upsertRow (stored.rows target)) :=
      (Prod.mk.inj hafter).2
    exact
      { others := fun other hother => stored.rows?_store_ne _ hother.symm
        replaced := fun h => absurd h (by simp [hout])
        found := fun _ id => by
          rw [Collections.findById_store_self, find?_foldl_upsertRow, ← Collections.findById_eq]
        kept := fun _ row hrow hfree => by
          rw [Collections.rows_store_self]
          exact mem_foldl_upsertRow hrow hfree }

end QuerySpec

/-! ### Pages that are written -/

namespace CollectionView

/-- A query with a target writes its first page there, and nothing else changes.  The hook before
this read must leave the query alone, whatever other hooks do, and the page must not be answered
from the cache. -/
theorem writes_of_page {v : CollectionView} {query : Query} {spec : QuerySpec}
    {env : Environment} {w w' : World} {r : ResultPage} {target : String}
    (hbuild : query.build = .ok spec) (htarget : spec.out = some target ∨ spec.merge = some target)
    (hextra : spec.assembler.extra = []) (hfresh : r.fromCache = false)
    (h : v.ReadsPage query env w r w') :
    ∃ context owner force p all, v.context true = .ok context ∧ v.owner context = .ok owner ∧
      spec.compile (PageCursor.first v spec .run).page owner force = .ok (.aggregate p) ∧
      p.unlimited.run w.collections (w.collections.rows v.name) = .ok all ∧
      spec.Writes target (all.take (max (spec.pageSize v.store.config.defaultPageSize) 1))
        w.collections w'.collections := by
  obtain ⟨-, context, owner, force, request, rows, hcontext, howner, hcompile, hperform, -⟩ :=
    performed_of_page hbuild hextra hfresh h
  have hsingle : spec.out = none ∨ spec.merge = none := by
    have hsound := (Query.isSound_of_build hbuild).target
    obtain ⟨criteria, -, rfl⟩ := Query.build_eq hbuild
    exact hsound
  obtain ⟨p, all, rfl, hall, hwrites⟩ :=
    QuerySpec.writes_of_perform hextra hsingle htarget hcompile hperform
  exact ⟨context, owner, force, p, all, hcontext, howner, hcompile, hall, hwrites⟩

end CollectionView

/-! ### Two notes that are written -/

namespace WrittenRowsExample

open TotalExample (view environment world)

def notes : List Document :=
  [[("_id", .int32 1), ("text", .string "a")], [("_id", .int32 2), ("text", .string "b")]]

def others : List Document :=
  [[("_id", .int32 0)], [("_id", .int32 2), ("text", .string "old")]]

/-- The notes from the last to the first, over others of the same identity. -/
def merging : Query :=
  Query.empty.calls [.order "_id" .descending, .mergeInto "others"]

def keeping : Query :=
  Query.empty.calls [.out "kept"]

/-- A view of a store that shows one row on a page, unless a query says otherwise. -/
def narrow : CollectionView :=
  { view with store := { view.store with config := { StoreConfig.default with
    defaultPageSize := 1 } } }

/-- A hook that puts another query in the place of any. -/
def emptying : Hook := fun _ _ =>
  .ok (some (.query Query.empty))

/-- A view whose hook before a run puts another query in the place of any. -/
def diverting : CollectionView :=
  { view with store := { view.store with
    hooks := Hooks.empty.register "notes" ⟨.before, .aggregate⟩ emptying } }

/-- A view with hooks that leave a run alone: one takes items only, one changes the queries of
finds, and one the queries on another collection. -/
def hooked : CollectionView :=
  { view with store := { view.store with
    hooks := ((Hooks.empty.register "notes" ⟨.before, .insert⟩ fun payload _ =>
        match payload with
        | .item _ => .ok none
        | _ => .error "no item").register "notes" ⟨.before, .query⟩ emptying).register
      "others" ⟨.before, .aggregate⟩ emptying } }

/-- A second run, after the target of the first one was dropped. -/
def rerun : Action ResultPage := do
  let caching : CollectionView :=
    { view with options := { OperationOptions.default with useCache := true } }
  let _ ← caching.run keeping
  Store.dropCollection "kept"
  caching.run keeping

/-- Whether a run that succeeds comes from the cache, and whether it leaves the target behind. -/
def leaves (a : Action ResultPage) : Option (Bool × Bool) :=
  let (result, after) := a.run environment (world notes [])
  result.toOption.map fun r => (r.fromCache, (after.collections.rows? "kept").isSome)

end WrittenRowsExample

open TotalExample (view environment world)

open WrittenRowsExample in
theorem CollectionView.writes_of_page_of_notes :
    ∃ spec r w', merging.build = .ok spec ∧ spec.merge = some "others" ∧
      (hooked.run merging).run environment (world notes others) = (.ok r, w') ∧
      spec.Writes "others" notes.reverse (world notes others).collections w'.collections ∧
      w'.collections = [("notes", notes), ("others",
        [[("_id", .int32 0)], [("_id", .int32 2), ("text", .string "b")],
          [("_id", .int32 1), ("text", .string "a")]])] := by
  obtain ⟨spec, r, w', hbuild, hmerge, hextra, hfresh, hrun, hcollections⟩ :
      ∃ spec r w', merging.build = .ok spec ∧ spec.merge = some "others" ∧
        spec.assembler.extra = [] ∧ r.fromCache = false ∧
        (hooked.run merging).run environment (world notes others) = (.ok r, w') ∧
        w'.collections = [("notes", notes), ("others",
          [[("_id", .int32 0)], [("_id", .int32 2), ("text", .string "b")],
            [("_id", .int32 1), ("text", .string "a")]])] :=
    ⟨_, _, _, rfl, rfl, rfl, rfl, rfl, rfl⟩
  have hpasses : hooked.Passes .aggregate merging := by
    rintro context hcontext
    cases hcontext
    rfl
  obtain ⟨context, owner, force, p, all, hcontext, howner, hcompile, hall, hwrites⟩ :=
    CollectionView.writes_of_page hbuild (.inr hmerge) hextra hfresh (.inr ⟨hpasses, hrun⟩)
  refine ⟨spec, r, w', hbuild, hmerge, hrun, ?_, hcollections⟩
  obtain rfl : all = notes.reverse := by
    cases hbuild
    cases hcontext
    cases howner
    cases force <;> cases hcompile <;> exact (Except.ok.inj hall).symm
  cases hbuild
  exact hwrites

open WrittenRowsExample in
/-- Rows behind the first page are not written.  A hook can prevent that anything is, and a run that
is answered from the cache writes nothing either. -/
theorem CollectionView.rows_lost_behind_page :
    (∃ spec r w' p, keeping.build = .ok spec ∧ spec.out = some "kept" ∧ spec.limit = none ∧
      spec.assembler.extra = [] ∧ narrow.store.build = .ok narrow.store ∧ r.fromCache = false ∧
      (narrow.run keeping).run environment (world notes []) = (.ok r, w') ∧
      spec.compile (PageCursor.first narrow spec .run).page none true = .ok (.aggregate p) ∧
      p.unlimited.run (world notes []).collections notes = .ok notes ∧
      w'.collections.rows? "kept" = some (notes.take 1) ∧
      (notes.take 1).length < notes.length) ∧
    leaves (view.run keeping) = some (false, true) ∧
      leaves (diverting.run keeping) = some (false, false) ∧ leaves rerun = some (true, false) := by
  refine ⟨⟨_, _, _, _, rfl, rfl, rfl, rfl, rfl, rfl, rfl, rfl, rfl, rfl, by decide⟩, ?_⟩
  decide +kernel

end DocumentBase
