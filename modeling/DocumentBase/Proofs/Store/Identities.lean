import DocumentBase.Proofs.Query.Targets
import DocumentBase.Proofs.Store.Edits

/-!
# Identities stay unique

A new document is stored only under an identity that is free, a document that is overwritten
keeps its identity, and rows that are merged into a collection overwrite the documents with their
identities.  So in every session that begins with empty collections and writes in no other way
than these, no collection ever has two documents of the same identity.
-/

namespace DocumentBase

open DocumentBase.Action

/-! ### Documents with different identities -/

/-- Two documents do not have the same identity. -/
def DifferInId (d e : Document) : Prop :=
  ∀ i j, d.value? Item.idField = some i → e.value? Item.idField = some j → i.same j = false

theorem DifferInId.symm {d e : Document} (h : DifferInId d e) : DifferInId e d := by
  intro i j hi hj
  rw [Value.same_comm]
  exact h j i hj hi

/-- It is the identity alone that matters. -/
theorem DifferInId.of_hasId {d e x : Document} {id : Value} (h : DifferInId e x)
    (he : hasId id e = true) (hd : hasId id d = true) : DifferInId d x := by
  intro i j hi hj
  obtain ⟨k, hk, hkid⟩ := hasId_iff.mp he
  obtain ⟨_, hi', hiid⟩ := hasId_iff.mp hd
  cases hi.symm.trans hi'
  rw [← h k j hk hj]
  have hik : i.same k = true := Value.same_trans hiid (Value.same_symm hkid)
  rw [Bool.eq_iff_iff]
  exact ⟨Value.same_trans (Value.same_symm hik), Value.same_trans hik⟩

namespace DistinctIds

variable {rows : List Document} {d : Document} {id : Value} {position : Nat}

theorem append (h : DistinctIds rows)
    (hfree : ∀ id, d.value? Item.idField = some id → positionOf? rows id = none) :
    DistinctIds (rows ++ [d]) := by
  refine List.pairwise_append.mpr ⟨h, List.pairwise_singleton _ _, ?_⟩
  intro e he x hx i j hi hj
  cases List.mem_singleton.mp hx
  have hid := positionOf?_eq_none.mp (hfree j hj) e he
  simpa [hasId, hi] using hid

theorem set (h : DistinctIds rows) (hposition : positionOf? rows id = some position)
    (hid : hasId id d = true) : DistinctIds (rows.set position d) := by
  have hlt := lt_length_of_positionOf? hposition
  have hold := hasId_getElem_of_positionOf? hposition hlt
  have hrows : ∀ i j (hi : i < rows.length) (hj : j < rows.length), i < j →
      DifferInId rows[i] rows[j] := List.pairwise_iff_getElem.mp h
  refine List.pairwise_iff_getElem.mpr fun i j hi hj hij => ?_
  rw [List.length_set] at hi hj
  change DifferInId _ _
  by_cases hpi : position = i
  · subst hpi
    rw [List.getElem_set_self, List.getElem_set_ne (by omega)]
    exact (hrows position j hi hj hij).of_hasId hold hid
  · by_cases hpj : position = j
    · subst hpj
      rw [List.getElem_set_self, List.getElem_set_ne hpi]
      exact ((hrows i position hi hj hij).symm.of_hasId hold hid).symm
    · rw [List.getElem_set_ne hpi, List.getElem_set_ne hpj]
      exact hrows i j hi hj hij

theorem eraseIdx (h : DistinctIds rows) (position : Nat) :
    DistinctIds (rows.eraseIdx position) :=
  List.Pairwise.sublist (List.eraseIdx_sublist rows position) h

/-- A row that is merged overwrites the document with its identity. -/
theorem upsertRow (h : DistinctIds rows) (row : Document) :
    DistinctIds (upsertRow rows row) := by
  rw [DocumentBase.upsertRow]
  cases hid : row.value? Item.idField with
  | none =>
      apply h.append
      rw [hid]
      exact nofun
  | some i =>
      rw [Option.bind_some]
      cases hposition : positionOf? rows i with
      | none =>
          apply h.append
          rintro j hj
          cases hid.symm.trans hj
          exact hposition
      | some position =>
          have hold := hasId_getElem_of_positionOf? hposition (lt_length_of_positionOf? hposition)
          obtain ⟨j, -, hji⟩ := hasId_iff.mp hold
          have hself : i.same i = true := Value.same_trans (Value.same_symm hji) hji
          exact h.set hposition (hasId_iff.mpr ⟨i, hid, hself⟩)

theorem foldl_upsertRow (h : DistinctIds rows) (merged : List Document) :
    DistinctIds (merged.foldl DocumentBase.upsertRow rows) := by
  induction merged generalizing rows with
  | nil => exact h
  | cons row rest ih => exact ih (h.upsertRow row)

end DistinctIds

/-! ### All collections -/

namespace Collections

/-- An edit keeps the identities distinct. -/
theorem Edit.distinctIds {c c' : Collections} {name : String} {named : Option Value}
    (h : c.Edit name named c') (hc : c.Each DistinctIds) : c'.Each DistinctIds := by
  cases h with
  | added d hfree => exact hc.store name ((hc name).append hfree)
  | overwritten target position d hnamed hposition hid =>
      exact hc.store name ((hc name).set hposition hid)
  | removed target position hnamed hposition =>
      exact hc.store name ((hc name).eraseIdx position)
  | absent => exact hc

end Collections

theorem Sink.keeps_distinctIds_merge (target : String) :
    (Sink.merge target).Keeps (Collections.Each DistinctIds) :=
  fun _ rows hc => hc.store target ((hc target).foldl_upsertRow rows)

theorem QuerySpec.Merges.keeps_distinctIds {q : QuerySpec} (hq : q.Merges) :
    q.Keeps (Collections.Each DistinctIds) where
  page := by
    intro _ _ _ _ _ hcompile hsink
    obtain ⟨target, rfl⟩ := hq.exists_merge_of_compile hcompile hsink
    exact Sink.keeps_distinctIds_merge target
  count := by
    intro _ _ _ hcount hsink
    rw [hq.sink?_of_countRequest hcount] at hsink
    cases hsink

/-! ### Sessions -/

/-- A step without hooks that writes, but not below an identity, or that merges the rows of a
query into a collection. -/
def SessionStep.RespectsIds (step : SessionStep) : Prop :=
  step.view.Unhooked ∧
    match step.call with
    | .write call => call.StaysOutside Item.idField
    | .read _ query => query.MergesRows

/-- A step that respects identities keeps them distinct in every collection. -/
theorem SessionStep.RespectsIds.keeps {step : SessionStep} (h : step.RespectsIds) :
    Keeps (Collections.Each DistinctIds) (step.call.perform step.view) := by
  obtain ⟨environment, view, call⟩ := step
  obtain ⟨hooks, hcall⟩ := h
  cases call with
  | write call =>
      refine StoreCall.keeps_write fun _ _ _ _ _ _ hc hstep => ?_
      exact (hstep.edit hooks hcall).distinctIds hc
  | read mode query =>
      refine StoreCall.keeps_read fun _ _ _ hprepared => ?_
      rw [CollectionView.prepared, CollectionView.argument_of_no_hooks hooks] at hprepared
      exact (hcall.merges_of_build hprepared).keeps_distinctIds

/-- Whatever the arguments are and whichever calls fail, the identities in every collection stay
distinct.  Every beginning of a session is a session, so this is so all the time. -/
theorem Session.distinctIds_run {session : Session} (hsteps : ∀ step ∈ session, step.RespectsIds)
    {w : World} (hempty : w.collections = []) (name : String) :
    DistinctIds ((session.run w).collections.rows name) := by
  have hstart : w.collections.Each DistinctIds := by
    rw [hempty]
    exact Collections.each_nil List.Pairwise.nil
  exact Session.keeps (fun step hstep => (hsteps step hstep).keeps) hstart name

namespace IdentityExample

open SessionExample

/-- All documents of a collection, merged into another one. -/
def copying (target : String) : Query :=
  (Query.ofFilter .empty).calls [.mergeInto target]

/-- The second insertion fails; the rows of the drafts replace the first note and add another. -/
def session : Session :=
  [step "notes" (.write (.insert (note (.int32 1) "a"))),
    step "notes" (.write (.insert (note (.double ⟨0x3ff0000000000000⟩) "b"))),
    step "drafts" (.write (.save (note (.int64 1) "c"))),
    step "drafts" (.write (.save (note (.int64 2) "d"))),
    step "drafts" (.read .run (copying "notes"))]

def texts : List (Option String) :=
  ((session.run empty).collections.rows "notes").map fun d =>
    (d.value? "text").bind Value.text?

theorem respectsIds : ∀ step ∈ session, step.RespectsIds := by
  have hwrites : ∀ name call, WriteCall.paths call = [] →
      (step name (.write call)).RespectsIds := by
    intro name call hpaths
    refine ⟨.inr rfl, ?_⟩
    intro path hpath
    rw [hpaths] at hpath
    cases hpath
  have hmerges : (step "drafts" (.read .run (copying "notes"))).RespectsIds :=
    ⟨.inr rfl, _, _, "notes", rfl, List.mem_singleton.mpr rfl⟩
  intro step hstep
  simp only [session, List.mem_cons, List.not_mem_nil, or_false] at hstep
  rcases hstep with rfl | rfl | rfl | rfl | rfl
  · exact hwrites _ _ rfl
  · exact hwrites _ _ rfl
  · exact hwrites _ _ rfl
  · exact hwrites _ _ rfl
  · exact hmerges

end IdentityExample

open SessionExample IdentityExample in
theorem Session.distinctIds_run_of_copied_drafts :
    texts = [some "c", some "d"] ∧
      DistinctIds ((session.run empty).collections.rows "notes") :=
  ⟨by decide +kernel, distinctIds_run respectsIds rfl "notes"⟩

end DocumentBase
