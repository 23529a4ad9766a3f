import DocumentBase.Proofs.Store.Transitions

/-!
# Writes happen once or not at all

Every operation that writes checks what can be checked before it writes, writes at most once,
and then has nothing left to do that could fail.  So a failure leaves all collections as they
were, and a success has changed one document of one collection.
-/

namespace DocumentBase

open DocumentBase.Action

namespace WriteCall

/-- The operations whose hooks may see the result of a call. -/
def operations : WriteCall → List Operation
  | insert _ => [.insert]
  | replace _ _ => [.replace]
  | save _ => [.insert, .replace]
  | update _ _ => [.update]
  | push _ _ _ => [.push]
  | pull _ _ _ => [.pull]
  | increment _ _ _ => [.increment]
  | multiply _ _ _ => [.multiply]
  | remove _ => [.remove]

/-- Whether a call may overwrite a document. -/
def overwrites : WriteCall → Bool
  | insert _ | remove _ => false
  | _ => true

/-- What a call writes over the document with an identity.  The identity is the one that the hook
before the call leaves in its argument, and what is written comes from that argument and from the
document that was found for it.  A saving looks for the identity of the item that it was given,
before the hook can give it another one. -/
inductive Rewrites (v : CollectionView) (context : HookContext) (c : Collections) :
    WriteCall → Value → Document → Prop
  | replaced {id target : Value} {item prepared existing : Document} (now : Instant)
      (hprepared : v.replacement id item context = .ok (target, prepared))
      (hfound : c.findById v.name target = some existing) :
      Rewrites v context c (.replace id item) target (Item.stampReplacement prepared existing now)
  | saved {id target : Value} {item prepared existing : Document} (now : Instant)
      (hid : item.value? Item.idField = some id)
      (hfound : c.findById v.name id = some existing)
      (hprepared : v.replacement id item context = .ok (target, prepared)) :
      Rewrites v context c (.save item) target (Item.stampReplacement prepared existing now)
  | patched {call : WriteCall} {operation : Operation} {id target : Value} {update u : Update}
      {existing changed : Document} {now : Instant}
      (hcall : call.patch? = some (operation, id, update))
      (hprepared : v.amendment operation id update context = .ok (target, u))
      (hfound : c.findById v.name target = some existing)
      (happlied : u.apply now existing = .ok changed) :
      Rewrites v context c call target changed

/-- What a successful call has written, and what it has made of the collections: one document more
under an identity that was free, another document in the first place of the identity that the call
was sent to, or the document in that place taken out.  Only a removal of an identity that nobody
has changes nothing. -/
inductive Effect (v : CollectionView) (context : HookContext) (c : Collections) :
    WriteCall → Payload → Collections → Prop
  | added {call : WriteCall} {item d : Document} {fresh : String} {now : Instant}
      (hcall : call = .insert item ∨ call = .save item)
      (hprepared : v.insertion item context fresh now = .ok d)
      (hfree : ∀ id, d.value? Item.idField = some id → positionOf? (c.rows v.name) id = none) :
      Effect v context c call (.item d) (c.store v.name (c.rows v.name ++ [d]))
  | overwritten {call : WriteCall} {target : Value} {position : Nat} {d : Document}
      (hwritten : call.Rewrites v context c target d)
      (hposition : positionOf? (c.rows v.name) target = some position) :
      Effect v context c call (.item d) (c.store v.name ((c.rows v.name).set position d))
  | removed {id target : Value} {position : Nat} {d : Document}
      (hprepared : v.removal id context = .ok target)
      (hposition : positionOf? (c.rows v.name) target = some position)
      (hrow : (c.rows v.name)[position]? = some d) :
      Effect v context c (.remove id) (.maybeItem (some d))
        (c.store v.name ((c.rows v.name).eraseIdx position))
  | absent {id target : Value} (hprepared : v.removal id context = .ok target)
      (hposition : positionOf? (c.rows v.name) target = none) :
      Effect v context c (.remove id) (.maybeItem none) c

end WriteCall

/-! ### Storage -/

theorem lt_length_of_positionOf? {rows : List Document} {id : Value} {position : Nat}
    (h : positionOf? rows id = some position) : position < rows.length := by
  obtain ⟨hlt, -⟩ := List.findIdx?_eq_some_iff_getElem.mp h
  exact hlt

namespace Collections

variable {c c' : Collections} {name : String} {id : Value} {d : Document}

theorem eq_store_of_insertOne (h : c.insertOne name d = .ok c') :
    c' = c.store name (c.rows name ++ [d]) := by
  simp only [insertOne] at h
  split at h
  · split at h
    · cases h
    · cases h
      rfl
  · cases h
    rfl

/-- A document is added only if its identity is free. -/
theorem free_of_insertOne (h : c.insertOne name d = .ok c')
    (hid : d.value? Item.idField = some id) : positionOf? (c.rows name) id = none := by
  simp only [insertOne, hid] at h
  split at h
  · cases h
  · rename_i hfree
    simpa using hfree

/-- A document that is found stands at the position of its identity. -/
theorem exists_positionOf?_of_findById (h : c.findById name id = some d) :
    ∃ position, positionOf? (c.rows name) id = some position ∧
      (c.rows name)[position]? = some d :=
  Option.bind_eq_some_iff.mp h

/-- A document was overwritten, or there was none to overwrite. -/
def Overwritten (name : String) (target : Value) : Option Document → Relation
  | some d => fun start now => ∃ position,
      positionOf? (start.rows name) target = some position ∧
        now = start.store name ((start.rows name).set position d)
  | none => Untouched

theorem overwritten_of_replaceOne {result : Option Document}
    (h : c.replaceOne name id d = (result, c')) : Overwritten name id result c c' := by
  simp only [replaceOne] at h
  split at h <;> cases h
  next position hposition => exact ⟨position, hposition, rfl⟩
  next => rfl

theorem eq_of_replaceOne_some {stored : Document}
    (h : c.replaceOne name id d = (some stored, c')) : stored = d := by
  simp only [replaceOne] at h
  split at h <;> cases h
  rfl

/-- An update stores what it makes of the document that it finds. -/
theorem exists_applied_of_updateOne {u : Update} {now : Instant} {after : Document}
    (h : c.updateOne name id u now = .ok (some after, c')) :
    ∃ before, c.findById name id = some before ∧ u.apply now before = .ok after ∧
      c.replaceOne name id after = (some after, c') := by
  simp only [updateOne] at h
  split at h
  next before hfound =>
    obtain ⟨applied, happlied, hreplaced⟩ := Outcome.bind_eq_ok.mp h
    have hstored := Outcome.pure_eq_ok.mp hreplaced
    obtain rfl := eq_of_replaceOne_some hstored
    exact ⟨before, hfound, happlied, hstored⟩
  next => cases h

end Collections

namespace WriteCall

variable {v : CollectionView} {context : HookContext} {c c' : Collections} {call : WriteCall}
  {written : Payload}

/-- A document is overwritten at the place of the identity. -/
theorem Rewrites.effect {target : Value} {d : Document} (h : call.Rewrites v context c target d)
    (hstored : c.replaceOne v.name target d = (some d, c')) :
    call.Effect v context c (.item d) c' := by
  obtain ⟨position, hposition, rfl⟩ := Collections.overwritten_of_replaceOne hstored
  exact .overwritten h hposition

/-- A removal takes out the document that has the identity, and changes nothing only if none
has. -/
theorem effect_of_deleteOne {id target : Value} {removed : Option Document}
    (hprepared : v.removal id context = .ok target)
    (hstored : c.deleteOne v.name target = (removed, c')) :
    (remove id).Effect v context c (.maybeItem removed) c' := by
  simp only [Collections.deleteOne] at hstored
  split at hstored <;> cases hstored
  next position hposition =>
    have hlt : position < (c.rows v.name).length := lt_length_of_positionOf? hposition
    have hrow : (c.rows v.name)[position]? = some (c.rows v.name)[position] :=
      List.getElem?_eq_getElem hlt
    rw [hrow]
    exact .removed hprepared hposition hrow
  next hposition => exact .absent hprepared hposition

/-- A call on one collection leaves the others alone. -/
theorem Effect.rows?_ne {other : String} (h : call.Effect v context c written c')
    (hne : other ≠ v.name) : c'.rows? other = c.rows? other := by
  cases h with
  | added => exact c.rows?_store_ne _ hne.symm
  | overwritten => exact c.rows?_store_ne _ hne.symm
  | removed => exact c.rows?_store_ne _ hne.symm
  | absent => rfl

/-! ### From steps to effects -/

/-- What a step leaves to be seen: one document was written or taken out. -/
theorem Step.effect {operation : Operation} (h : call.Step v context c operation written c') :
    operation ∈ call.operations ∧ call.Effect v context c written c' := by
  cases h with
  | added hcall hprepared hstored =>
      obtain rfl := Collections.eq_store_of_insertOne hstored
      refine ⟨?_, .added hcall hprepared fun _ => Collections.free_of_insertOne hstored⟩
      rcases hcall with rfl | rfl <;> simp [operations]
  | replaced hprepared hfound hstored =>
      obtain rfl := Collections.eq_of_replaceOne_some hstored
      exact ⟨by simp [operations], (Rewrites.replaced _ hprepared hfound).effect hstored⟩
  | saved hid hfound hprepared hstored =>
      obtain rfl := Collections.eq_of_replaceOne_some hstored
      exact ⟨by simp [operations], (Rewrites.saved _ hid hfound hprepared).effect hstored⟩
  | patched hcall hprepared hstored =>
      obtain ⟨existing, hfound, happlied, hreplaced⟩ :=
        Collections.exists_applied_of_updateOne hstored
      refine ⟨?_, (Rewrites.patched hcall hprepared hfound happlied).effect hreplaced⟩
      cases call <;> cases hcall <;> simp [operations]
  | removed hprepared hstored =>
      exact ⟨by simp [operations], effect_of_deleteOne hprepared hstored⟩

end WriteCall

/-- What a call has done when it is successful. -/
def CollectionView.Done (v : CollectionView) (call : WriteCall) (result : Payload) : Relation :=
  fun start now =>
    ∃ operation ∈ call.operations, ∃ context written,
      v.context false = .ok context ∧ call.Effect v context start written now ∧
        result = v.answer operation written context

namespace WriteCall

/-- Whatever a call makes of the collections, it makes in one place of its own collection. -/
theorem fulfils_perform (v : CollectionView) (call : WriteCall) :
    Fulfils Untouched (call.perform v) (v.Done call) := by
  apply (v.fulfils_call call).consequence
  rintro result start now ⟨operation, context, written, hcontext, hstep, rfl⟩
  exact ⟨operation, hstep.effect.1, context, written, hcontext, hstep.effect.2, rfl⟩

/-- A failure leaves every collection as it was.  A success has added one document to the named
collection, or overwritten or removed the one with the identity that the call was sent to, and left
all other collections alone; nothing has changed only when the document to be removed was not there.
The result is what was written, unless the hook after the operation answers with another result of
the same kind. -/
theorem all_or_nothing (v : CollectionView) (call : WriteCall) (env : Environment) (w : World) :
    match (call.perform v).run env w with
    | (.error _, w') => w'.collections = w.collections
    | (.ok result, w') =>
        ∃ operation ∈ call.operations, ∃ context written,
          v.context false = .ok context ∧
          call.Effect v context w.collections written w'.collections ∧
          (∀ other, other ≠ v.name →
            w'.collections.rows? other = w.collections.rows? other) ∧
          result.kind = written.kind ∧
          (result = written ∨ v.options.suppressHooks = false ∧
            v.store.hooks.invoke ⟨.after, operation⟩ written context = .ok (some result)) := by
  have hperform := fulfils_perform v call env w w.collections rfl
  cases hrun : (call.perform v).run env w with
  | mk outcome w' =>
      rw [hrun] at hperform
      cases outcome with
      | error e => exact hperform
      | ok result =>
          obtain ⟨operation, hoperation, context, written, hcontext, heffect, rfl⟩ := hperform
          refine ⟨operation, hoperation, context, written, hcontext, heffect, ?_, ?_, ?_⟩
          · intro other hne
            exact heffect.rows?_ne hne
          · exact v.kind_answer operation written context
          · exact v.answer_cases operation written context

end WriteCall

end DocumentBase
