import DocumentBase.Proofs.Query.Targets
import DocumentBase.Proofs.Store.Edits

/-!
# What is inserted is read back

An inserted item is stored with its own fields and the stamps of a new item.  From then on its
identity leads to it, whatever else is written in the meantime under other identities, and
wherever queries write their rows, if it is not to its own collection.
-/

namespace DocumentBase

open DocumentBase.Action

/-! ### Looking up a document -/

/-- A document has one identity only. -/
theorem hasId_eq_false {id other : Value} {d : Document} (hne : other.same id = false)
    (hother : hasId other d = true) : hasId id d = false := by
  by_contra hid
  rw [Bool.not_eq_false, hasId_iff] at hid
  obtain ⟨i, hi, hiid⟩ := hid
  obtain ⟨j, hj, hjother⟩ := hasId_iff.mp hother
  cases hi.symm.trans hj
  have hsame := Value.same_trans (Value.same_symm hjother) hiid
  simp [hne] at hsame

section Rows

variable {α : Type} {p : α → Bool} {rows : List α} {position : Nat} {d : α}

/-- What is looked for is found in spite of changes to a row that it is not. -/
theorem find?_set_of_not {h : position < rows.length} (hold : p rows[position] = false)
    (hnew : p d = false) : (rows.set position d).find? p = rows.find? p := by
  induction rows generalizing position with
  | nil => rfl
  | cons first rest ih =>
      cases position with
      | zero =>
          rw [List.getElem_cons_zero] at hold
          rw [List.set_cons_zero, List.find?_cons, List.find?_cons, hold, hnew]
      | succ position =>
          rw [List.set_cons_succ, List.find?_cons, List.find?_cons]
          cases p first with
          | true => rfl
          | false => exact ih hold

theorem find?_eraseIdx_of_not {h : position < rows.length} (hold : p rows[position] = false) :
    (rows.eraseIdx position).find? p = rows.find? p := by
  induction rows generalizing position with
  | nil => rfl
  | cons first rest ih =>
      cases position with
      | zero =>
          rw [List.getElem_cons_zero] at hold
          rw [List.eraseIdx_cons_zero, List.find?_cons, hold]
      | succ position =>
          rw [List.eraseIdx_cons_succ, List.find?_cons, List.find?_cons]
          cases p first with
          | true => rfl
          | false => exact ih hold

end Rows

namespace Collections

variable {c c' : Collections} {name : String} {id : Value} {d : Document}

theorem findById_store_self (rows : List Document) :
    (c.store name rows).findById name id = rows.find? (hasId id) := by
  rw [findById_eq, Collections.rows, rows?_store_self]
  rfl

theorem findById_of_rows_eq (h : c'.rows name = c.rows name) (id : Value) :
    c'.findById name id = c.findById name id := by
  rw [findById_eq, findById_eq, h]

theorem findById_of_insertOne (h : c.insertOne name d = .ok c')
    (hid : d.value? Item.idField = some id) (hself : id.same id = true) :
    c'.findById name id = some d := by
  have hfree : (c.rows name).find? (hasId id) = none := by
    rw [List.find?_eq_none]
    intro e he
    rw [positionOf?_eq_none.mp (free_of_insertOne h hid) e he]
    exact Bool.false_ne_true
  rw [eq_store_of_insertOne h, findById_store_self, List.find?_append, hfree, Option.none_or,
    List.find?_singleton, if_pos (hasId_iff.mpr ⟨id, hid, hself⟩)]

/-- An edit under another identity leaves a document where it is found. -/
theorem Edit.findById {named : Option Value} (h : c.Edit name named c')
    (hnamed : ∀ other, named = some other → other.same id = false)
    (hd : c.findById name id = some d) : c'.findById name id = some d := by
  cases h with
  | added e hfree =>
      rw [findById_eq] at hd
      rw [findById_store_self, List.find?_append, hd, Option.some_or]
  | overwritten target position e htarget hposition hid =>
      have hne := hnamed target htarget
      have hlt := lt_length_of_positionOf? hposition
      have hold := hasId_eq_false hne (hasId_getElem_of_positionOf? hposition hlt)
      rwa [findById_store_self, find?_set_of_not hold (hasId_eq_false hne hid), ← findById_eq]
  | removed target position htarget hposition =>
      have hne := hnamed target htarget
      have hlt := lt_length_of_positionOf? hposition
      have hold := hasId_eq_false hne (hasId_getElem_of_positionOf? hposition hlt)
      rwa [findById_store_self, find?_eraseIdx_of_not hold, ← findById_eq]
  | absent => exact hd

end Collections

/-- Rows that are stored elsewhere leave a document where it is found. -/
theorem Sink.keeps_findById {sink : Sink} {name : String} (h : sink.target ≠ name) (id : Value)
    (d : Document) : sink.Keeps fun c => c.findById name id = some d := by
  intro c rows hd
  rw [← hd]
  apply Collections.findById_of_rows_eq
  cases sink with
  | replace collection => exact congrArg (Option.getD · []) (c.rows?_store_ne _ h)
  | merge collection => exact congrArg (Option.getD · []) (c.rows?_store_ne _ h)

/-- A query that writes to other collections leaves the document where it is found. -/
theorem QuerySpec.Spares.keeps_findById {q : QuerySpec} {name : String} (hq : q.Spares name)
    (id : Value) (d : Document) : q.Keeps fun c => c.findById name id = some d where
  page hcompile hsink := Sink.keeps_findById (hq.target_ne_of_compile hcompile hsink) id d
  count hcount hsink := Sink.keeps_findById (hq.target_ne_of_countRequest hcount hsink) id d

/-! ### New items -/

namespace Item

/-- The fields that a new item is stamped with, whatever it had under them. -/
def stampedFields : List String := [createdField, updatedField, ownerField]

theorem value?_stampNew (item : Document) (fresh : Value) (owner : Option String) (now : Instant)
    {key : String} (hkey : key ∉ stampedFields) :
    (stampNew item fresh owner now).value? key =
      if item.has idField then item.value? key else (item.put idField fresh).value? key := by
  simp only [stampedFields, List.mem_cons, List.not_mem_nil, or_false, not_or] at hkey
  obtain ⟨hcreated, hupdated, howner⟩ := hkey
  have hdated : ∀ d : Document,
      ((d.put createdField (.date now)).put updatedField (.date now)).value? key =
        d.value? key := by
    intro d
    rw [Document.value?_put_ne _ _ (Ne.symm hupdated),
      Document.value?_put_ne _ _ (Ne.symm hcreated)]
  have hstamped : (stampNew item fresh owner now).value? key =
      (if item.has idField then item else item.put idField fresh).value? key := by
    cases owner with
    | some owner => exact (Document.value?_put_ne _ _ (Ne.symm howner)).trans (hdated _)
    | none => exact (Document.value?_without_ne _ (Ne.symm howner)).trans (hdated _)
  rw [hstamped]
  split <;> rfl

/-- A new item has the identity that it was given, or the fresh one. -/
theorem value?_id_stampNew (item : Document) (fresh : Value) (owner : Option String)
    (now : Instant) :
    (stampNew item fresh owner now).value? idField = some ((item.value? idField).getD fresh) := by
  rw [value?_stampNew item fresh owner now (by decide), Document.has]
  cases h : item.value? idField with
  | some id => simp
  | none => simp

end Item

namespace CollectionView

variable {v : CollectionView}

/-- Without hooks an insertion returns the stamped item, and has stored it. -/
theorem stored_of_insert (hooks : v.Unhooked) {item d : Document} {env : Environment}
    {w w' : World} (h : (v.insert item).run env w = (.ok d, w')) :
    ∃ fresh owner now, d = Item.stampNew item (.string fresh) owner now ∧
      w.collections.insertOne v.name d = .ok w'.collections := by
  have htook := v.fulfils_insert item env w w.collections rfl
  rw [h] at htook
  obtain ⟨operation, context, written, -, hstep, hanswer⟩ := htook
  rw [answer_of_no_hooks hooks] at hanswer
  subst hanswer
  cases hstep with
  | @added _ given stored fresh now _ hcall hprepared hstored =>
      rw [insertion_of_no_hooks hooks] at hprepared
      obtain ⟨cleaned, hclean, hstamped⟩ := Outcome.bind_eq_ok.mp hprepared
      obtain ⟨-, rfl⟩ := Document.clean_eq_ok.mp hclean
      rcases hcall with hcall | hcall <;> cases hcall
      exact ⟨fresh, context.identity, now, (Outcome.pure_eq_ok.mp hstamped).symm, hstored⟩
  | patched hcall => cases hcall

/-- Without hooks a view can read its collection in an environment, as far as it may see the
documents of an owner. -/
structure MayRead (v : CollectionView) (env : Environment) (owner : Option String) : Prop where
  hooks : v.Unhooked
  acting : v.context true >>= v.owner = .ok owner
  access : env.access v.name v.acquireOptions = .ok ()

/-- A look-up reads the document with the identity, and drops it if it may not be seen. -/
theorem MayRead.reads_get {env : Environment} {owner : Option String} (hv : v.MayRead env owner)
    (id : Value) : Reads env (v.get id) fun stored =>
      .ok ((stored.findById v.name id).filter (isVisible owner)) := by
  obtain ⟨context, hcontext, howner⟩ := Outcome.bind_eq_ok.mp hv.acting
  have hheld : Reads env (v.holding .get (Action.read fun c => .ok (c.findById v.name id)))
      fun stored => .ok (stored.findById v.name id) := by
    apply ((reads_read fun c => .ok (c.findById v.name id)).holding v .get).congr
    intro stored
    rw [hv.access]
    rfl
  have hafter : ∀ found : Option Document, Reads env (do
      let result ← v.after .get (.maybeItem (found.filter (isVisible owner))) context
      result.asMaybeItem) fun _ => .ok (found.filter (isVisible owner)) := by
    intro found
    have htold := v.tells_after env .get (.maybeItem (found.filter (isVisible owner))) context
    rw [answer_of_no_hooks hv.hooks] at htold
    exact htold.reads_given (reads_lift _)
  have hbefore := v.tells_before env .get (.itemId id) context
  rw [argument_of_no_hooks hv.hooks] at hbefore
  unfold get
  rw [hcontext]
  apply (tells_lift env (.ok context)).reads_given
  apply hbefore.reads_given
  apply (tells_lift env (.ok id)).reads_given
  rw [howner]
  apply (tells_lift env (.ok owner)).reads_given
  exact hheld.bind hafter

end CollectionView

/-! ### Sessions -/

/-- A step without hooks that leaves what a collection has under an identity alone: a write to
the collection names other identities only and no path below one, and a query writes its rows to
other collections only. -/
def SessionStep.LeavesAlone (step : SessionStep) (name : String) (id : Value) : Prop :=
  step.view.Unhooked ∧
    match step.call with
    | .write call => step.view.name = name →
        (∀ other, call.named = some other → other.same id = false) ∧
          call.StaysOutside Item.idField
    | .read _ query => query.Spares name

/-- A step that leaves an identity alone leaves what is found under it. -/
theorem SessionStep.LeavesAlone.keeps {step : SessionStep} {name : String} {id : Value}
    (h : step.LeavesAlone name id) (d : Document) :
    Keeps (fun c => c.findById name id = some d) (step.call.perform step.view) := by
  obtain ⟨environment, view, call⟩ := step
  obtain ⟨hooks, hcall⟩ := h
  cases call with
  | write call =>
      refine StoreCall.keeps_write fun _ c _ _ c' _ hd hstep => ?_
      by_cases hname : view.name = name
      · obtain ⟨hnamed, houtside⟩ := hcall hname
        have hedit := hstep.edit hooks houtside
        rw [hname] at hedit
        exact hedit.findById hnamed hd
      · have hrows : c'.rows name = c.rows name :=
          congrArg (Option.getD · []) (hstep.effect.2.rows?_ne (Ne.symm hname))
        rwa [Collections.findById_of_rows_eq hrows]
  | read mode query =>
      refine StoreCall.keeps_read fun _ _ _ hprepared => ?_
      rw [CollectionView.prepared, CollectionView.argument_of_no_hooks hooks] at hprepared
      exact (hcall.spares_of_build hprepared).keeps_findById id d

/-- An insertion that succeeds returns the item with the stamps of a new one.  Every view that
may read the collection gets the returned document under its identity, at once and after any
session that leaves this identity alone; a view that reads only what is owned gets it if it
belongs to the acting identity. -/
theorem Session.get_of_insert {v : CollectionView} (hooks : v.Unhooked) {item d : Document}
    {env : Environment} {w w' : World} (hinsert : (v.insert item).run env w = (.ok d, w'))
    (hself : ∀ id, item.value? Item.idField = some id → id.same id = true) :
    (∀ key ∉ Item.stampedFields, (key = Item.idField → item.has Item.idField = true) →
        d.value? key = item.value? key) ∧
      ∃ id, d.value? Item.idField = some id ∧
        ∀ session : Session, (∀ step ∈ session, step.LeavesAlone v.name id) →
          ∀ (reader : CollectionView) (later : Environment) (owner : Option String),
            reader.name = v.name → reader.MayRead later owner →
              ((reader.get id).run later (session.run w')).1 =
                .ok ((some d).filter (CollectionView.isVisible owner)) := by
  obtain ⟨fresh, owner, now, hd, hstored⟩ := v.stored_of_insert hooks hinsert
  constructor
  · intro key hkey hid
    rw [hd, Item.value?_stampNew _ _ _ _ hkey]
    by_cases hhas : item.has Item.idField = true
    · rw [if_pos hhas]
    · rw [if_neg hhas]
      exact item.value?_put_ne _ fun heq => hhas (hid heq.symm)
  · obtain ⟨id, hid, hsame⟩ : ∃ id, d.value? Item.idField = some id ∧ id.same id = true := by
      rw [hd, Item.value?_id_stampNew]
      cases hvalue : item.value? Item.idField with
      | some id => exact ⟨id, rfl, hself id hvalue⟩
      | none => exact ⟨.string fresh, rfl, by simp [Value.same, Value.sameScalar]⟩
    refine ⟨id, hid, ?_⟩
    intro session hsession reader later owner hname hreader
    have hfound : (session.run w').collections.findById v.name id = some d :=
      Session.keeps (fun step hstep => (hsession step hstep).keeps d)
        (Collections.findById_of_insertOne hstored hid hsame)
    obtain ⟨events, hrun⟩ := hreader.reads_get id (session.run w')
    rw [hrun, hname]
    dsimp only
    rw [hfound]

namespace PersistenceExample

open OwnedExample (environment)
open SessionExample

def stored : Document :=
  [(Item.idField, .int32 1), ("text", .string "a"), (Item.createdField, .date 0),
    (Item.updatedField, .date 0)]

def inserted : World :=
  (((view "notes").insert (note (.int32 1) "a")).run environment empty).2

/-- A session with other notes.  The second step fails, for the identity is taken. -/
def others : Session :=
  [step "notes" (.write (.insert (note (.int32 2) "b"))),
    step "notes" (.write (.insert (note (.int32 1) "c"))),
    step "notes" (.write (.update (.int32 2) [("text", .string "d")])),
    step "notes" (.read .find (Query.empty.calls [.out "copies"])),
    step "notes" (.write (.remove (.int32 2)))]

theorem run_insert :
    ((view "notes").insert (note (.int32 1) "a")).run environment empty = (.ok stored, inserted) :=
  rfl

theorem leavesAlone : ∀ step ∈ others, step.LeavesAlone "notes" (.int32 1) := by
  have hwrites : ∀ call : WriteCall,
      (∀ other, call.named = some other → other.same (.int32 1) = false) →
      call.StaysOutside Item.idField →
      (step "notes" (.write call)).LeavesAlone "notes" (.int32 1) :=
    fun call hnamed houtside => ⟨.inr rfl, fun _ => ⟨hnamed, houtside⟩⟩
  have hother : ∀ other, some (Value.int32 2) = some other → other.same (.int32 1) = false := by
    rintro _ ⟨⟩
    decide +kernel
  have hpaths : ∀ call : WriteCall, call.paths = [] → call.StaysOutside Item.idField := by
    intro call hnone path hpath
    rw [hnone] at hpath
    cases hpath
  have hquery : (Query.empty.calls [.out "copies"]).Spares "notes" := by
    refine ⟨by decide, nofun, ?_⟩
    intro entry hentry
    cases hentry
  intro step hstep
  simp only [others, List.mem_cons, List.not_mem_nil, or_false] at hstep
  rcases hstep with rfl | rfl | rfl | rfl | rfl
  · exact hwrites _ nofun (hpaths _ rfl)
  · exact hwrites _ nofun (hpaths _ rfl)
  · refine hwrites _ hother ?_
    intro path hpath
    rw [List.mem_singleton.mp hpath]
    decide
  · exact ⟨.inr rfl, hquery⟩
  · exact hwrites _ hother (hpaths _ rfl)

end PersistenceExample

open SessionExample PersistenceExample in
theorem Session.get_of_insert_between_others :
    (((view "notes").get (.int32 1)).run OwnedExample.environment (others.run inserted)).1 =
      .ok (some stored) := by
  have hself : ∀ id, (note (.int32 1) "a").value? Item.idField = some id → id.same id = true := by
    rintro _ ⟨⟩
    decide +kernel
  obtain ⟨-, id, hid, hget⟩ := get_of_insert (.inr rfl) run_insert hself
  cases hid
  exact hget others leavesAlone (view "notes") OwnedExample.environment none rfl
    ⟨.inr rfl, rfl, rfl⟩

namespace PersistenceExample

open OwnedExample (environment)
open SessionExample

/-- The notes with another text, of which there are none, become the notes. -/
def overwriting : Session :=
  [step "notes" (.read .find
    ((Query.ofFilter (Filter.empty.calls [.compare .eq "text" (.string "b")])).calls
      [.out "notes"]))]

/-- A draft with the same identity is merged into the notes. -/
def merging : Session :=
  [step "drafts" (.write (.insert (note (.int32 1) "b"))),
    step "drafts" (.read .find (Query.empty.calls [.mergeInto "notes"]))]

def visitor : CollectionView :=
  { store := { Store.basic 0 with identity := .visitor ⟨"ann", []⟩ }
    name := "notes"
    options := { OperationOptions.default with onlyOwned := true } }

def textAfter (session : Session) (reader : CollectionView) : Outcome (Option String) :=
  ((reader.get (.int32 1)).run environment (session.run inserted)).1.map fun found =>
    found.bind fun d => (d.value? "text").bind Value.text?

end PersistenceExample

open SessionExample PersistenceExample in
/-- A query names no identities, but with its own collection as target it takes the inserted
note away or puts another one in its place.  A visitor, too, does not get what was inserted. -/
theorem Session.get_of_insert_lost :
    textAfter [] (view "notes") = .ok (some "a") ∧ textAfter overwriting (view "notes") = .ok none ∧
      textAfter merging (view "notes") = .ok (some "b") ∧ textAfter [] visitor = .ok none :=
  ⟨rfl, rfl, rfl, rfl⟩

end DocumentBase
