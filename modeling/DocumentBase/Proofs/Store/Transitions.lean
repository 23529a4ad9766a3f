import DocumentBase.Proofs.Store.Steps
import DocumentBase.Store.Writing

/-!
# What a write does

Every operation that writes works out what to write from its argument and the hook before it,
and then makes one change of the stored collections.  A step says all of this: what was asked,
what was written, and what has become of the collections.  A call that succeeds has taken a
step, and a call that fails has left the collections as they were.
-/

namespace DocumentBase

open DocumentBase.Action

/-- The operations that write, with their arguments. -/
inductive WriteCall where
  | insert (item : Document)
  | replace (id : Value) (item : Document)
  | save (item : Document)
  | update (id : Value) (fields : Document)
  | push (id : Value) (field : String) (values : List Value)
  | pull (id : Value) (field : String) (values : List Value)
  | increment (id : Value) (field : String) (operand : Value)
  | multiply (id : Value) (field : String) (operand : Value)
  | remove (id : Value)

namespace CollectionView

/-! ### Prepared arguments -/

/-- A new item as it is stored under a fresh identity at some time. -/
def insertion (v : CollectionView) (item : Document) (context : HookContext) (fresh : String)
    (now : Instant) : Outcome Document := do
  let payload ← v.argument .insert (.item item) context
  let cleaned ← Document.clean (← payload.asItem)
  return Item.stampNew cleaned (.string fresh) context.identity now

/-- The identity of the item to be replaced, and its replacement before it is stamped. -/
def replacement (v : CollectionView) (id : Value) (item : Document) (context : HookContext) :
    Outcome (Value × Document) := do
  let payload ← v.argument .replace (.item (item.put Item.idField id)) context
  let item ← payload.asItem
  match item.value? Item.idField with
  | none => .error (.invalidDocument .noIdentity)
  | some id => return (id, ← Document.clean item)

/-- The identity of the item to be changed, and the update that it gets. -/
def amendment (v : CollectionView) (operation : Operation) (id : Value) (update : Update)
    (context : HookContext) : Outcome (Value × Update) := do
  let payload ← v.argument operation (.patch id update) context
  let (id, update) ← payload.asPatch
  update.validate
  return (id, ← cleanUpdate update)

/-- The identity of the item to be taken out. -/
def removal (v : CollectionView) (id : Value) (context : HookContext) : Outcome Value := do
  let payload ← v.argument .remove (.itemId id) context
  payload.asItemId

end CollectionView

namespace WriteCall

/-- Runs a call.  What it returns is given as the payload that hooks see. -/
def perform (v : CollectionView) : WriteCall → Action Payload
  | insert item => do return .item (← v.insert item)
  | replace id item => do return .item (← v.replace id item)
  | save item => do return .item (← v.save item)
  | update id fields => do return .item (← v.update id fields)
  | push id field values => do return .item (← v.push id field values)
  | pull id field values => do return .item (← v.pull id field values)
  | increment id field operand => do return .item (← v.increment id field operand)
  | multiply id field operand => do return .item (← v.multiply id field operand)
  | remove id => do return .maybeItem (← v.remove id)

/-- The change of an item that a call asks for, with its identity. -/
def patch? : WriteCall → Option (Operation × Value × Update)
  | update id fields => some (.update, id, .set fields)
  | push id field values => some (.push, id, .push field values)
  | pull id field values => some (.pull, id, .pull field values)
  | increment id field operand => some (.increment, id, .increment field operand)
  | multiply id field operand => some (.multiply, id, .multiply field operand)
  | _ => none

/-- A successful call: the operation that its result is told as, what it has written, and the
collections that it has made of `c`. -/
inductive Step (v : CollectionView) (context : HookContext) (c : Collections) :
    WriteCall → Operation → Payload → Collections → Prop
  | added {call : WriteCall} {item stored : Document} {fresh : String} {now : Instant}
      {c' : Collections}
      (hcall : call = .insert item ∨ call = .save item)
      (hprepared : v.insertion item context fresh now = .ok stored)
      (hstored : c.insertOne v.name stored = .ok c') :
      Step v context c call .insert (.item stored) c'
  | replaced {id target : Value} {item prepared existing stored : Document} {now : Instant}
      {c' : Collections}
      (hprepared : v.replacement id item context = .ok (target, prepared))
      (hfound : c.findById v.name target = some existing)
      (hstored : c.replaceOne v.name target (Item.stampReplacement prepared existing now) =
        (some stored, c')) :
      Step v context c (.replace id item) .replace (.item stored) c'
  /-- The item that is saved is looked for before the hook can give it another identity. -/
  | saved {id target : Value} {item prepared existing stored : Document} {now : Instant}
      {c' : Collections}
      (hid : item.value? Item.idField = some id)
      (hfound : c.findById v.name id = some existing)
      (hprepared : v.replacement id item context = .ok (target, prepared))
      (hstored : c.replaceOne v.name target (Item.stampReplacement prepared existing now) =
        (some stored, c')) :
      Step v context c (.save item) .replace (.item stored) c'
  | patched {call : WriteCall} {operation : Operation} {id target : Value} {update u : Update}
      {stored : Document} {now : Instant} {c' : Collections}
      (hcall : call.patch? = some (operation, id, update))
      (hprepared : v.amendment operation id update context = .ok (target, u))
      (hstored : c.updateOne v.name target u now = .ok (some stored, c')) :
      Step v context c call operation (.item stored) c'
  | removed {id target : Value} {removed : Option Document} {c' : Collections}
      (hprepared : v.removal id context = .ok target)
      (hstored : c.deleteOne v.name target = (removed, c')) :
      Step v context c (.remove id) .remove (.maybeItem removed) c'

end WriteCall

/-! ### Nothing to store over -/

namespace Collections

theorem eq_of_replaceOne_none {c c' : Collections} {name : String} {id : Value} {d : Document}
    (h : c.replaceOne name id d = (none, c')) : c' = c := by
  simp only [replaceOne] at h
  split at h <;> cases h
  rfl

theorem eq_of_updateOne_none {c c' : Collections} {name : String} {id : Value} {u : Update}
    {now : Instant} (h : c.updateOne name id u now = .ok (none, c')) : c' = c := by
  simp only [updateOne] at h
  split at h
  · obtain ⟨changed, -, hpair⟩ := Outcome.bind_eq_ok.mp h
    exact eq_of_replaceOne_none (Outcome.pure_eq_ok.mp hpair)
  · cases h
    rfl

end Collections

namespace CollectionView

/-! ### The parts of operations -/

theorem exists_item_of_kind {p : Payload} (h : p.kind = .item) : ∃ d, p = .item d := by
  cases p with
  | item d => exact ⟨d, rfl⟩
  | _ => cases h

theorem exists_maybeItem_of_kind {p : Payload} (h : p.kind = .maybeItem) :
    ∃ d, p = .maybeItem d := by
  cases p with
  | maybeItem d => exact ⟨d, rfl⟩
  | _ => cases h

/-- Telling what was written cannot fail. -/
theorem tells_written (v : CollectionView) (operation : Operation) (item : Document)
    (context : HookContext) :
    ∃ d, v.answer operation (.item item) context = .item d ∧
      ∀ env, Tells env (v.written operation item context) (.ok d) := by
  obtain ⟨d, hd⟩ := exists_item_of_kind (v.kind_answer operation (.item item) context)
  refine ⟨d, hd, ?_⟩
  intro env
  apply (v.tells_after env operation (.item item) context).bind
  rw [hd]
  exact tells_lift env (.ok d)

/-- What a call has done when it is successful. -/
def Took (v : CollectionView) (call : WriteCall) (result : Payload) : Relation :=
  fun start now =>
    ∃ operation context written, v.context false = .ok context ∧
      call.Step v context start operation written now ∧
      result = v.answer operation written context

variable (v : CollectionView) {call : WriteCall} {context : HookContext}

/-- The end of every operation that returns an item. -/
theorem fulfils_written {operation : Operation} (item : Document)
    (hcontext : v.context false = .ok context) :
    Fulfils (call.Step v context · operation (.item item) ·) (v.written operation item context)
      fun d => v.Took call (.item d) := by
  obtain ⟨d, hd, htells⟩ := v.tells_written operation item context
  apply (Fulfils.of_tells htells).consequence
  rintro result start now ⟨hstep, rfl⟩
  exact ⟨operation, context, _, hcontext, hstep, hd.symm⟩

/-- What is known of a document that was stored; if there was none to store over, nothing has
happened. -/
def IfStored (written : Document → Relation) : Option Document → Relation
  | some d => written d
  | none => Untouched

/-- Asking for the document that was stored fails only if there was none to store over. -/
theorem fulfils_required (id : Value) (written : Document → Relation) (result : Option Document) :
    Fulfils (IfStored written result) (liftM (v.required id result)) written := by
  intro env w start hstart
  cases result with
  | some d => exact hstart
  | none => exact hstart

/-- The end of every operation that stores over a document and returns the new one. -/
theorem fulfils_required_written {operation : Operation} (id : Value) (result : Option Document)
    (hcontext : v.context false = .ok context) :
    Fulfils (IfStored (fun d => (call.Step v context · operation (.item d) ·)) result)
      (do v.written operation (← v.required id result) context)
      fun d => v.Took call (.item d) :=
  (v.fulfils_required id _ result).bind fun d => v.fulfils_written d hcontext

theorem fulfils_prepareInsert (item : Document) (context : HookContext) :
    Fulfils Untouched (v.prepareInsert item context) fun stored start now =>
      Untouched start now ∧ ∃ fresh date, v.insertion item context fresh date = .ok stored := by
  apply fulfils_tells_bind (fun env => v.tells_before env .insert (.item item) context)
  intro payload hpayload
  apply fulfils_lift_bind
  intro given hgiven
  apply fulfils_lift_bind
  intro cleaned hcleaned
  apply fulfils_draw.bind
  intro id
  apply Fulfils.of_fact
  rintro ⟨fresh, rfl⟩
  apply quiet_environment.fulfils.bind
  intro env
  apply fulfils_pure
  intro start now huntouched
  have hinsertion : v.insertion item context fresh env.date =
      .ok (Item.stampNew cleaned (.string fresh) context.identity env.date) := by
    rw [insertion, hpayload]
    simp only [bind, Except.bind, hgiven, hcleaned]
    rfl
  exact ⟨huntouched, fresh, env.date, hinsertion⟩

theorem fulfils_prepareReplace (id : Value) (item : Document) (context : HookContext) :
    Fulfils Untouched (v.prepareReplace id item context) fun prepared start now =>
      Untouched start now ∧ v.replacement id item context = .ok prepared := by
  apply fulfils_tells_bind
    (fun env => v.tells_before env .replace (.item (item.put Item.idField id)) context)
  intro payload hpayload
  apply fulfils_lift_bind
  intro given hgiven
  have hreplacement : v.replacement id item context =
      match given.value? Item.idField with
      | none => .error (.invalidDocument .noIdentity)
      | some id => do return (id, ← Document.clean given) := by
    rw [replacement, hpayload]
    simp only [bind, Except.bind, hgiven]
  rw [hreplacement]
  cases given.value? Item.idField with
  | none => exact fun _ _ _ hstart => hstart
  | some target =>
      apply fulfils_lift_bind
      intro cleaned hcleaned
      apply fulfils_pure
      intro start now huntouched
      exact ⟨huntouched, by rw [hcleaned]; rfl⟩

theorem fulfils_insertRow (item : Document) :
    Fulfils Untouched (v.insertRow item)
      fun _ start now => start.insertOne v.name item = .ok now := by
  apply fulfils_change
  intro c result c' h
  obtain ⟨stored, hstored, hpair⟩ := Outcome.bind_eq_ok.mp h
  cases hpair
  exact hstored

theorem fulfils_findRow (id : Value) :
    Fulfils Untouched (v.findRow id) fun found start now =>
      Untouched start now ∧ found = start.findById v.name id :=
  fulfils_read _

theorem fulfils_replaceRow (id : Value) (item : Document) :
    Fulfils Untouched (v.replaceRow id item)
      (IfStored fun d start now => start.replaceOne v.name id item = (some d, now)) := by
  apply fulfils_change
  intro c result c' h
  have hpair : c.replaceOne v.name id item = (result, c') := Except.ok.inj h
  cases result with
  | some d => exact hpair
  | none => exact Collections.eq_of_replaceOne_none hpair

/-! ### The operations -/

theorem fulfils_insert (item : Document) :
    Fulfils Untouched (v.insert item) fun d => v.Took (.insert item) (.item d) := by
  apply fulfils_lift_bind
  intro context hcontext
  apply (v.fulfils_prepareInsert item context).bind
  intro stored
  apply Fulfils.of_fact
  rintro ⟨fresh, date, hprepared⟩
  apply (v.fulfils_holding .insert (v.fulfils_insertRow stored)).bind
  intro _
  apply (v.fulfils_written stored hcontext).weaken
  intro start now hstored
  exact .added (.inl rfl) hprepared hstored

theorem fulfils_replaceFound {id target : Value} {item prepared : Document}
    (hprepared : v.replacement id item context = .ok (target, prepared)) :
    Fulfils Untouched
      (do
        match ← v.findRow target with
        | none => return none
        | some existing =>
          let env ← Action.environment
          v.replaceRow target (Item.stampReplacement prepared existing env.date))
      (IfStored fun d => (WriteCall.Step v context · (.replace id item) .replace (.item d) ·)) := by
  apply (v.fulfils_findRow target).bind
  intro found
  cases found with
  | none => exact fulfils_pure fun _ _ h => h.1
  | some existing =>
      have hrow : Fulfils Untouched
          (do
            let env ← Action.environment
            v.replaceRow target (Item.stampReplacement prepared existing env.date))
          (IfStored fun d start now => ∃ date, start.replaceOne v.name target
            (Item.stampReplacement prepared existing date) = (some d, now)) := by
        apply quiet_environment.fulfils.bind
        intro env
        apply (v.fulfils_replaceRow target _).consequence
        intro result start now h
        cases result with
        | some d => exact ⟨env.date, h⟩
        | none => exact h
      apply hrow.given.consequence
      rintro result start now ⟨hstored, hfound⟩
      cases result with
      | some d =>
          obtain ⟨date, hstored⟩ := hstored
          exact .replaced hprepared hfound.symm hstored
      | none => exact hstored

theorem fulfils_replace (id : Value) (item : Document) :
    Fulfils Untouched (v.replace id item) fun d => v.Took (.replace id item) (.item d) := by
  apply fulfils_lift_bind
  intro context hcontext
  apply (v.fulfils_prepareReplace id item context).bind
  rintro ⟨target, prepared⟩
  apply Fulfils.of_fact
  intro hprepared
  apply (v.fulfils_holding .replace (v.fulfils_replaceFound hprepared)).bind
  intro replaced
  exact v.fulfils_required_written target replaced hcontext

theorem fulfils_saveNew (item : Document) (context : HookContext) :
    Fulfils Untouched
      (do
        let stamped ← v.prepareInsert item context
        (v.insertRow stamped).inOperation .insert v.name
        return (Operation.insert, stamped))
      fun saved start now =>
        (WriteCall.save item).Step v context start saved.1 (.item saved.2) now := by
  apply (v.fulfils_prepareInsert item context).bind
  intro stored
  apply Fulfils.of_fact
  rintro ⟨fresh, date, hprepared⟩
  apply ((v.fulfils_insertRow stored).inOperation .insert v.name).bind
  intro _
  exact fulfils_pure fun start now hstored => .added (.inr rfl) hprepared hstored

theorem fulfils_saveOver (item existing : Document) {id : Value} (context : HookContext)
    (hid : item.value? Item.idField = some id) :
    Fulfils (fun start now => Untouched start now ∧ some existing = start.findById v.name id)
      (do
        let (id, prepared) ← v.prepareReplace id item context
        let env ← Action.environment
        let replaced ← v.replaceRow id (Item.stampReplacement prepared existing env.date)
        return (Operation.replace, ← v.required id replaced))
      fun saved start now =>
        (WriteCall.save item).Step v context start saved.1 (.item saved.2) now := by
  have hrow : Fulfils Untouched
      (do
        let (id, prepared) ← v.prepareReplace id item context
        let env ← Action.environment
        let replaced ← v.replaceRow id (Item.stampReplacement prepared existing env.date)
        return (Operation.replace, ← v.required id replaced))
      fun saved start now => saved.1 = .replace ∧ ∃ target prepared date,
        v.replacement id item context = .ok (target, prepared) ∧
          start.replaceOne v.name target (Item.stampReplacement prepared existing date) =
            (some saved.2, now) := by
    apply (v.fulfils_prepareReplace id item context).bind
    rintro ⟨target, prepared⟩
    apply Fulfils.of_fact
    intro hprepared
    apply quiet_environment.fulfils.bind
    intro env
    apply (v.fulfils_replaceRow target _).bind
    intro replaced
    apply (v.fulfils_required target _ replaced).bind
    intro d
    exact fulfils_pure fun start now hstored =>
      ⟨rfl, target, prepared, env.date, hprepared, hstored⟩
  apply hrow.given.consequence
  rintro ⟨_, d⟩ start now ⟨⟨rfl, target, prepared, date, hprepared, hstored⟩, hfound⟩
  exact .saved hid hfound.symm hprepared hstored

theorem fulfils_saveRow (item : Document) (context : HookContext) :
    Fulfils Untouched (v.saveRow item context) fun saved start now =>
      (WriteCall.save item).Step v context start saved.1 (.item saved.2) now := by
  unfold saveRow
  cases hid : item.value? Item.idField with
  | none => exact (quiet_pure none).fulfils.bind fun _ => v.fulfils_saveNew item context
  | some id =>
      apply (v.fulfils_findRow id).bind
      intro existing
      cases existing with
      | none => exact (v.fulfils_saveNew item context).weaken fun _ _ h => h.1
      | some existing => exact v.fulfils_saveOver item existing context hid

/-- A saving takes one of its steps, and the hook after it has the last word on the result. -/
theorem fulfils_save (item : Document) :
    Fulfils Untouched (v.save item) fun d => v.Took (.save item) (.item d) := by
  apply fulfils_lift_bind
  intro context hcontext
  apply (v.fulfils_holding .replace (v.fulfils_saveRow item context)).bind
  rintro ⟨operation, saved⟩
  exact v.fulfils_written saved hcontext

/-- All the changes of one item are made in the same way. -/
theorem fulfils_patch {operation : Operation} {id : Value} {update : Update}
    (hcall : call.patch? = some (operation, id, update)) :
    Fulfils Untouched (do return .item (← v.patch operation id update)) (v.Took call) := by
  have hpatch : Fulfils Untouched (v.patch operation id update) fun d => v.Took call (.item d) := by
    apply fulfils_lift_bind
    intro context hcontext
    apply fulfils_tells_bind (fun env => v.tells_before env operation (.patch id update) context)
    intro payload hpayload
    apply fulfils_lift_bind
    rintro ⟨target, change⟩ hchange
    apply fulfils_lift_bind
    intro _ hvalid
    apply fulfils_lift_bind
    intro cleaned hcleaned
    have hprepared : v.amendment operation id update context = .ok (target, cleaned) := by
      rw [amendment, hpayload]
      simp only [bind, Except.bind, hchange, hvalid, hcleaned]
      rfl
    apply quiet_environment.fulfils.bind
    intro env
    have hrow : Fulfils Untouched
        (Action.change fun c => c.updateOne v.name target cleaned env.date)
        (IfStored fun d => (call.Step v context · operation (.item d) ·)) := by
      apply fulfils_change
      intro c result c' hstored
      cases result with
      | some d => exact .patched hcall hprepared hstored
      | none => exact Collections.eq_of_updateOne_none hstored
    apply (v.fulfils_holding operation hrow).bind
    intro updated
    exact v.fulfils_required_written target updated hcontext
  exact hpatch.bind fun d => fulfils_pure fun _ _ h => h

theorem fulfils_remove (id : Value) :
    Fulfils Untouched (v.remove id) fun d => v.Took (.remove id) (.maybeItem d) := by
  apply fulfils_lift_bind
  intro context hcontext
  apply fulfils_tells_bind (fun env => v.tells_before env .remove (.itemId id) context)
  intro payload hpayload
  apply fulfils_lift_bind
  intro target htarget
  have hprepared : v.removal id context = .ok target := by
    rw [removal, hpayload]
    exact htarget
  have hrow : Fulfils Untouched (Action.change fun c => .ok (c.deleteOne v.name target))
      fun removed start now =>
        (WriteCall.remove id).Step v context start .remove (.maybeItem removed) now :=
    fulfils_change fun c result c' h => .removed hprepared (Except.ok.inj h)
  apply (v.fulfils_holding .remove hrow).bind
  intro removed
  obtain ⟨d, hd⟩ :=
    exists_maybeItem_of_kind (v.kind_answer .remove (.maybeItem removed) context)
  have htells : ∀ env, Tells env
      (do (← v.after .remove (.maybeItem removed) context).asMaybeItem : Action _) (.ok d) := by
    intro env
    apply (v.tells_after env .remove (.maybeItem removed) context).bind
    rw [hd]
    exact tells_lift env (.ok d)
  apply (Fulfils.of_tells htells).consequence
  rintro result start now ⟨hstep, rfl⟩
  exact ⟨.remove, context, _, hcontext, hstep, hd.symm⟩

/-- A call takes a step, or it fails and leaves the collections as they were. -/
theorem fulfils_call (call : WriteCall) :
    Fulfils Untouched (call.perform v) (v.Took call) := by
  cases call with
  | insert item => exact (v.fulfils_insert item).bind fun d => fulfils_pure fun _ _ h => h
  | replace id item =>
      exact (v.fulfils_replace id item).bind fun d => fulfils_pure fun _ _ h => h
  | save item => exact (v.fulfils_save item).bind fun d => fulfils_pure fun _ _ h => h
  | update id fields => exact v.fulfils_patch rfl
  | push id field values => exact v.fulfils_patch rfl
  | pull id field values => exact v.fulfils_patch rfl
  | increment id field operand => exact v.fulfils_patch rfl
  | multiply id field operand => exact v.fulfils_patch rfl
  | remove id => exact (v.fulfils_remove id).bind fun d => fulfils_pure fun _ _ h => h

end CollectionView

end DocumentBase
