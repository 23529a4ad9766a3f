import DocumentBase.Proofs.Store.Transitions

/-!
# Operations as scripts

Between the hooks an operation is a short script of calls on the stored collections: a look-up,
an insertion, a replacement, an update or a deletion, each of which looks at the collections once
and changes them at most once.  What an operation returns and makes of the collections is what its
script does when nobody else comes in between.
-/

namespace DocumentBase

open DocumentBase.Action

/-! ### Calls -/

/-- The calls that operations make on the stored collections. -/
inductive HandleCall where
  | find (id : Value)
  | insert (d : Document)
  | replace (id : Value) (d : Document)
  | update (id : Value) (u : Update) (now : Instant)
  | delete (id : Value)

namespace HandleCall

/-- The reply to a call and the changed collections, or the failure of a call. -/
def change (name : String) : HandleCall → Collections → Outcome (Option Document × Collections)
  | find id, c => .ok (c.findById name id, c)
  | insert d, c => do return (none, ← c.insertOne name d)
  | replace id d, c => .ok (c.replaceOne name id d)
  | update id u now, c => c.updateOne name id u now
  | delete id, c => .ok (c.deleteOne name id)

/-- The reply to a call and the collections after it, which a failure leaves as they are. -/
def perform (name : String) (h : HandleCall) (c : Collections) :
    Outcome (Option Document) × Collections :=
  match h.change name c with
  | .ok (reply, c') => (.ok reply, c')
  | .error e => (.error e, c)

variable (name : String) (c : Collections)

@[simp]
theorem perform_find (id : Value) :
    (find id).perform name c = (.ok (c.findById name id), c) := rfl

theorem perform_insert (d : Document) :
    (insert d).perform name c =
      match c.insertOne name d with
      | .ok c' => (.ok none, c')
      | .error e => (.error e, c) := by
  simp only [perform, change]
  cases c.insertOne name d <;> rfl

@[simp]
theorem perform_replace (id : Value) (d : Document) :
    (replace id d).perform name c = (.ok (c.replaceOne name id d).1, (c.replaceOne name id d).2) :=
  rfl

@[simp]
theorem perform_delete (id : Value) :
    (delete id).perform name c = (.ok (c.deleteOne name id).1, (c.deleteOne name id).2) := rfl

end HandleCall

/-! ### Scripts -/

/-- Calls one after the other, each of which may depend on the replies to those before it. -/
inductive Script (α : Type) where
  | done (result : Outcome α)
  | call (h : HandleCall) (next : Outcome (Option Document) → Script α)

namespace Script

variable {α β : Type}

/-- A script and, if it succeeds, another one after it. -/
def andThen : Script α → (α → Script β) → Script β
  | done (.ok a), next => next a
  | done (.error e), _ => done (.error e)
  | call h rest, next => call h fun reply => (rest reply).andThen next

instance : Monad Script where
  pure a := done (.ok a)
  bind := andThen

instance : MonadLift Outcome Script := ⟨done⟩

def ask (h : HandleCall) : Script (Option Document) :=
  call h done

/-- Says of a failure which operation it happened in. -/
def inOperation (operation : Operation) (collection : String) : Script α → Script α
  | done result => done (result.mapError (·.inOperation operation.name collection))
  | call h next => call h fun reply => (next reply).inOperation operation collection

/-- What a script returns and makes of the collections when nobody else comes in between. -/
def run (name : String) : Script α → Collections → Outcome α × Collections
  | done result, c => (result, c)
  | call h next, c => (next (h.perform name c).1).run name (h.perform name c).2

theorem bind_assoc {γ : Type} (s : Script α) (next : α → Script β) (last : β → Script γ) :
    s >>= next >>= last = s >>= fun a => next a >>= last := by
  induction s with
  | done outcome => cases outcome <;> rfl
  | call h rest ih => exact congrArg (call h) (funext ih)

theorem pure_bind (a : α) (next : α → Script β) : pure a >>= next = next a := rfl

/-- A computation that is lifted into a script is lifted step by step. -/
theorem lift_bind (x : Outcome α) (next : α → Outcome β) :
    (liftM (x >>= next) : Script β) = liftM x >>= fun a => liftM (next a) := by
  cases x <;> rfl

theorem lift_bind_bind {γ : Type} (x : Outcome α) (middle : α → Outcome β) (next : β → Script γ) :
    (liftM (x >>= middle) >>= next : Script γ) =
      liftM x >>= fun a => liftM (middle a) >>= next := by
  cases x <;> rfl

theorem run_bind_of_ok {name : String} {s : Script α} {next : α → Script β} {c c' : Collections}
    {result : α} (h : s.run name c = (.ok result, c')) :
    (s >>= next).run name c = (next result).run name c' := by
  induction s generalizing c with
  | done outcome =>
      obtain ⟨rfl, rfl⟩ := Prod.mk.inj h
      rfl
  | call call rest ih => exact ih _ h

theorem run_bind_of_error {name : String} {s : Script α} {next : α → Script β}
    {c c' : Collections} {e : Error} (h : s.run name c = (.error e, c')) :
    (s >>= next).run name c = (.error e, c') := by
  induction s generalizing c with
  | done outcome =>
      obtain ⟨rfl, rfl⟩ := Prod.mk.inj h
      rfl
  | call call rest ih => exact ih _ h

theorem run_bind (name : String) (s : Script α) (next : α → Script β) (c : Collections) :
    (s >>= next).run name c =
      match s.run name c with
      | (.ok result, c') => (next result).run name c'
      | (.error e, c') => (.error e, c') := by
  cases h : s.run name c with
  | mk outcome c' =>
      cases outcome with
      | ok result => exact run_bind_of_ok h
      | error e => exact run_bind_of_error h

theorem run_ask (name : String) (h : HandleCall) (c : Collections) :
    (ask h).run name c = h.perform name c := rfl

theorem run_find (name : String) (id : Value) (next : Outcome (Option Document) → Script α)
    (c : Collections) :
    (call (.find id) next).run name c = (next (.ok (c.findById name id))).run name c := rfl

theorem run_inOperation (name : String) (s : Script α) (c : Collections) (operation : Operation)
    (collection : String) :
    (s.inOperation operation collection).run name c =
      ((s.run name c).1.mapError (·.inOperation operation.name collection),
        (s.run name c).2) := by
  induction s generalizing c with
  | done outcome => rfl
  | call call rest ih => exact ih _ _

end Script

/-! ### Actions that play scripts -/

namespace Action

variable {α β : Type}

/-- An action, begun when so many identities were drawn, returns what a script returns and makes
of the collections what the script makes of them. -/
def Plays (env : Environment) (name : String) (drawn : Nat) (a : Action α) (s : Script α) : Prop :=
  ∀ w : World, w.drawn = drawn →
    ((a.run env w).1, (a.run env w).2.collections) = s.run name w.collections

section Plays

variable {env : Environment} {name : String} {drawn : Nat}

theorem plays_lift (outcome : Outcome α) :
    Plays env name drawn (liftM outcome : Action α) (liftM outcome) :=
  fun _ _ => rfl

theorem plays_pure (result : α) : Plays env name drawn (pure result) (pure result) :=
  fun _ _ => rfl

/-- After a step that only tells, as many identities are drawn as before. -/
theorem Tells.plays_bind {a : Action α} {outcome : Outcome α} (ha : Tells env a outcome)
    {next : α → Action β} {t : α → Script β} (hnext : ∀ result, Plays env name drawn (next result)
      (t result)) :
    Plays env name drawn (a >>= next) (liftM outcome >>= t) := by
  intro w hw
  obtain ⟨events, hrun⟩ := ha w
  cases outcome with
  | ok result =>
      rw [Action.run_bind_of_ok hrun]
      exact hnext result { w with events } hw
  | error e =>
      rw [Action.run_bind_of_error hrun]
      rfl

theorem plays_lift_bind (outcome : Outcome α) {next : α → Action β} {t : α → Script β}
    (hnext : ∀ result, Plays env name drawn (next result) (t result)) :
    Plays env name drawn (liftM outcome >>= next) (liftM outcome >>= t) :=
  (tells_lift env outcome).plays_bind hnext

theorem plays_environment_bind {next : Environment → Action β} {s : Script β}
    (hnext : Plays env name drawn (next env) s) :
    Plays env name drawn (Action.environment >>= next) s :=
  hnext

theorem plays_draw_bind {next : Value → Action β} {s : Script β}
    (hnext : Plays env name (drawn + 1) (next (.string (env.fresh drawn))) s) :
    Plays env name drawn (draw >>= next) s := by
  rintro w rfl
  exact hnext { w with drawn := w.drawn + 1 } rfl

/-- What comes after a step plays its script whatever the step has drawn. -/
theorem Plays.bind {a : Action α} {s : Script α} {next : α → Action β} {t : α → Script β}
    (ha : Plays env name drawn a s)
    (hnext : ∀ result later, Plays env name later (next result) (t result)) :
    Plays env name drawn (a >>= next) (s >>= t) := by
  intro w hw
  have hfirst := ha w hw
  cases hrun : a.run env w with
  | mk outcome w' =>
    rw [hrun] at hfirst
    cases outcome with
    | ok result =>
      rw [Action.run_bind_of_ok hrun, Script.run_bind_of_ok hfirst.symm]
      exact hnext result _ w' rfl
    | error e => rw [Action.run_bind_of_error hrun, Script.run_bind_of_error hfirst.symm]

theorem plays_change (h : HandleCall) :
    Plays env name drawn (Action.change (h.change name)) (Script.ask h) := by
  intro w _
  simp only [Action.run, Action.change, Script.ask, Script.run, HandleCall.perform]
  cases h.change name w.collections <;> rfl

theorem Plays.inOperation {a : Action α} {s : Script α} (ha : Plays env name drawn a s)
    (operation : Operation) (collection : String) :
    Plays env name drawn (a.inOperation operation collection)
      (s.inOperation operation collection) := by
  intro w hw
  rw [Script.run_inOperation, ← ha w hw]
  rfl

end Plays

end Action

/-! ### The scripts of operations -/

namespace CollectionView

/-- A script while the collection is held. -/
def held {α : Type} (v : CollectionView) (env : Environment) (operation : Operation)
    (s : Script α) : Script α :=
  match env.access v.name v.acquireOptions with
  | .ok () => s.inOperation operation v.name
  | .error e => .done (.error (e.inOperation operation.name v.name))

def told (v : CollectionView) (operation : Operation) (item : Document) (context : HookContext) :
    Outcome Document :=
  (v.answer operation (.item item) context).asItem

def insertRowScript (d : Document) : Script Unit := do
  let _ ← Script.ask (.insert d)
  return ()

def insertScript (v : CollectionView) (env : Environment) (fresh : String) (item : Document) :
    Script Document := do
  let context ← v.context false
  let stored ← v.insertion item context fresh env.date
  v.held env .insert (insertRowScript stored)
  v.told .insert stored context

/-- Stores over the document with an identity, if there is one. -/
def replaceRowScript (env : Environment) (target : Value) (prepared : Document) :
    Script (Option Document) := do
  match ← Script.ask (.find target) with
  | none => return none
  | some existing =>
    Script.ask (.replace target (Item.stampReplacement prepared existing env.date))

def replaceScript (v : CollectionView) (env : Environment) (id : Value) (item : Document) :
    Script Document := do
  let context ← v.context false
  let (target, prepared) ← v.replacement id item context
  let replaced ← v.held env .replace (replaceRowScript env target prepared)
  v.told .replace (← v.required target replaced) context

/-- The item that is saved replaces the one that was found. -/
def saveOverScript (v : CollectionView) (env : Environment) (context : HookContext)
    (item : Document) (id : Value) (existing : Document) : Script (Operation × Document) := do
  let (target, prepared) ← v.replacement id item context
  let replaced ← Script.ask
    (.replace target (Item.stampReplacement prepared existing env.date))
  return (.replace, ← v.required target replaced)

/-- The item that is saved is a new one. -/
def saveNewScript (v : CollectionView) (env : Environment) (fresh : String) (context : HookContext)
    (item : Document) : Script (Operation × Document) := do
  let stored ← v.insertion item context fresh env.date
  (insertRowScript stored).inOperation .insert v.name
  return (.insert, stored)

def saveRowScript (v : CollectionView) (env : Environment) (fresh : String) (context : HookContext)
    (item : Document) : Script (Operation × Document) :=
  match item.value? Item.idField with
  | none => v.saveNewScript env fresh context item
  | some id => do
    match ← Script.ask (.find id) with
    | none => v.saveNewScript env fresh context item
    | some existing => v.saveOverScript env context item id existing

def saveScript (v : CollectionView) (env : Environment) (fresh : String) (item : Document) :
    Script Document := do
  let context ← v.context false
  let (operation, saved) ← v.held env .replace (v.saveRowScript env fresh context item)
  v.told operation saved context

def patchScript (v : CollectionView) (env : Environment) (operation : Operation) (id : Value)
    (update : Update) : Script Document := do
  let context ← v.context false
  let (target, u) ← v.amendment operation id update context
  let updated ← v.held env operation (Script.ask (.update target u env.date))
  v.told operation (← v.required target updated) context

def removeScript (v : CollectionView) (env : Environment) (id : Value) :
    Script (Option Document) := do
  let context ← v.context false
  let target ← v.removal id context
  let removed ← v.held env .remove (Script.ask (.delete target))
  (v.answer .remove (.maybeItem removed) context).asMaybeItem

end CollectionView

/-- The script of a call in an environment, with the identity that is drawn next. -/
def WriteCall.script (v : CollectionView) (env : Environment) (fresh : String) :
    WriteCall → Script Payload
  | insert item => do return .item (← v.insertScript env fresh item)
  | replace id item => do return .item (← v.replaceScript env id item)
  | save item => do return .item (← v.saveScript env fresh item)
  | update id fields => do return .item (← v.patchScript env .update id (.set fields))
  | push id field values => do return .item (← v.patchScript env .push id (.push field values))
  | pull id field values => do return .item (← v.patchScript env .pull id (.pull field values))
  | increment id field operand => do
    return .item (← v.patchScript env .increment id (.increment field operand))
  | multiply id field operand => do
    return .item (← v.patchScript env .multiply id (.multiply field operand))
  | remove id => do return .maybeItem (← v.removeScript env id)

/-! ### Operations play their scripts -/

namespace CollectionView

variable (v : CollectionView) (env : Environment) {drawn : Nat}

/-- What is done while the collection is held is played by the script that is refused with it. -/
theorem plays_holding {α : Type} (operation : Operation) {a : Action α} {s : Script α}
    (ha : Plays env v.name drawn a s) :
    Plays env v.name drawn (v.holding operation a) (v.held env operation s) := by
  intro w hw
  unfold held
  rcases v.run_holding operation a env w with
    ⟨e, events, haccess, hrun⟩ | ⟨before, later, haccess, hrun⟩
  · rw [hrun, haccess]
    rfl
  · rw [hrun, haccess, Script.run_inOperation, ← ha { w with events := before } hw]

theorem plays_written (operation : Operation) (item : Document) (context : HookContext) :
    Plays env v.name drawn (v.written operation item context)
      (liftM (v.told operation item context)) :=
  (v.tells_after env operation (.item item) context).plays_bind fun result =>
    plays_lift result.asItem

theorem plays_prepareInsert (item : Document) (context : HookContext) :
    Plays env v.name drawn (v.prepareInsert item context)
      (liftM (v.insertion item context (env.fresh drawn) env.date)) := by
  simp only [insertion, Script.lift_bind]
  refine (v.tells_before env .insert (.item item) context).plays_bind fun payload => ?_
  refine plays_lift_bind payload.asItem fun given => ?_
  refine plays_lift_bind (Document.clean given) fun cleaned => ?_
  exact plays_draw_bind (plays_environment_bind (plays_pure _))

theorem plays_prepareReplace (id : Value) (item : Document) (context : HookContext) :
    Plays env v.name drawn (v.prepareReplace id item context)
      (liftM (v.replacement id item context)) := by
  simp only [replacement, Script.lift_bind]
  refine (v.tells_before env .replace (.item (item.put Item.idField id)) context).plays_bind
    fun payload => ?_
  refine plays_lift_bind payload.asItem fun given => ?_
  cases given.value? Item.idField with
  | none => exact plays_lift _
  | some target =>
      simp only [Script.lift_bind]
      exact plays_lift_bind (Document.clean given) fun cleaned => plays_pure _

theorem plays_insertRow (d : Document) :
    Plays env v.name drawn (v.insertRow d) (insertRowScript d) := by
  intro w _
  have hscript : (insertRowScript d).run v.name w.collections =
      match w.collections.insertOne v.name d with
      | .ok c' => (.ok (), c')
      | .error e => (.error e, w.collections) := by
    rw [insertRowScript, Script.run_bind, Script.run_ask, HandleCall.perform_insert]
    cases w.collections.insertOne v.name d <;> rfl
  rw [hscript]
  simp only [insertRow, Action.run, Action.change]
  cases w.collections.insertOne v.name d <;> rfl

/-- A look-up leaves everything as it is. -/
theorem plays_findRow_bind {α : Type} (id : Value) {next : Option Document → Action α}
    {t : Option Document → Script α}
    (hnext : ∀ found, Plays env v.name drawn (next found) (t found)) :
    Plays env v.name drawn (v.findRow id >>= next) (Script.ask (.find id) >>= t) :=
  fun w hw => hnext _ w hw

theorem plays_replaceRow (id : Value) (d : Document) :
    Plays env v.name drawn (v.replaceRow id d) (Script.ask (.replace id d)) :=
  plays_change (.replace id d)

theorem plays_insert (item : Document) :
    Plays env v.name drawn (v.insert item) (v.insertScript env (env.fresh drawn) item) := by
  refine plays_lift_bind (v.context false) fun context => ?_
  refine (v.plays_prepareInsert env item context).bind fun stored _ => ?_
  refine (v.plays_holding env .insert (v.plays_insertRow env stored)).bind fun _ _ => ?_
  exact v.plays_written env .insert stored context

theorem plays_replaceFound (target : Value) (prepared : Document) :
    Plays env v.name drawn
      (do
        match ← v.findRow target with
        | none => return none
        | some existing =>
          let env ← Action.environment
          v.replaceRow target (Item.stampReplacement prepared existing env.date))
      (replaceRowScript env target prepared) := by
  refine v.plays_findRow_bind env target fun found => ?_
  cases found with
  | none => exact plays_pure none
  | some existing => exact plays_environment_bind (v.plays_replaceRow env target _)

theorem plays_replace (id : Value) (item : Document) :
    Plays env v.name drawn (v.replace id item) (v.replaceScript env id item) := by
  refine plays_lift_bind (v.context false) fun context => ?_
  refine (v.plays_prepareReplace env id item context).bind fun (target, prepared) _ => ?_
  refine (v.plays_holding env .replace (v.plays_replaceFound env target prepared)).bind
    fun replaced _ => ?_
  refine plays_lift_bind (v.required target replaced) fun d => ?_
  exact v.plays_written env .replace d context

theorem plays_saveNew (item : Document) (context : HookContext) :
    Plays env v.name drawn
      (do
        let stamped ← v.prepareInsert item context
        (v.insertRow stamped).inOperation .insert v.name
        return (Operation.insert, stamped))
      (v.saveNewScript env (env.fresh drawn) context item) := by
  refine (v.plays_prepareInsert env item context).bind fun stored _ => ?_
  exact ((v.plays_insertRow env stored).inOperation .insert v.name).bind fun _ _ => plays_pure _

theorem plays_saveOver (item existing : Document) (id : Value) (context : HookContext) :
    Plays env v.name drawn
      (do
        let (id, prepared) ← v.prepareReplace id item context
        let env ← Action.environment
        let replaced ← v.replaceRow id (Item.stampReplacement prepared existing env.date)
        return (Operation.replace, ← v.required id replaced))
      (v.saveOverScript env context item id existing) := by
  refine (v.plays_prepareReplace env id item context).bind fun (target, prepared) _ => ?_
  refine plays_environment_bind ((v.plays_replaceRow env target _).bind fun replaced _ => ?_)
  exact plays_lift_bind (v.required target replaced) fun d => plays_pure _

theorem plays_saveRow (item : Document) (context : HookContext) :
    Plays env v.name drawn (v.saveRow item context)
      (v.saveRowScript env (env.fresh drawn) context item) := by
  unfold saveRow saveRowScript
  cases item.value? Item.idField with
  | none => exact v.plays_saveNew env item context
  | some id =>
      refine v.plays_findRow_bind env id fun found => ?_
      cases found with
      | none => exact v.plays_saveNew env item context
      | some existing => exact v.plays_saveOver env item existing id context

theorem plays_save (item : Document) :
    Plays env v.name drawn (v.save item) (v.saveScript env (env.fresh drawn) item) := by
  refine plays_lift_bind (v.context false) fun context => ?_
  refine (v.plays_holding env .replace (v.plays_saveRow env item context)).bind
    fun (operation, saved) _ => ?_
  exact v.plays_written env operation saved context

theorem plays_patch (operation : Operation) (id : Value) (update : Update) :
    Plays env v.name drawn (v.patch operation id update)
      (v.patchScript env operation id update) := by
  refine plays_lift_bind (v.context false) fun context => ?_
  simp only [amendment, Script.lift_bind_bind]
  refine (v.tells_before env operation (.patch id update) context).plays_bind fun payload => ?_
  refine plays_lift_bind payload.asPatch fun patch => ?_
  obtain ⟨target, change⟩ := patch
  refine plays_lift_bind change.validate fun _ => ?_
  refine plays_lift_bind (cleanUpdate change) fun u => ?_
  refine plays_environment_bind ?_
  refine (v.plays_holding env operation (plays_change (.update target u env.date))).bind
    fun updated _ => ?_
  refine plays_lift_bind (v.required target updated) fun d => ?_
  exact v.plays_written env operation d context

theorem plays_remove (id : Value) :
    Plays env v.name drawn (v.remove id) (v.removeScript env id) := by
  refine plays_lift_bind (v.context false) fun context => ?_
  simp only [removal, Script.lift_bind_bind]
  refine (v.tells_before env .remove (.itemId id) context).plays_bind fun payload => ?_
  refine plays_lift_bind payload.asItemId fun target => ?_
  refine (v.plays_holding env .remove (plays_change (.delete target))).bind fun removed _ => ?_
  exact (v.tells_after env .remove (.maybeItem removed) context).plays_bind fun result =>
    plays_lift result.asMaybeItem

theorem plays_call (call : WriteCall) :
    Plays env v.name drawn (call.perform v) (call.script v env (env.fresh drawn)) := by
  cases call with
  | insert item => exact (v.plays_insert env item).bind fun d _ => plays_pure _
  | replace id item => exact (v.plays_replace env id item).bind fun d _ => plays_pure _
  | save item => exact (v.plays_save env item).bind fun d _ => plays_pure _
  | update | push | pull | increment | multiply =>
      exact (v.plays_patch env _ _ _).bind fun d _ => plays_pure _
  | remove id => exact (v.plays_remove env id).bind fun d _ => plays_pure _

end CollectionView

/-- What a call returns, and what it makes of the collections. -/
def WriteCall.upshot (v : CollectionView) (env : Environment) (w : World) (call : WriteCall) :
    Outcome Payload × Collections :=
  (((call.perform v).run env w).1, ((call.perform v).run env w).2.collections)

/-- A call returns and leaves behind what its script does when nobody comes in between. -/
theorem WriteCall.upshot_eq_run_script (v : CollectionView) (env : Environment) (w : World)
    (call : WriteCall) :
    call.upshot v env w = (call.script v env (env.fresh w.drawn)).run v.name w.collections :=
  v.plays_call env call w rfl

end DocumentBase
