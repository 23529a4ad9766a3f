import DocumentBase.Proofs.Action.Contract

/-!
# The steps that operations share

Every operation sends its argument through a hook, acquires its collection, releases it, and
sends its result through another hook.  None of these steps touches a collection, and the hooks
have outcomes that are known beforehand: a before hook gives the argument or an error, and an
after hook always gives a result of the kind that it was asked about.
-/

namespace DocumentBase.CollectionView

open DocumentBase.Action

/-- The argument of an operation after its hook. -/
def argument (v : CollectionView) (operation : Operation) (payload : Payload)
    (context : HookContext) : Outcome Payload :=
  if v.options.suppressHooks then .ok payload
  else v.store.hooks.runBefore operation payload context

/-- The result of an operation after its hook. -/
def answer (v : CollectionView) (operation : Operation) (result : Payload)
    (context : HookContext) : Payload :=
  if v.options.suppressHooks then result
  else v.store.hooks.runAfter operation result context

/-- No hook takes part in the operations of a view. -/
def Unhooked (v : CollectionView) : Prop :=
  v.options.suppressHooks = true ∨ v.store.hooks = .empty

theorem argument_of_no_hooks {v : CollectionView} (h : v.Unhooked) (operation : Operation)
    (payload : Payload) (context : HookContext) :
    v.argument operation payload context = .ok payload := by
  rw [argument]
  rcases h with h | h
  · rw [h]
    rfl
  · rw [h]
    split <;> rfl

theorem answer_of_no_hooks {v : CollectionView} (h : v.Unhooked) (operation : Operation)
    (result : Payload) (context : HookContext) : v.answer operation result context = result := by
  rw [answer]
  rcases h with h | h
  · rw [h]
    rfl
  · rw [h]
    split <;> rfl

theorem tells_recordCalls (env : Environment) (calls : List HookCall) :
    Tells env (recordCalls calls) (.ok ()) := by
  unfold recordCalls
  induction calls with
  | nil => exact tells_pure env ()
  | cons call rest ih =>
      rw [List.forM_eq_forM, List.forM_cons]
      exact (tells_record env (.called call)).bind ih

theorem tells_before (v : CollectionView) (env : Environment) (operation : Operation)
    (payload : Payload) (context : HookContext) :
    Tells env (v.before operation payload context) (v.argument operation payload context) := by
  unfold before argument
  cases v.options.suppressHooks with
  | true => exact tells_pure env payload
  | false => exact (tells_recordCalls env _).bind (tells_lift env _)

theorem tells_after (v : CollectionView) (env : Environment) (operation : Operation)
    (result : Payload) (context : HookContext) :
    Tells env (v.after operation result context) (.ok (v.answer operation result context)) := by
  unfold after answer
  cases v.options.suppressHooks with
  | true => exact tells_pure env result
  | false => exact (tells_recordCalls env _).bind (tells_pure env _)

/-- Hooks after an operation keep the kind of its result. -/
@[simp]
theorem kind_answer (v : CollectionView) (operation : Operation) (result : Payload)
    (context : HookContext) : (v.answer operation result context).kind = result.kind := by
  unfold answer
  cases v.options.suppressHooks with
  | true => rfl
  | false => simp

/-- A result changes only when the hook answers with another one of its kind. -/
theorem answer_cases (v : CollectionView) (operation : Operation) (result : Payload)
    (context : HookContext) :
    v.answer operation result context = result ∨
      v.options.suppressHooks = false ∧
        v.store.hooks.invoke ⟨.after, operation⟩ result context =
          .ok (some (v.answer operation result context)) := by
  unfold answer
  cases v.options.suppressHooks with
  | true => exact Or.inl rfl
  | false =>
      simp only [Bool.false_eq_true, if_false, true_and, Hooks.runAfter, Hooks.run]
      cases v.store.hooks.invoke ⟨.after, operation⟩ result context with
      | error message => exact Or.inl rfl
      | ok reply =>
          cases reply with
          | none => exact Or.inl rfl
          | some replacement =>
              by_cases hkind : replacement.kind = result.kind
              · right
                simp [hkind]
              · left
                simp [hkind]

theorem tells_acquire (v : CollectionView) (env : Environment) (operation : Operation) :
    Tells env (v.acquire operation)
      ((env.access v.name v.acquireOptions).mapError
        (·.inOperation operation.name v.name)) := by
  unfold acquire
  apply (tells_record env _).bind
  have henv : Tells env Action.environment (.ok env) := fun w => ⟨w.events, rfl⟩
  exact henv.bind ((tells_lift env _).inOperation operation v.name)

theorem tells_release (v : CollectionView) (env : Environment) :
    Tells env v.release (.ok ()) := by
  unfold release
  cases v.options.eagerCleanup with
  | true => exact tells_record env _
  | false => exact tells_pure env ()

/-- What holding a collection comes to: if it is handed out, the action runs and its failure
is told with the operation; only events are added around it. -/
theorem run_holding {α : Type} (v : CollectionView) (operation : Operation) (a : Action α)
    (env : Environment) (w : World) :
    (∃ e events, env.access v.name v.acquireOptions = .error e ∧
      (v.holding operation a).run env w =
        (.error (e.inOperation operation.name v.name), { w with events })) ∨
    (∃ before after, env.access v.name v.acquireOptions = .ok () ∧
      (v.holding operation a).run env w =
        ((a.run env { w with events := before }).1.mapError
            (·.inOperation operation.name v.name),
          { (a.run env { w with events := before }).2 with events := after })) := by
  obtain ⟨events, hacquire⟩ := v.tells_acquire env operation w
  cases haccess : env.access v.name v.acquireOptions with
  | error e =>
      left
      rw [haccess] at hacquire
      exact ⟨e, events, rfl, run_bind_of_error hacquire⟩
  | ok _ =>
      right
      rw [haccess] at hacquire
      have hattempt : ((a.inOperation operation v.name).attempt).run env { w with events } =
          (.ok ((a.run env { w with events }).1.mapError
            (·.inOperation operation.name v.name)), (a.run env { w with events }).2) := rfl
      obtain ⟨later, hrelease⟩ := v.tells_release env (a.run env { w with events }).2
      refine ⟨events, later, rfl, ?_⟩
      rw [holding, run_bind_of_ok hacquire, run_bind_of_ok hattempt, run_bind_of_ok hrelease]
      rfl

/-- Holding a collection keeps the contract of what is done meanwhile. -/
theorem fulfils_holding {α : Type} (v : CollectionView) (operation : Operation)
    {a : Action α} {after : α → Relation} (ha : Fulfils Untouched a after) :
    Fulfils Untouched (v.holding operation a) after := by
  intro env w start hstart
  rcases v.run_holding operation a env w with
    ⟨e, events, -, hrun⟩ | ⟨before, later, -, hrun⟩
  · rw [hrun]
    exact hstart
  · have hresult := ha env { w with events := before } start hstart
    rw [hrun]
    cases hinner : a.run env { w with events := before } with
    | mk outcome w' =>
        rw [hinner] at hresult
        cases outcome with
        | ok result => exact hresult
        | error e => exact hresult

end DocumentBase.CollectionView
