import DocumentBase.Proofs.Store.Steps

/-!
# Actions that read

An action that reads has an outcome that is a function of the collections, and changes nothing
but the account of events.  Reading composes along the steps of an operation, so an operation
that reads can be computed without its world.
-/

namespace DocumentBase.Action

variable {α β : Type} {env : Environment}

def Reads (env : Environment) (a : Action α) (f : Collections → Outcome α) : Prop :=
  ∀ w, ∃ events, a.run env w = (f w.collections, { w with events })

/-- An outcome that depends on nothing is a reading of nothing. -/
theorem Tells.reads {a : Action α} {outcome : Outcome α} (ha : Tells env a outcome) :
    Reads env a fun _ => outcome :=
  ha

theorem reads_lift (outcome : Outcome α) :
    Reads env (liftM outcome : Action α) fun _ => outcome :=
  tells_lift env outcome

theorem reads_pure (result : α) : Reads env (pure result : Action α) fun _ => .ok result :=
  tells_pure env result

theorem reads_read (f : Collections → Outcome α) : Reads env (read f) f :=
  fun w => ⟨w.events, rfl⟩

/-- Something that could have changed the collections, but did not. -/
theorem reads_change {f : Collections → Outcome (α × Collections)} {g : Collections → Outcome α}
    (h : ∀ c, f c = (g c).map fun result => (result, c)) : Reads env (change f) g := by
  intro w
  refine ⟨w.events, ?_⟩
  simp only [run, change, h]
  cases g w.collections with
  | ok result => rfl
  | error e => rfl

/-- What a reading goes on with reads the same collections. -/
theorem Reads.bind {a : Action α} {next : α → Action β} {f : Collections → Outcome α}
    {g : α → Collections → Outcome β} (ha : Reads env a f)
    (hnext : ∀ result, Reads env (next result) (g result)) :
    Reads env (a >>= next) fun stored => f stored >>= fun result => g result stored := by
  intro w
  obtain ⟨events, hrun⟩ := ha w
  cases hf : f w.collections with
  | ok result =>
      rw [hf] at hrun
      obtain ⟨later, hrest⟩ := hnext result { w with events }
      refine ⟨later, ?_⟩
      rw [run_bind_of_ok hrun, hrest]
      simp only [hf]
      rfl
  | error e =>
      rw [hf] at hrun
      refine ⟨events, ?_⟩
      rw [run_bind_of_error hrun]
      simp only [hf]
      rfl

/-- What follows an action that only tells may depend on its result. -/
theorem Tells.reads_bind {a : Action α} {outcome : Outcome α} {next : α → Action β}
    {g : α → Collections → Outcome β} (ha : Tells env a outcome)
    (hnext : ∀ result, outcome = .ok result → Reads env (next result) (g result)) :
    Reads env (a >>= next) fun stored => outcome >>= fun result => g result stored := by
  intro w
  obtain ⟨events, hrun⟩ := ha w
  cases outcome with
  | ok result =>
      obtain ⟨later, hrest⟩ := hnext result rfl { w with events }
      refine ⟨later, ?_⟩
      rw [run_bind_of_ok hrun, hrest]
      rfl
  | error e =>
      refine ⟨events, ?_⟩
      rw [run_bind_of_error hrun]
      rfl

/-- What follows a step whose result is known. -/
theorem Tells.reads_given {a : Action α} {result : α} {next : α → Action β}
    {f : Collections → Outcome β} (ha : Tells env a (.ok result))
    (hnext : Reads env (next result) f) : Reads env (a >>= next) f := by
  intro w
  obtain ⟨events, hrun⟩ := ha w
  obtain ⟨later, hrest⟩ := hnext { w with events }
  exact ⟨later, by rw [run_bind_of_ok hrun, hrest]⟩

theorem Reads.inOperation {a : Action α} {f : Collections → Outcome α} (ha : Reads env a f)
    (operation : Operation) (collection : String) :
    Reads env (a.inOperation operation collection)
      fun stored => (f stored).mapError (·.inOperation operation.name collection) := by
  intro w
  obtain ⟨events, hrun⟩ := ha w
  refine ⟨events, ?_⟩
  simp only [run] at hrun
  simp [run, Action.inOperation, hrun]

/-- A collection that is not handed out is not read. -/
theorem Reads.holding {a : Action α} {f : Collections → Outcome α} (ha : Reads env a f)
    (v : CollectionView) (operation : Operation) :
    Reads env (v.holding operation a) fun stored =>
      (env.access v.name v.acquireOptions >>= fun _ => f stored).mapError
        (·.inOperation operation.name v.name) := by
  intro w
  rcases v.run_holding operation a env w with
    ⟨e, events, haccess, hrun⟩ | ⟨before, later, haccess, hrun⟩
  · refine ⟨events, ?_⟩
    rw [hrun, haccess]
    rfl
  · obtain ⟨events, hinner⟩ := ha { w with events := before }
    rw [hinner] at hrun
    refine ⟨later, ?_⟩
    rw [hrun, haccess]
    rfl

/-- An action that reads succeeds exactly with what it reads. -/
theorem Reads.exists_ok_iff {a : Action α} {f : Collections → Outcome α} (ha : Reads env a f)
    {w : World} {result : α} :
    (∃ w', a.run env w = (.ok result, w')) ↔ f w.collections = .ok result := by
  obtain ⟨events, hrun⟩ := ha w
  rw [hrun]
  exact ⟨fun ⟨_, h⟩ => congrArg Prod.fst h, fun h => ⟨_, by rw [h]⟩⟩

/-- What is read may be written in another way. -/
theorem Reads.congr {a : Action α} {f g : Collections → Outcome α} (ha : Reads env a f)
    (h : ∀ stored, f stored = g stored) : Reads env a g := by
  intro w
  obtain ⟨events, hrun⟩ := ha w
  exact ⟨events, by rw [hrun, h]⟩

end DocumentBase.Action
