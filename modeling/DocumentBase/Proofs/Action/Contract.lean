import DocumentBase.Proofs.Outcome
import DocumentBase.Store

/-!
# Contracts of actions

Three ways in which an action is known to behave.  One that only tells has the same outcome in
every world and adds nothing but events; a quiet one never touches the collections; and one
that fulfils a contract takes a relation between the collections at the beginning of an
operation and now to another such relation, and undoes nothing by failing: after a failure the
collections are those of the beginning.  All three compose along the steps of an operation.
-/

namespace DocumentBase.Action

variable {α β : Type}

/-! ## Results -/

/-- An action that succeeds has succeeded at its first step. -/
theorem run_bind_eq_ok {env : Environment} {a : Action α} {next : α → Action β} {w w' : World}
    {result : β} (h : (a >>= next).run env w = (.ok result, w')) :
    ∃ middle between, a.run env w = (.ok middle, between) ∧
      (next middle).run env between = (.ok result, w') := by
  cases hrun : a.run env w with
  | mk outcome between =>
      cases outcome with
      | ok middle =>
          rw [run_bind_of_ok hrun] at h
          exact ⟨middle, between, rfl, h⟩
      | error e =>
          rw [run_bind_of_error hrun] at h
          cases h

/-- An outcome that is known beforehand leaves the world alone. -/
theorem run_lift_eq_ok {env : Environment} {outcome : Outcome α} {w w' : World} {result : α}
    (h : (liftM outcome : Action α).run env w = (.ok result, w')) :
    outcome = .ok result ∧ w' = w := by
  cases h
  exact ⟨rfl, rfl⟩

/-- A step that only passes a result on is left out. -/
theorem run_lift_bind_of_ok {env : Environment} {outcome : Outcome α} {next : α → Action β}
    {w : World} {result : α} (h : outcome = .ok result) :
    ((liftM outcome : Action α) >>= next).run env w = (next result).run env w := by
  subst h
  exact run_bind_of_ok rfl

/-- Naming the operation of a failure changes nothing about a success. -/
theorem run_inOperation_eq_ok {env : Environment} {a : Action α} {w w' : World} {result : α}
    {operation : Operation} {collection : String}
    (h : (a.inOperation operation collection).run env w = (.ok result, w')) :
    a.run env w = (.ok result, w') := by
  have hpair : ((a.run env w).1.mapError (·.inOperation operation.name collection),
      (a.run env w).2) = (.ok result, w') := h
  have ⟨houtcome, hworld⟩ := Prod.mk.inj hpair
  exact Prod.ext (Outcome.mapError_eq_ok.mp houtcome) hworld

theorem run_inOperation_of_ok {env : Environment} {a : Action α} {w w' : World} {result : α}
    (operation : Operation) (collection : String) (h : a.run env w = (.ok result, w')) :
    (a.inOperation operation collection).run env w = (.ok result, w') := by
  change ((a.run env w).1.mapError (·.inOperation operation.name collection), (a.run env w).2) = _
  rw [h]
  rfl

/-! ## Actions that only tell -/

/-- The outcome does not depend on the world, of which only the account of events changes. -/
def Tells (env : Environment) (a : Action α) (outcome : Outcome α) : Prop :=
  ∀ w, ∃ events, a.run env w = (outcome, { w with events })

theorem tells_lift (env : Environment) (outcome : Outcome α) :
    Tells env (liftM outcome : Action α) outcome :=
  fun w => ⟨w.events, rfl⟩

theorem tells_pure (env : Environment) (result : α) : Tells env (pure result) (.ok result) :=
  fun w => ⟨w.events, rfl⟩

theorem tells_record (env : Environment) (event : Event) : Tells env (record event) (.ok ()) :=
  fun w => ⟨event :: w.events, rfl⟩

/-- An action that tells something may come before another one that does. -/
theorem Tells.bind {env : Environment} {a : Action α} {next : α → Action β} {result : α}
    {outcome : Outcome β} (ha : Tells env a (.ok result))
    (hnext : Tells env (next result) outcome) : Tells env (a >>= next) outcome := by
  intro w
  obtain ⟨events, hrun⟩ := ha w
  obtain ⟨later, hrest⟩ := hnext { w with events }
  exact ⟨later, by rw [run_bind_of_ok hrun, hrest]⟩

/-- Only the error that is told names the operation. -/
theorem Tells.inOperation {env : Environment} {a : Action α} {outcome : Outcome α}
    (ha : Tells env a outcome) (operation : Operation) (collection : String) :
    Tells env (a.inOperation operation collection)
      (outcome.mapError (·.inOperation operation.name collection)) := by
  intro w
  obtain ⟨events, hrun⟩ := ha w
  refine ⟨events, ?_⟩
  simp only [run] at hrun
  simp [run, Action.inOperation, hrun]

/-! ## Quiet actions -/

/-- The collections are afterwards what they were, whatever the outcome. -/
def Quiet (a : Action α) : Prop :=
  ∀ env w, (a.run env w).2.collections = w.collections

theorem quiet_pure (result : α) : Quiet (pure result : Action α) :=
  fun _ _ => rfl

theorem quiet_environment : Quiet environment :=
  fun _ _ => rfl

theorem quiet_read (f : Collections → Outcome α) : Quiet (read f) :=
  fun _ _ => rfl

theorem quiet_onCache (place : Nat) (category : CacheCategory)
    (f : ResultCache → Nat → α × ResultCache) : Quiet (onCache place category f) :=
  fun _ _ => rfl

/-- Quiet actions one after the other are quiet. -/
theorem Quiet.bind {a : Action α} {next : α → Action β} (ha : Quiet a)
    (hnext : ∀ result, Quiet (next result)) : Quiet (a >>= next) := by
  intro env w
  cases hrun : a.run env w with
  | mk outcome w' =>
    have hw : w'.collections = w.collections := by simpa [hrun] using ha env w
    cases outcome with
    | ok result => rw [run_bind_of_ok hrun, hnext result env w', hw]
    | error e => rw [run_bind_of_error hrun, hw]

/-! ## Contracts -/

/-- What holds between the collections at the beginning and now. -/
abbrev Relation := Collections → Collections → Prop

/-- Nothing has happened to the collections yet. -/
def Untouched : Relation :=
  fun start now => now = start

def Fulfils (before : Relation) (a : Action α) (after : α → Relation) : Prop :=
  ∀ (env : Environment) (w : World) (start : Collections), before start w.collections →
    match a.run env w with
    | (.ok result, w') => after result start w'.collections
    | (.error _, w') => w'.collections = start

/-- What holds after the first action is what the second one begins with. -/
theorem Fulfils.bind {before : Relation} {a : Action α} {middle : α → Relation}
    {next : α → Action β} {after : β → Relation} (ha : Fulfils before a middle)
    (hnext : ∀ result, Fulfils (middle result) (next result) after) :
    Fulfils before (a >>= next) after := by
  intro env w start hstart
  have hfirst := ha env w start hstart
  cases hrun : a.run env w with
  | mk outcome w' =>
    rw [hrun] at hfirst
    cases outcome with
    | ok result =>
      rw [run_bind_of_ok hrun]
      exact hnext result env w' start hfirst
    | error e =>
      rw [run_bind_of_error hrun]
      exact hfirst

theorem fulfils_pure {before : Relation} {after : α → Relation} {result : α}
    (h : ∀ start now, before start now → after result start now) :
    Fulfils before (pure result) after :=
  fun _ _ start hstart => h start _ hstart

/-- A quiet action may fail as long as nothing was touched before it. -/
theorem Quiet.fulfils {a : Action α} (ha : Quiet a) :
    Fulfils Untouched a fun _ => Untouched := by
  intro env w start hstart
  have hquiet := ha env w
  cases hrun : a.run env w with
  | mk outcome w' =>
    rw [hrun] at hquiet
    have hw : w'.collections = start := hquiet.trans hstart
    cases outcome with
    | ok result => exact hw
    | error e => exact hw

/-- An action that only tells and succeeds may come after a write. -/
theorem Fulfils.of_tells {before : Relation} {a : Action α} {result : α}
    (h : ∀ env, Tells env a (.ok result)) :
    Fulfils before a fun answer start now => before start now ∧ answer = result := by
  intro env w start hstart
  obtain ⟨events, hrun⟩ := h env w
  rw [hrun]
  exact ⟨hstart, rfl⟩

/-- A step whose outcome is known beforehand: its failure ends the operation. -/
theorem fulfils_tells_bind {a : Action α} {outcome : Outcome α} {next : α → Action β}
    {after : β → Relation} (ha : ∀ env, Tells env a outcome)
    (h : ∀ result, outcome = .ok result → Fulfils Untouched (next result) after) :
    Fulfils Untouched (a >>= next) after := by
  intro env w start hstart
  obtain ⟨events, hrun⟩ := ha env w
  cases outcome with
  | ok result =>
      rw [run_bind_of_ok hrun]
      exact h result rfl env { w with events } start hstart
  | error e =>
      rw [run_bind_of_error hrun]
      exact hstart

/-- A computation of an operation's arguments. -/
theorem fulfils_lift_bind {outcome : Outcome α} {next : α → Action β} {after : β → Relation}
    (h : ∀ result, outcome = .ok result → Fulfils Untouched (next result) after) :
    Fulfils Untouched (liftM outcome >>= next) after :=
  fulfils_tells_bind (fun env => tells_lift env outcome) h

/-- A drawn identity is a text. -/
theorem fulfils_draw : Fulfils Untouched draw fun id start now =>
    Untouched start now ∧ ∃ text, id = .string text :=
  fun _ _ _ hstart => ⟨hstart, _, rfl⟩

theorem fulfils_read (f : Collections → α) :
    Fulfils Untouched (read fun c => .ok (f c)) fun result start now =>
      Untouched start now ∧ result = f start :=
  fun _ _ _ hstart => ⟨hstart, congrArg f hstart⟩

/-- A change is all that has happened if nothing had happened before it; if it fails, nothing has.
-/
theorem fulfils_change {after : α → Relation}
    {f : Collections → Outcome (α × Collections)}
    (h : ∀ c result c', f c = .ok (result, c') → after result c c') :
    Fulfils Untouched (change f) after := by
  intro env w start hstart
  cases hf : f w.collections with
  | ok changed =>
    obtain ⟨result, c'⟩ := changed
    have hrun : (change f).run env w = (.ok result, { w with collections := c' }) := by
      simp [run, change, hf]
    rw [hrun]
    simp only [Untouched] at hstart
    exact h start result c' (hstart ▸ hf)
  | error e =>
    have hrun : (change f).run env w = (.error e, w) := by
      simp [run, change, hf]
    rw [hrun]
    exact hstart

theorem Fulfils.inOperation {before : Relation} {a : Action α} {after : α → Relation}
    (ha : Fulfils before a after) (operation : Operation) (collection : String) :
    Fulfils before (a.inOperation operation collection) after := by
  intro env w start hstart
  have hresult := ha env w start hstart
  cases hrun : a.run env w with
  | mk outcome w' =>
    rw [hrun] at hresult
    simp only [run] at hrun
    simp only [run, Action.inOperation, hrun]
    cases outcome with
    | ok result => exact hresult
    | error e => exact hresult

/-- What is known of the beginning stays known. -/
theorem Fulfils.given {before : Relation} {fact : Collections → Prop} {a : Action α}
    {after : α → Relation} (ha : Fulfils before a after) :
    Fulfils (fun start now => before start now ∧ fact start) a
      fun result start now => after result start now ∧ fact start := by
  intro env w start hstart
  have hresult := ha env w start hstart.1
  cases hrun : a.run env w with
  | mk outcome w' =>
    rw [hrun] at hresult
    cases outcome with
    | ok result => exact ⟨hresult, hstart.2⟩
    | error e => exact hresult

/-- A fact that has nothing to do with the collections may be used at once. -/
theorem Fulfils.of_fact {before : Relation} {fact : Prop} {a : Action α} {after : α → Relation}
    (ha : fact → Fulfils before a after) :
    Fulfils (fun start now => before start now ∧ fact) a after :=
  fun env w start hstart => ha hstart.2 env w start hstart.1

/-- An action may begin with more than it needs. -/
theorem Fulfils.weaken {before stronger : Relation} {a : Action α} {after : α → Relation}
    (ha : Fulfils before a after) (himp : ∀ start now, stronger start now → before start now) :
    Fulfils stronger a after :=
  fun env w start hstart => ha env w start (himp start _ hstart)

theorem Fulfils.consequence {before : Relation} {a : Action α} {middle after : α → Relation}
    (ha : Fulfils before a middle)
    (himp : ∀ result start now, middle result start now → after result start now) :
    Fulfils before a after := by
  intro env w start hstart
  have hresult := ha env w start hstart
  cases hrun : a.run env w with
  | mk outcome w' =>
    rw [hrun] at hresult
    cases outcome with
    | ok result => exact himp result start _ hresult
    | error e => exact hresult

end DocumentBase.Action
