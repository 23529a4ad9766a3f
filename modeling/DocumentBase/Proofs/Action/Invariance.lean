import DocumentBase.Proofs.Store.Steps

/-!
# Invariants of the collections

An action keeps a property of the collections if the property holds afterwards whenever it held
before, whether the action succeeds or fails.  A quiet action keeps every property, and keeping
composes along the steps of an operation.
-/

namespace DocumentBase.Action

variable {α β : Type} {P : Collections → Prop}

def Keeps (P : Collections → Prop) (a : Action α) : Prop :=
  ∀ env w, P w.collections → P (a.run env w).2.collections

/-- What leaves the collections alone keeps every property of them. -/
theorem Quiet.keeps {a : Action α} (ha : Quiet a) : Keeps P a := by
  intro env w hw
  rwa [ha env w]

theorem keeps_pure (result : α) : Keeps P (pure result : Action α) :=
  (quiet_pure result).keeps

theorem keeps_read (f : Collections → Outcome α) : Keeps P (read f) :=
  (quiet_read f).keeps

/-- A change keeps a property if it does so whenever it succeeds. -/
theorem keeps_change {f : Collections → Outcome (α × Collections)}
    (h : ∀ c result c', P c → f c = .ok (result, c') → P c') : Keeps P (change f) := by
  intro env w hw
  simp only [run, change]
  cases hf : f w.collections with
  | ok changed => exact h w.collections changed.1 changed.2 hw hf
  | error e => exact hw

/-- Actions that keep a property keep it one after the other, wherever the first failure stops them.
-/
theorem Keeps.bind {a : Action α} {next : α → Action β} (ha : Keeps P a)
    (hnext : ∀ result, Keeps P (next result)) : Keeps P (a >>= next) := by
  intro env w hw
  have hmiddle := ha env w hw
  cases hrun : a.run env w with
  | mk outcome w' =>
    rw [hrun] at hmiddle
    cases outcome with
    | ok result =>
        rw [run_bind_of_ok hrun]
        exact hnext result env w' hmiddle
    | error e =>
        rw [run_bind_of_error hrun]
        exact hmiddle

/-- What follows a step with a known outcome may rely on its result. -/
theorem keeps_tells_bind {a : Action α} {outcome : Outcome α} {next : α → Action β}
    (ha : ∀ env, Tells env a outcome) (h : ∀ result, outcome = .ok result → Keeps P (next result)) :
    Keeps P (a >>= next) := by
  intro env w hw
  obtain ⟨events, hrun⟩ := ha env w
  cases outcome with
  | ok result =>
      rw [run_bind_of_ok hrun]
      exact h result rfl env { w with events } hw
  | error e =>
      rw [run_bind_of_error hrun]
      exact hw

theorem keeps_lift_bind {outcome : Outcome α} {next : α → Action β}
    (h : ∀ result, outcome = .ok result → Keeps P (next result)) :
    Keeps P (liftM outcome >>= next) :=
  keeps_tells_bind (fun env => tells_lift env outcome) h

theorem Keeps.inOperation {a : Action α} (ha : Keeps P a) (operation : Operation)
    (collection : String) : Keeps P (a.inOperation operation collection) :=
  ha

theorem Keeps.holding {a : Action α} (ha : Keeps P a) (v : CollectionView)
    (operation : Operation) : Keeps P (v.holding operation a) := by
  intro env w hw
  rcases v.run_holding operation a env w with
    ⟨e, events, -, hrun⟩ | ⟨before, later, -, hrun⟩
  · rw [hrun]
    exact hw
  · rw [hrun]
    exact ha env { w with events := before } hw

/-- A contract that takes a property along keeps it: a failure brings the beginning back. -/
theorem Fulfils.keeps {a : Action α} {after : α → Relation} (ha : Fulfils Untouched a after)
    (h : ∀ result start now, P start → after result start now → P now) : Keeps P a := by
  intro env w hw
  have hafter := ha env w w.collections rfl
  cases hrun : a.run env w with
  | mk outcome w' =>
    rw [hrun] at hafter
    cases outcome with
    | ok result => exact h result w.collections w'.collections hw hafter
    | error e =>
        rw [← hafter] at hw
        exact hw

end DocumentBase.Action
