import DocumentBase.Proofs.Action.Reading

/-!
# What an action shows

An action may depend on more of the world than anybody sees.  It shows an outcome if that is
what is seen of its outcome in every world that meets a condition, and if the condition is met
again afterwards.  Such a condition is an invariant: what one action shows, the next one may
rely on.
-/

namespace DocumentBase.Action

variable {α β γ δ : Type} {env : Environment} {I : World → Prop}

/-- The part of the outcome that is seen, in worlds that meet a condition. -/
def Shows (I : World → Prop) (env : Environment) (part : α → γ) (a : Action α)
    (outcome : Outcome γ) : Prop :=
  ∀ w, I w → (a.run env w).1.map part = outcome ∧ I (a.run env w).2

/-- The part that is seen of the first result decides what is seen of the second one. -/
theorem Shows.bind {a : Action α} {next : α → Action β} {part : α → γ} {part' : β → δ}
    {outcome : Outcome γ} {f : γ → Outcome δ} (ha : Shows I env part a outcome)
    (hnext : ∀ result, outcome = .ok (part result) →
      Shows I env part' (next result) (f (part result))) :
    Shows I env part' (a >>= next) (outcome >>= f) := by
  intro w hw
  obtain ⟨houtcome, hmiddle⟩ := ha w hw
  cases hrun : a.run env w with
  | mk first w' =>
      rw [hrun] at houtcome hmiddle
      cases first with
      | ok result =>
          rw [run_bind_of_ok hrun, ← houtcome]
          exact hnext result houtcome.symm w' hmiddle
      | error e =>
          rw [run_bind_of_error hrun, ← houtcome]
          exact ⟨rfl, hmiddle⟩

/-- A result that is passed on shows what it showed. -/
theorem Shows.map {a : Action α} {part : α → γ} {part' : β → γ} {g : α → β}
    {outcome : Outcome γ} (ha : Shows I env part a outcome)
    (hg : ∀ result, part' (g result) = part result) :
    Shows I env part' (do return g (← a)) outcome := by
  have hpure : ∀ result, outcome = .ok (part result) →
      Shows I env part' (pure (g result)) (pure (part result)) := by
    intro result _ w hw
    exact ⟨congrArg Except.ok (hg result), hw⟩
  have hbind := ha.bind hpure
  rwa [bind_pure] at hbind

theorem shows_pure (part : α → γ) (result : α) :
    Shows I env part (pure result) (.ok (part result)) :=
  fun _ hw => ⟨rfl, hw⟩

theorem shows_lift (outcome : Outcome α) :
    Shows I env id (liftM outcome : Action α) outcome := by
  intro w hw
  refine ⟨?_, hw⟩
  cases outcome <;> rfl

/-- What is read shows its outcome, under a condition that fixes the collections and does not
depend on events. -/
theorem Reads.shows {a : Action α} {f : Collections → Outcome α} {stored : Collections}
    (ha : Reads env a f) (hstored : ∀ w, I w → w.collections = stored)
    (hevents : ∀ w events, I w → I { w with events }) : Shows I env id a (f stored) := by
  intro w hw
  obtain ⟨events, hrun⟩ := ha w
  rw [hrun]
  refine ⟨?_, hevents w events hw⟩
  rw [← hstored w hw]
  cases f w.collections <;> rfl

theorem Shows.inOperation {a : Action α} {part : α → γ} {outcome : Outcome γ}
    (ha : Shows I env part a outcome) (operation : Operation) (collection : String) :
    Shows I env part (a.inOperation operation collection)
      (outcome.mapError (·.inOperation operation.name collection)) := by
  intro w hw
  obtain ⟨houtcome, hafter⟩ := ha w hw
  refine ⟨?_, hafter⟩
  rw [← houtcome]
  change ((a.run env w).1.mapError _).map part = _
  cases (a.run env w).1 <;> rfl

end DocumentBase.Action
