import DocumentBase.Error

/-!
# Outcomes that are results

A computation that succeeds has succeeded at each of its steps, and one that fails has failed at
one of them.
-/

namespace DocumentBase.Outcome

variable {α β : Type}

/-- Two steps succeed if the first one does and the second one does with its result. -/
theorem bind_eq_ok {x : Outcome α} {next : α → Outcome β} {result : β} :
    (x >>= next) = .ok result ↔ ∃ middle, x = .ok middle ∧ next middle = .ok result := by
  cases x with
  | ok middle => simp [bind, Except.bind]
  | error e => simp [bind, Except.bind]

/-- A computation fails with the error of its first step that fails. -/
theorem bind_eq_error {x : Outcome α} {next : α → Outcome β} {e : Error} :
    (x >>= next) = .error e ↔ x = .error e ∨ ∃ middle, x = .ok middle ∧ next middle = .error e := by
  cases x with
  | ok middle => simp [bind, Except.bind]
  | error first => simp [bind, Except.bind]

@[simp]
theorem mapError_ok (f : Error → Error) (x : α) : (Except.ok x).mapError f = .ok x := rfl

/-- Telling an error in other words changes no success. -/
theorem mapError_eq_ok {f : Error → Error} {x : Outcome α} {result : α} :
    x.mapError f = .ok result ↔ x = .ok result := by
  cases x with
  | ok middle => exact Iff.rfl
  | error e => exact ⟨nofun, nofun⟩

@[simp]
theorem pure_eq_ok {x result : α} : (pure x : Outcome α) = .ok result ↔ x = result := by
  simp [pure, Except.pure]

/-- A check that raises an error has not raised it. -/
theorem check_eq_ok {b : Bool} {e : Error} {next : Outcome α} {result : α} :
    (do if b then throw e
        next) = .ok result ↔ b = false ∧ next = .ok result := by
  cases b with
  | true => simp [throw, throwThe, MonadExceptOf.throw, bind, Except.bind]
  | false => simp

/-- Checks made one after the other all hold, or the first that does not decides. -/
theorem forM_eq_ok {items : List α} {check : α → Outcome Unit} :
    items.forM check = .ok () ↔ ∀ item ∈ items, check item = .ok () := by
  induction items with
  | nil => simp [Except.pure, pure]
  | cons item rest ih =>
      rw [List.forM_eq_forM, List.forM_cons, bind_eq_ok, List.forall_mem_cons, ← ih]
      constructor
      · rintro ⟨⟨⟩, hitem, hrest⟩
        exact ⟨hitem, hrest⟩
      · rintro ⟨hitem, hrest⟩
        exact ⟨(), hitem, hrest⟩

end DocumentBase.Outcome
