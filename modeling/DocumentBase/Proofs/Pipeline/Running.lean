import DocumentBase.Proofs.Join
import DocumentBase.Proofs.Outcome
import DocumentBase.Proofs.Predicate.Reading

/-!
# Running stretches of pipelines

A pipeline runs stretch by stretch.  Stretches of joins work row by row, and a selection that
succeeds keeps the rows that the predicate accepts.
-/

namespace DocumentBase

namespace Pipeline

/-- A pipeline runs on the rows that its beginning has made. -/
theorem run_append (c : Collections) (p q : Pipeline) (rows : List Document) :
    run c (p ++ q) rows = run c p rows >>= run c q := by
  induction p generalizing rows with
  | nil => rfl
  | cons stage rest ih =>
      rw [List.cons_append, run, run]
      cases stage.run c rows with
      | error e => rfl
      | ok next => exact ih next

theorem run_singleton (c : Collections) (stage : Stage) (rows : List Document) :
    run c [stage] rows = stage.run c rows := by
  rw [run]
  cases stage.run c rows <;> rfl

/-- Joins treat every row on its own. -/
theorem run_lookups (c : Collections) (joins : List Join) (rows : List Document) :
    run c (joins.map Stage.lookup) rows = .ok (rows.map (Join.runAll c joins)) := by
  induction joins generalizing rows with
  | nil =>
      have hnil : Join.runAll c [] = id := rfl
      rw [hnil, List.map_id]
      rfl
  | cons join rest ih =>
      rw [List.map_cons, run, Stage.run]
      apply (ih _).trans
      rw [List.map_map]
      rfl

/-- Unwinding at several paths treats one path after the other. -/
theorem run_unwinds (c : Collections) (joins : List Join) (rows : List Document) :
    run c (joins.map fun join => .unwind join.output) rows =
      .ok (unwindAll (joins.map (·.output)) rows) := by
  induction joins generalizing rows with
  | nil => rfl
  | cons join rest ih =>
      rw [List.map_cons, run, Stage.run]
      exact ih _

end Pipeline

/-- Every row is unwound on its own. -/
theorem unwindAll_eq_flatMap (paths : List String) (rows : List Document) :
    unwindAll paths rows = rows.flatMap fun row => unwindAll paths [row] := by
  induction paths generalizing rows with
  | nil => simp [unwindAll]
  | cons path rest ih =>
      have hcons : ∀ rows, unwindAll (path :: rest) rows =
          unwindAll rest (rows.flatMap (unwindRow path)) := fun _ => rfl
      rw [hcons, ih, List.flatMap_assoc]
      apply List.flatMap_congr
      intro row _
      rw [hcons, List.flatMap_singleton, ← ih]

/-! ### Selections that succeed -/

namespace Predicate

/-- Whether a document satisfies a predicate, where that can be told. -/
def accepts (p : Predicate) (d : Document) : Bool :=
  match p.holds d with
  | .ok b => b
  | .error _ => false

/-- Documents that are alike in the fields of a predicate are accepted alike. -/
theorem accepts_congr {p : Predicate} {d e : Document} (h : Akin p.fields d e) :
    p.accepts d = p.accepts e := by
  rw [accepts, accepts, holds_congr p h]

/-- What is selected without an error is what the predicate accepts. -/
theorem eq_filter_of_select {p : Predicate} {rows kept : List Document}
    (h : p.select rows = .ok kept) : kept = rows.filter p.accepts := by
  induction rows generalizing kept with
  | nil => simpa [select, eq_comm] using h
  | cons d rest ih =>
      rw [select] at h
      obtain ⟨b, hb, hrest⟩ := Outcome.bind_eq_ok.mp h
      obtain ⟨others, hothers, hkept⟩ := Outcome.bind_eq_ok.mp hrest
      rw [Outcome.pure_eq_ok] at hkept
      have haccepts : p.accepts d = b := by rw [accepts, hb]
      rw [List.filter_cons, haccepts, ← ih hothers, ← hkept]

end Predicate

theorem Criteria.eq_filter_of_select {c : Criteria} {rows kept : List Document}
    (h : c.select rows = .ok kept) :
    ∃ p, c.predicate = .ok p ∧ kept = rows.filter p.accepts := by
  obtain ⟨p, hp, hselect⟩ := Outcome.bind_eq_ok.mp h
  exact ⟨p, hp, Predicate.eq_filter_of_select hselect⟩

end DocumentBase
