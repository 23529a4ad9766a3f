import DocumentBase.Predicate.Evaluation
import DocumentBase.Proofs.Value.Likeness

/-!
# What predicates read

A predicate looks at a document through its fields only, and does not tell like values apart.
So two documents that are alike wherever a predicate looks satisfy it both or neither.
-/

namespace DocumentBase

open Value

namespace Predicate

section Candidates

variable {vs ws : List Value}

theorem forall₂_withItems (h : List.Forall₂ Like vs ws) :
    List.Forall₂ Like (withItems vs) (withItems ws) :=
  forall₂_flatMap h fun v w hvw => .cons hvw (by
    have hitems := hvw.items?
    generalize v.items? = x at *
    generalize w.items? = y at *
    cases hitems with
    | none => exact .nil
    | some hboth => exact hboth)

theorem anyEqual_congr (h : List.Forall₂ Like vs ws) (operand : Value) :
    anyEqual vs operand = anyEqual ws operand := by
  have hitems := any_congr (forall₂_withItems h) fun _ _ hvw => hvw.same_eq operand
  cases h with
  | nil => rfl
  | cons hvw hrest => exact hitems

theorem anyOrdered_congr (h : List.Forall₂ Like vs ws) (accepted : Ordering → Bool)
    (operand : Value) : anyOrdered accepted vs operand = anyOrdered accepted ws operand :=
  any_congr (forall₂_withItems h) fun _ _ hvw => by rw [hvw.compare?_eq]

/-- A comparison does not tell values from like ones. -/
theorem comparisonHolds_congr (h : List.Forall₂ Like vs ws) (field : String)
    (comparison : Comparison) (operand : Value) :
    comparisonHolds field comparison operand vs = comparisonHolds field comparison operand ws := by
  have hequal : anyEqual vs = anyEqual ws := funext (anyEqual_congr h)
  have hordered : ∀ accepted, anyOrdered accepted vs operand = anyOrdered accepted ws operand :=
    fun accepted => anyOrdered_congr h accepted operand
  simp only [comparisonHolds, hequal, hordered, isEmpty_congr h]

theorem patternHolds_congr (h : List.Forall₂ Like vs ws) (field pattern options : String) :
    patternHolds field pattern options vs = patternHolds field pattern options ws := by
  simp only [patternHolds]
  cases Pattern.parse? pattern (options.toList.contains 'i') with
  | none => rfl
  | some p =>
      exact congrArg Except.ok
        (any_congr (forall₂_withItems h) fun _ _ hvw => by rw [hvw.text?_eq])

end Candidates

/-! ### Fields of a predicate -/

mutual

def fields : Predicate → List String
  | .combined _ children => fieldsOf children
  | .compared field _ _ => [field]
  | .matching field _ _ => [field]
termination_by structural p => p

def fieldsOf : List Predicate → List String
  | [] => []
  | p :: rest => fields p ++ fieldsOf rest
termination_by structural ps => ps

end

/-- Two documents are alike wherever one of the fields leads. -/
def Akin (names : List String) (d e : Document) : Prop :=
  ∀ field ∈ names, List.Forall₂ Like (d.reachAt field) (e.reachAt field)

theorem Akin.left {names more : List String} {d e : Document} (h : Akin (names ++ more) d e) :
    Akin names d e :=
  fun field hfield => h field (List.mem_append_left more hfield)

theorem Akin.right {names more : List String} {d e : Document} (h : Akin (names ++ more) d e) :
    Akin more d e :=
  fun field hfield => h field (List.mem_append_right names hfield)

mutual

/-- Whether a predicate holds, and how it fails, depends on the fields that it names only. -/
theorem holds_congr {d e : Document} : ∀ p : Predicate, Akin p.fields d e →
    p.holds d = p.holds e
  | .combined .and children, h => allHold_congr children h
  | .combined .or children, h => anyHolds_congr children h
  | .combined .nor children, h => by rw [holds, holds, anyHolds_congr children h]
  | .compared field comparison operand, h =>
    comparisonHolds_congr (h field (by simp [fields])) field comparison operand
  | .matching field pattern options, h =>
    patternHolds_congr (h field (by simp [fields])) field pattern options
termination_by structural p => p

theorem allHold_congr {d e : Document} : ∀ ps : List Predicate, Akin (fieldsOf ps) d e →
    allHold d ps = allHold e ps
  | [], _ => rfl
  | p :: rest, h => by
    rw [allHold, allHold, holds_congr p h.left, allHold_congr rest h.right]
termination_by structural ps => ps

theorem anyHolds_congr {d e : Document} : ∀ ps : List Predicate, Akin (fieldsOf ps) d e →
    anyHolds d ps = anyHolds e ps
  | [], _ => rfl
  | p :: rest, h => by
    rw [anyHolds, anyHolds, holds_congr p h.left, anyHolds_congr rest h.right]
termination_by structural ps => ps

end

end Predicate

end DocumentBase
