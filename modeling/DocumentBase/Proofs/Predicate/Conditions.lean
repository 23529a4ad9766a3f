import DocumentBase.Predicate.Evaluation
import DocumentBase.Predicate.Rendering
import DocumentBase.Proofs.Predicate.Combining

/-!
# The conditions in a predicate

A predicate is put together from comparisons and pattern matches by combinations.  Where each of
these conditions can be evaluated on every document, so can the predicate.  A predicate without
empty combinations is written without empty lists of children.
-/

namespace DocumentBase

/-- Comparisons with a list of operands. -/
def Comparison.takesList : Comparison → Bool
  | .oneOf | .allOf => true
  | _ => false

namespace Predicate

mutual

/-- The comparisons and pattern matches that a predicate is put together from. -/
def conditions : Predicate → List Predicate
  | .combined _ children => conditionsOf children
  | p => [p]
termination_by structural p => p

def conditionsOf : List Predicate → List Predicate
  | [] => []
  | p :: rest => conditions p ++ conditionsOf rest
termination_by structural ps => ps

end

mutual

/-- Whether every combination in a predicate, at any depth, is one of something. -/
def isFilled : Predicate → Bool
  | .combined _ children => !children.isEmpty && areFilled children
  | _ => true
termination_by structural p => p

def areFilled : List Predicate → Bool
  | [] => true
  | p :: rest => isFilled p && areFilled rest
termination_by structural ps => ps

end

theorem mem_conditionsOf {q : Predicate} {ps : List Predicate} :
    q ∈ conditionsOf ps ↔ ∃ p ∈ ps, q ∈ p.conditions := by
  induction ps with
  | nil => simp [conditionsOf]
  | cons p rest ih => simp [conditionsOf, ih]

theorem areFilled_iff {ps : List Predicate} :
    areFilled ps = true ↔ ∀ p ∈ ps, p.isFilled = true := by
  induction ps with
  | nil => simp [areFilled]
  | cons p rest ih => simp [areFilled, ih]

/-! ### Evaluation without errors -/

/-- A predicate that holds or does not hold of every document. -/
def IsTotal (p : Predicate) : Prop :=
  ∀ d, ∃ held, p.holds d = .ok held

/-- Conditions that can be evaluated can be evaluated together. -/
theorem exists_allHold {d : Document} {ps : List Predicate} (h : ∀ p ∈ ps, p.IsTotal) :
    ∃ held, allHold d ps = .ok held := by
  induction ps with
  | nil => exact ⟨true, rfl⟩
  | cons p rest ih =>
      obtain ⟨hp, hrest⟩ := List.forall_mem_cons.mp h
      obtain ⟨held, hheld⟩ := hp d
      cases held with
      | false => exact ⟨false, allHold_cons_eq_ok.mpr (.inl ⟨hheld, rfl⟩)⟩
      | true =>
          obtain ⟨others, hothers⟩ := ih hrest
          exact ⟨others, allHold_cons_eq_ok.mpr (.inr ⟨hheld, hothers⟩)⟩

theorem exists_anyHolds {d : Document} {ps : List Predicate} (h : ∀ p ∈ ps, p.IsTotal) :
    ∃ held, anyHolds d ps = .ok held := by
  induction ps with
  | nil => exact ⟨false, rfl⟩
  | cons p rest ih =>
      obtain ⟨hp, hrest⟩ := List.forall_mem_cons.mp h
      obtain ⟨held, hheld⟩ := hp d
      cases held with
      | true => exact ⟨true, anyHolds_cons_eq_ok.mpr (.inl ⟨hheld, rfl⟩)⟩
      | false =>
          obtain ⟨others, hothers⟩ := ih hrest
          exact ⟨others, anyHolds_cons_eq_ok.mpr (.inr ⟨hheld, hothers⟩)⟩

theorem isTotal_combined {combinator : Combinator} {ps : List Predicate}
    (h : ∀ p ∈ ps, p.IsTotal) : (combined combinator ps).IsTotal := by
  intro d
  cases combinator with
  | and => exact exists_allHold h
  | or => exact exists_anyHolds h
  | nor =>
      obtain ⟨held, hheld⟩ := exists_anyHolds (d := d) h
      exact ⟨!held, holds_nor_eq_ok.mpr (by rw [Bool.not_not, hheld])⟩

mutual

/-- Whether a predicate can be evaluated is up to its conditions. -/
theorem isTotal_of_conditions : ∀ p : Predicate, (∀ q ∈ p.conditions, q.IsTotal) → p.IsTotal
  | .combined _ children, h => isTotal_combined (isTotal_of_conditionsOf children h)
  | .compared _ _ _, h => h _ List.mem_cons_self
  | .matching _ _ _, h => h _ List.mem_cons_self
termination_by structural p => p

theorem isTotal_of_conditionsOf : ∀ ps : List Predicate,
    (∀ q ∈ conditionsOf ps, q.IsTotal) → ∀ p ∈ ps, p.IsTotal
  | [], _ => nofun
  | p :: rest, h => by
    obtain ⟨hp, hrest⟩ := List.forall_mem_append.mp h
    exact List.forall_mem_cons.mpr
      ⟨isTotal_of_conditions p hp, isTotal_of_conditionsOf rest hrest⟩
termination_by structural ps => ps

end

/-- Comparisons with a single operand can be evaluated on every document. -/
theorem isTotal_compared {comparison : Comparison} (h : comparison.takesList = false)
    (field : String) (operand : Value) : (compared field comparison operand).IsTotal := by
  intro d
  cases comparison <;> first | exact ⟨_, rfl⟩ | cases h

/-- Comparisons with a list can be evaluated if their operand is one. -/
theorem isTotal_compared_array (comparison : Comparison) (field : String) (items : List Value) :
    (compared field comparison (.array items)).IsTotal := by
  intro d
  cases comparison <;> exact ⟨_, rfl⟩

/-- A match can be evaluated if its pattern is one. -/
theorem isTotal_matching {pattern options : String}
    (h : (Pattern.parse? pattern (options.toList.contains 'i')).isSome = true) (field : String) :
    (matching field pattern options).IsTotal := by
  intro d
  obtain ⟨p, hp⟩ := Option.isSome_iff_exists.mp h
  exact ⟨_, by rw [holds, patternHolds, hp]⟩

/-! ### Predicates made of given conditions -/

/-- A predicate that is put together from some of the given conditions, without empty
combinations. -/
structure MadeOf (given : List Predicate) (p : Predicate) : Prop where
  conditions : ∀ q ∈ p.conditions, q ∈ given
  filled : p.isFilled = true

/-- A combination of at least one thing made of conditions is made of them. -/
theorem madeOf_combined {given ps : List Predicate} (combinator : Combinator) (hsome : ps ≠ [])
    (h : ∀ p ∈ ps, MadeOf given p) : MadeOf given (.combined combinator ps) := by
  constructor
  · intro q hq
    obtain ⟨p, hp, hcondition⟩ := mem_conditionsOf.mp hq
    exact (h p hp).conditions q hcondition
  · have hfilled := areFilled_iff.mpr fun p hp => (h p hp).filled
    simp [isFilled, hfilled, hsome]

/-- Predicates that are made of the given conditions are so when they are gathered into one. -/
theorem madeOf_gather {given ps : List Predicate} (hsome : ps ≠ [])
    (h : ∀ p ∈ ps, MadeOf given p) : MadeOf given (gather ps) := by
  match ps with
  | [] => exact absurd rfl hsome
  | [p] => exact h p List.mem_cons_self
  | p :: q :: rest => exact madeOf_combined .and hsome h

theorem madeOf_compared {given : List Predicate} {field : String} {comparison : Comparison}
    {operand : Value} (h : .compared field comparison operand ∈ given) :
    MadeOf given (.compared field comparison operand) :=
  ⟨fun _ hq => List.mem_singleton.mp hq ▸ h, rfl⟩

theorem madeOf_matching {given : List Predicate} {field pattern options : String}
    (h : .matching field pattern options ∈ given) :
    MadeOf given (.matching field pattern options) :=
  ⟨fun _ hq => List.mem_singleton.mp hq ▸ h, rfl⟩

end Predicate

/-! ### Lists of children in query documents -/

namespace Criteria

mutual

/-- Whether every combinator in an entry, at any depth, has children.  Operands are not looked
into. -/
def isFilledEntry (key : String) : Value → Bool
  | .array children =>
    (Combinator.ofKey? key).isNone || (!children.isEmpty && areFilledChildren children)
  | _ => true
termination_by structural v => v

def areFilledChildren : List Value → Bool
  | [] => true
  | .document entries :: rest => areFilledEntries entries && areFilledChildren rest
  | _ :: rest => areFilledChildren rest
termination_by structural children => children

def areFilledEntries : List (String × Value) → Bool
  | [] => true
  | (key, value) :: rest => isFilledEntry key value && areFilledEntries rest
termination_by structural entries => entries

end

end Criteria

namespace Predicate

open Criteria

mutual

/-- A predicate is written with an empty list exactly if it has one. -/
theorem areFilledEntries_render : ∀ p : Predicate, areFilledEntries p.render = p.isFilled
  | .combined combinator children => by
    have hlength : (renderAll children).isEmpty = children.isEmpty := by cases children <;> rfl
    simp [render, areFilledEntries, isFilledEntry, isFilled, hlength,
      areFilledChildren_renderAll children]
  | .compared _ _ _ => rfl
  | .matching _ _ _ => rfl
termination_by structural p => p

theorem areFilledChildren_renderAll : ∀ ps : List Predicate,
    areFilledChildren (renderAll ps) = areFilled ps
  | [] => rfl
  | p :: rest => by
    rw [renderAll, areFilledChildren, areFilledEntries_render p,
      areFilledChildren_renderAll rest, areFilled]
termination_by structural ps => ps

end

end Predicate

end DocumentBase
