import DocumentBase.Item
import DocumentBase.Predicate.Evaluation

/-!
# Selecting documents

A predicate that can be evaluated on every document selects like a filter of lists, and put in
front of another predicate it keeps documents away from that one: what it excludes is never
looked at, so it cannot cause an error either.  The condition on the owner is such a predicate.
-/

namespace DocumentBase

namespace Predicate

theorem select_cons (p : Predicate) (d : Document) (rest : List Document) :
    p.select (d :: rest) = (do
      let kept ← p.holds d
      let others ← p.select rest
      return if kept then d :: others else others) := rfl

/-- A predicate that is decided on every document selects those where it holds. -/
theorem select_eq_filter {p : Predicate} {f : Document → Bool}
    (h : ∀ d, p.holds d = .ok (f d)) (rows : List Document) :
    p.select rows = .ok (rows.filter f) := by
  induction rows with
  | nil => rfl
  | cons d rest ih =>
      rw [select_cons, h, ih, List.filter_cons]
      rfl

/-- The second condition of two is asked only where the first one holds. -/
theorem holds_and {p : Predicate} {f : Document → Bool} (h : ∀ d, p.holds d = .ok (f d))
    (q : Predicate) (d : Document) :
    (combined .and [p, q]).holds d = if f d then q.holds d else .ok false := by
  have hunfold : (combined .and [p, q]).holds d = (do
      if ← p.holds d then
        if ← q.holds d then .ok true else return false
      else return false) := rfl
  rw [hunfold, h]
  cases f d with
  | false => rfl
  | true =>
      cases q.holds d with
      | error e => rfl
      | ok held => cases held <;> rfl

/-- Documents are selected by one condition after the other when the first is decided on all of
them. -/
theorem select_and {p : Predicate} {f : Document → Bool} (h : ∀ d, p.holds d = .ok (f d))
    (q : Predicate) (rows : List Document) :
    (combined .and [p, q]).select rows = q.select (rows.filter f) := by
  induction rows with
  | nil => rfl
  | cons d rest ih =>
      rw [select_cons, holds_and h, ih]
      by_cases hd : f d = true
      · rw [if_pos hd, List.filter_cons_of_pos hd, select_cons]
      · rw [if_neg hd, List.filter_cons_of_neg hd]
        cases q.select (rest.filter f) with
        | error e => rfl
        | ok others => rfl

end Predicate

/-! ### The condition on the owner -/

/-- Whether a document matches the condition on the owner. -/
def isOwned (owner : String) (d : Document) : Bool :=
  Predicate.anyEqual (d.reachAt Item.ownerField) (.string owner)

namespace Criteria

theorem parseEntries_owner (owner : String) :
    parseEntries [(Item.ownerField, .string owner)] =
      .ok [.compared Item.ownerField .eq (.string owner)] := by
  have hkey : Combinator.ofKey? Item.ownerField = none := by decide
  have hoperator : isOperatorKey Item.ownerField = false := by decide
  simp [parseEntries, parseEntry, hkey, hoperator, parseField, bind, Except.bind, pure,
    Except.pure]

/-- The condition on the owner holds exactly on the documents that the owner owns. -/
theorem holds_owner (owner : String) (d : Document) :
    (Predicate.compared Item.ownerField .eq (.string owner)).holds d =
      .ok (isOwned owner d) := rfl

/-- Of any rows the condition on the owner selects those that the owner owns. -/
theorem select_owner (owner : String) (rows : List Document) :
    (fieldIs Item.ownerField owner).select rows = .ok (rows.filter (isOwned owner)) := by
  have hpredicate : (fieldIs Item.ownerField owner).predicate =
      .ok (.compared Item.ownerField .eq (.string owner)) := by
    rw [predicate, fieldIs, parseEntries_owner]
    rfl
  rw [select, hpredicate]
  exact Predicate.select_eq_filter (holds_owner owner) rows

theorem select_of_isEmpty {c : Criteria} (h : c.isEmpty = true) (rows : List Document) :
    c.select rows = .ok rows := by
  obtain ⟨document⟩ := c
  have hnil : document = [] := by simpa [isEmpty] using h
  subst hnil
  have hselect := Predicate.select_eq_filter (p := .combined .and []) (f := fun _ => true)
    (fun _ => rfl) rows
  rw [List.filter_eq_self.mpr fun _ _ => rfl] at hselect
  exact hselect

/-- The condition on the owner comes before all others. -/
theorem select_owner_and (owner : String) (c : Criteria) (rows : List Document) :
    ((fieldIs Item.ownerField owner).and c).select rows =
      c.select (rows.filter (isOwned owner)) := by
  by_cases hempty : c.isEmpty = true
  · have hand : (fieldIs Item.ownerField owner).and c = fieldIs Item.ownerField owner := by
      simp [Criteria.and, combine, hempty]
    rw [hand, select_owner, select_of_isEmpty hempty]
  · have hand : (fieldIs Item.ownerField owner).and c =
        ⟨[(Combinator.and.key,
          .array [.document [(Item.ownerField, .string owner)], .document c.document])]⟩ := by
      rw [Criteria.and, combine, if_neg hempty]
      rfl
    have hchildren : parseChildren Combinator.and.key
        [.document [(Item.ownerField, .string owner)], .document c.document] =
          c.predicate.map fun p => [.compared Item.ownerField .eq (.string owner), p] := by
      rw [parseChildren, parseEntries_owner, predicate]
      simp only [parseChildren]
      cases parseEntries c.document with
      | error e => rfl
      | ok clauses => rfl
    have hpredicate : ((fieldIs Item.ownerField owner).and c).predicate =
        c.predicate.map fun p =>
          .combined .and [.compared Item.ownerField .eq (.string owner), p] := by
      rw [hand, predicate]
      simp only [parseEntries, parseEntry, Combinator.ofKey?_key, hchildren]
      cases c.predicate with
      | error e => rfl
      | ok p => rfl
    rw [select, hpredicate, select]
    cases c.predicate with
    | error e => rfl
    | ok p => exact Predicate.select_and (holds_owner owner) p rows

end Criteria

end DocumentBase
