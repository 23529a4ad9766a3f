import DocumentBase.Predicate.Evaluation
import DocumentBase.Proofs.Outcome

/-!
# Combining criteria

Criteria are put together by `and`, `or` and `not`.  The query document that comes out depends on
the shape of the criteria: a further child may join those of an entry that is there already, and
empty criteria drop out.  Whatever the shape, the combination holds of a document as its name says,
and it can be read and evaluated wherever both of its parts can.
-/

namespace DocumentBase

/-! ### Conditions one after the other -/

namespace Predicate

variable {d : Document} {p q : Predicate} {ps qs : List Predicate} {x y : Bool}

/-- Conjunctions are evaluated up to the first condition that does not hold. -/
theorem allHold_cons_eq_ok :
    allHold d (p :: ps) = .ok x ↔
      p.holds d = .ok false ∧ x = false ∨ p.holds d = .ok true ∧ allHold d ps = .ok x := by
  rw [allHold, Outcome.bind_eq_ok]
  constructor
  · rintro ⟨held, hheld, hrest⟩
    cases held with
    | false => exact .inl ⟨hheld, (Outcome.pure_eq_ok.mp hrest).symm⟩
    | true => exact .inr ⟨hheld, hrest⟩
  · rintro (⟨hheld, rfl⟩ | ⟨hheld, hrest⟩)
    · exact ⟨false, hheld, rfl⟩
    · exact ⟨true, hheld, hrest⟩

/-- Disjunctions are evaluated up to the first condition that holds. -/
theorem anyHolds_cons_eq_ok :
    anyHolds d (p :: ps) = .ok x ↔
      p.holds d = .ok true ∧ x = true ∨ p.holds d = .ok false ∧ anyHolds d ps = .ok x := by
  rw [anyHolds, Outcome.bind_eq_ok]
  constructor
  · rintro ⟨held, hheld, hrest⟩
    cases held with
    | true => exact .inl ⟨hheld, (Outcome.pure_eq_ok.mp hrest).symm⟩
    | false => exact .inr ⟨hheld, hrest⟩
  · rintro (⟨hheld, rfl⟩ | ⟨hheld, hrest⟩)
    · exact ⟨true, hheld, rfl⟩
    · exact ⟨false, hheld, hrest⟩

theorem allHold_singleton (d : Document) (p : Predicate) : allHold d [p] = p.holds d := by
  rw [allHold]
  cases p.holds d with
  | error e => rfl
  | ok held => cases held <;> rfl

theorem anyHolds_singleton (d : Document) (p : Predicate) : anyHolds d [p] = p.holds d := by
  rw [anyHolds]
  cases p.holds d with
  | error e => rfl
  | ok held => cases held <;> rfl

/-- A single condition stands for itself. -/
theorem holds_gather (d : Document) (ps : List Predicate) : (gather ps).holds d = allHold d ps := by
  match ps with
  | [] => rfl
  | [p] => exact (allHold_singleton d p).symm
  | p :: q :: rest => rfl

/-- The last condition is reached only if all the others hold. -/
theorem allHold_concat (hps : allHold d ps = .ok x) (hq : q.holds d = .ok y) :
    allHold d (ps ++ [q]) = .ok (x && y) := by
  induction ps with
  | nil =>
      cases hps
      rw [List.nil_append, allHold_singleton, hq, Bool.true_and]
  | cons p rest ih =>
      rw [List.cons_append, allHold_cons_eq_ok]
      rcases allHold_cons_eq_ok.mp hps with ⟨hp, rfl⟩ | ⟨hp, hrest⟩
      · exact .inl ⟨hp, rfl⟩
      · exact .inr ⟨hp, ih hrest⟩

/-- The last condition is reached only if none of the others holds. -/
theorem anyHolds_concat (hps : anyHolds d ps = .ok x) (hq : q.holds d = .ok y) :
    anyHolds d (ps ++ [q]) = .ok (x || y) := by
  induction ps with
  | nil =>
      cases hps
      rw [List.nil_append, anyHolds_singleton, hq, Bool.false_or]
  | cons p rest ih =>
      rw [List.cons_append, anyHolds_cons_eq_ok]
      rcases anyHolds_cons_eq_ok.mp hps with ⟨hp, rfl⟩ | ⟨hp, hrest⟩
      · exact .inl ⟨hp, rfl⟩
      · exact .inr ⟨hp, ih hrest⟩

/-- Children joined by `$nor` hold where none of them does, and fail where one of them fails. -/
theorem holds_nor_eq_ok :
    (combined .nor ps).holds d = .ok x ↔ anyHolds d ps = .ok !x := by
  rw [holds, Outcome.bind_eq_ok]
  constructor
  · rintro ⟨any, hany, hx⟩
    rw [hany, ← Outcome.pure_eq_ok.mp hx, Bool.not_not]
  · intro hany
    exact ⟨_, hany, by rw [Bool.not_not]; rfl⟩

/-- Where `ps` and `q` can be evaluated, so can `rs`, and it holds if `ps` holds and `q` does
not. -/
def Excludes (q : Predicate) (ps rs : List Predicate) : Prop :=
  ∀ d x y, allHold d ps = .ok x → q.holds d = .ok y → allHold d rs = .ok (x && !y)

/-- A single exclusion holds where what is excluded does not. -/
theorem excludes_nil (q : Predicate) : Excludes q [] [.combined .nor [q]] := by
  intro d x y hps hq
  cases hps
  rw [allHold_singleton, Bool.true_and, holds_nor_eq_ok, Bool.not_not, anyHolds_singleton, hq]

/-- An exclusion may stand in the middle of other conditions. -/
theorem excludes_child (q : Predicate) (children rest : List Predicate) :
    Excludes q (.combined .nor children :: rest) (.combined .nor (children ++ [q]) :: rest) := by
  intro d x y hps hq
  rw [allHold_cons_eq_ok]
  rcases allHold_cons_eq_ok.mp hps with ⟨hnor, rfl⟩ | ⟨hnor, hrest⟩
  · left
    rw [holds_nor_eq_ok] at hnor ⊢
    exact ⟨anyHolds_concat hnor hq, rfl⟩
  · rw [holds_nor_eq_ok, holds_nor_eq_ok]
    have hany := anyHolds_concat (holds_nor_eq_ok.mp hnor) hq
    cases y with
    | true => exact .inl ⟨hany, Bool.and_false x⟩
    | false => exact .inr ⟨hany, by rwa [Bool.not_false, Bool.and_true]⟩

/-- Conditions in front of an exclusion stay in front of it. -/
theorem Excludes.append {rs : List Predicate} (h : Excludes q ps rs) (first : List Predicate) :
    Excludes q (first ++ ps) (first ++ rs) := by
  intro d x y hps hq
  induction first generalizing x with
  | nil => exact h d x y hps hq
  | cons p rest ih =>
      rw [List.cons_append, allHold_cons_eq_ok]
      rcases allHold_cons_eq_ok.mp hps with ⟨hp, rfl⟩ | ⟨hp, hrest⟩
      · exact .inl ⟨hp, rfl⟩
      · exact .inr ⟨hp, ih x hrest⟩

end Predicate

/-! ### Reading combinations -/

namespace Criteria

open Predicate

/-- The predicate of criteria is made of the conditions of their entries. -/
theorem predicate_eq_ok {c : Criteria} {p : Predicate} :
    c.predicate = .ok p ↔
      ∃ clauses, parseEntries c.document = .ok clauses ∧ gather clauses = p := by
  rw [predicate, Outcome.bind_eq_ok]
  simp only [Outcome.pure_eq_ok]

theorem parseEntries_singleton (key : String) (value : Value) :
    parseEntries [(key, value)] = parseEntry key value := by
  simp only [parseEntries]
  cases parseEntry key value with
  | error e => rfl
  | ok clauses => exact congrArg Except.ok (List.append_nil clauses)

/-- A combinator is read with the predicates of its children. -/
theorem parseEntry_key (combinator : Combinator) (children : List Value) :
    parseEntry combinator.key (.array children) = do
      return [.combined combinator (← parseChildren combinator.key children)] := by
  rw [parseEntry.eq_def, Combinator.ofKey?_key]

/-- Criteria that are one combination of others are read as that combination. -/
theorem predicate_combined (combinator : Combinator) (children : List Value) :
    predicate ⟨[(combinator.key, .array children)]⟩ = do
      return .combined combinator (← parseChildren combinator.key children) := by
  rw [predicate, parseEntries_singleton, parseEntry_key]
  cases parseChildren combinator.key children with
  | error e => rfl
  | ok predicates => rfl

/-- One more child is read behind the others. -/
theorem parseChildren_concat {key : String} {children : List Value} {predicates : List Predicate}
    {b : Criteria} {q : Predicate} (hchildren : parseChildren key children = .ok predicates)
    (hb : b.predicate = .ok q) :
    parseChildren key (children ++ [.document b.document]) = .ok (predicates ++ [q]) := by
  obtain ⟨clauses, hclauses, rfl⟩ := predicate_eq_ok.mp hb
  induction children generalizing predicates with
  | nil =>
      cases hchildren
      rw [List.nil_append, parseChildren, hclauses]
      rfl
  | cons child rest ih =>
      cases child with
      | document entries =>
          rw [parseChildren] at hchildren
          obtain ⟨first, hfirst, hchildren⟩ := Outcome.bind_eq_ok.mp hchildren
          obtain ⟨others, hothers, hpredicates⟩ := Outcome.bind_eq_ok.mp hchildren
          rw [List.cons_append, parseChildren, hfirst, ih hothers]
          cases hpredicates
          rfl
      | _ => cases hchildren

theorem parseChildren_singleton {key : String} {b : Criteria} {q : Predicate}
    (hb : b.predicate = .ok q) : parseChildren key [.document b.document] = .ok [q] := by
  have hnil : parseChildren key [] = .ok [] := rfl
  exact parseChildren_concat hnil hb

/-- Two criteria side by side, or one more beside those that are there. -/
theorem predicate_combine {a b : Criteria} {p q : Predicate} (combinator : Combinator)
    (ha : a.predicate = .ok p) (hb : b.predicate = .ok q) (hsome : a.isEmpty = false)
    (hmore : b.isEmpty = false) :
    ∃ first, (first = [p] ∨ p = .combined combinator first) ∧
      (combine combinator a b).predicate = .ok (.combined combinator (first ++ [q])) := by
  have hpair : parseChildren combinator.key [.document a.document, .document b.document] =
      .ok [p, q] :=
    parseChildren_concat (parseChildren_singleton ha) hb
  have hwrapped : (⟨[(combinator.key, .array [.document a.document, .document b.document])]⟩ :
      Criteria).predicate = .ok (.combined combinator [p, q]) := by
    rw [predicate_combined, hpair]
    rfl
  rw [combine, hmore, hsome, if_neg Bool.false_ne_true, if_neg Bool.false_ne_true]
  split
  next key children hdocument =>
    split
    next hkey =>
      subst hkey
      obtain ⟨document⟩ := a
      cases hdocument
      rw [predicate_combined] at ha
      obtain ⟨predicates, hpredicates, hp⟩ := Outcome.bind_eq_ok.mp ha
      refine ⟨predicates, .inr (Outcome.pure_eq_ok.mp hp).symm, ?_⟩
      rw [predicate_combined, parseChildren_concat hpredicates hb]
      rfl
    next => exact ⟨[p], .inl rfl, hwrapped⟩
  next => exact ⟨[p], .inl rfl, hwrapped⟩

/-- The criteria that are excluded already. -/
def excluded (d : Document) : List Value :=
  ((d.value? Combinator.nor.key).bind Value.items?).getD []

/-- An exclusion is put beside those that are there already. -/
theorem not_eq (a : Criteria) {b : Criteria} (hmore : b.isEmpty = false) :
    a.not b = ⟨a.document.put Combinator.nor.key
      (.array (excluded a.document ++ [.document b.document]))⟩ := by
  rw [Criteria.not, hmore, if_neg Bool.false_ne_true, excluded]
  cases a.document.value? Combinator.nor.key with
  | none => rfl
  | some v => cases v <;> rfl

/-- One more exclusion joins the others where they stand, or comes last. -/
theorem parseEntries_put_nor {entries : Document} {clauses : List Predicate} {b : Criteria}
    {q : Predicate} (hentries : parseEntries entries = .ok clauses) (hb : b.predicate = .ok q) :
    ∃ more, parseEntries (entries.put Combinator.nor.key
        (.array (excluded entries ++ [.document b.document]))) = .ok more ∧
      Excludes q clauses more := by
  induction entries generalizing clauses with
  | nil =>
      cases hentries
      refine ⟨[.combined .nor [q]], ?_, excludes_nil q⟩
      change parseEntries [(Combinator.nor.key, .array [.document b.document])] = _
      rw [parseEntries_singleton, parseEntry_key, parseChildren_singleton hb]
      rfl
  | cons entry rest ih =>
      obtain ⟨key, value⟩ := entry
      rw [parseEntries] at hentries
      obtain ⟨first, hfirst, hentries⟩ := Outcome.bind_eq_ok.mp hentries
      obtain ⟨others, hothers, hclauses⟩ := Outcome.bind_eq_ok.mp hentries
      obtain rfl := Outcome.pure_eq_ok.mp hclauses
      by_cases hkey : key = Combinator.nor.key
      · subst hkey
        cases value with
        | array children =>
            rw [parseEntry_key] at hfirst
            obtain ⟨predicates, hpredicates, hfirst⟩ := Outcome.bind_eq_ok.mp hfirst
            obtain rfl := Outcome.pure_eq_ok.mp hfirst
            refine ⟨.combined .nor (predicates ++ [q]) :: others, ?_,
              excludes_child q predicates others⟩
            simp only [excluded, Document.value?_cons, Document.put, if_true, Option.bind_some,
              Value.items?, Option.getD_some]
            rw [parseEntries, parseEntry_key, parseChildren_concat hpredicates hb, hothers]
            rfl
        | _ => cases hfirst
      · obtain ⟨more, hmore, hexcludes⟩ := ih hothers
        refine ⟨first ++ more, ?_, hexcludes.append first⟩
        simp only [excluded, Document.value?_cons, Document.put, if_neg hkey]
        rw [parseEntries, hfirst]
        simp only [excluded] at hmore
        rw [hmore]
        rfl

/-! ### What combinations mean -/

theorem combine_of_isEmpty_right (combinator : Combinator) (a : Criteria) {b : Criteria}
    (h : b.isEmpty = true) : combine combinator a b = a := by
  rw [combine, h, if_pos rfl]

theorem combine_of_isEmpty_left (combinator : Combinator) {a : Criteria} (b : Criteria)
    (h : a.isEmpty = true) : combine combinator a b = b := by
  cases hb : b.isEmpty with
  | false => rw [combine, hb, h, if_neg Bool.false_ne_true, if_pos rfl]
  | true =>
      obtain ⟨_⟩ := a
      obtain ⟨_⟩ := b
      rw [combine_of_isEmpty_right combinator _ hb]
      rw [isEmpty, List.isEmpty_iff] at h hb
      exact congrArg Criteria.mk (h.trans hb.symm)

theorem not_of_isEmpty (a : Criteria) {b : Criteria} (h : b.isEmpty = true) : a.not b = a := by
  rw [Criteria.not, h, if_pos rfl]

/-- Empty criteria hold of every document. -/
theorem eq_true_of_isEmpty {c : Criteria} {p : Predicate} {d : Document} {x : Bool}
    (hc : c.predicate = .ok p) (hempty : c.isEmpty = true) (hx : p.holds d = .ok x) : x = true := by
  obtain ⟨document⟩ := c
  rw [isEmpty, List.isEmpty_iff] at hempty
  subst hempty
  cases hc
  cases hx
  rfl

section Meaning

variable {a b : Criteria} {p q : Predicate} (ha : a.predicate = .ok p) (hb : b.predicate = .ok q)
include ha

/-- Criteria that were parsed hold where what they were parsed to holds. -/
theorem holds_eq (d : Document) : a.holds d = p.holds d := by
  rw [Criteria.holds, ha]
  rfl

include hb

/-- Both criteria together hold where each of them does. -/
theorem exists_predicate_and : ∃ both, (a.and b).predicate = .ok both ∧
    ∀ d x y, p.holds d = .ok x → q.holds d = .ok y → both.holds d = .ok (x && y) := by
  by_cases hmore : b.isEmpty = true
  · refine ⟨p, by rwa [Criteria.and, combine_of_isEmpty_right _ a hmore], ?_⟩
    intro d x y hx hy
    rw [eq_true_of_isEmpty hb hmore hy, Bool.and_true, hx]
  by_cases hsome : a.isEmpty = true
  · refine ⟨q, by rwa [Criteria.and, combine_of_isEmpty_left _ b hsome], ?_⟩
    intro d x y hx hy
    rw [eq_true_of_isEmpty ha hsome hx, Bool.true_and, hy]
  obtain ⟨first, hfirst, hboth⟩ := predicate_combine .and ha hb
    (Bool.eq_false_iff.mpr hsome) (Bool.eq_false_iff.mpr hmore)
  refine ⟨_, hboth, fun d x y hx hy => allHold_concat ?_ hy⟩
  rcases hfirst with rfl | rfl
  · rwa [allHold_singleton]
  · exact hx

/-- Either of two criteria holds where one of them does; one that matches everything by being empty
has no say. -/
theorem exists_predicate_or : ∃ either, (a.or b).predicate = .ok either ∧
    ∀ d x y, p.holds d = .ok x → q.holds d = .ok y →
      either.holds d = .ok (if a.isEmpty then y else if b.isEmpty then x else x || y) := by
  cases hsome : a.isEmpty with
  | true =>
      exact ⟨q, by rwa [Criteria.or, combine_of_isEmpty_left _ b hsome], fun d x y _ hy => hy⟩
  | false =>
      cases hmore : b.isEmpty with
      | true =>
          exact ⟨p, by rwa [Criteria.or, combine_of_isEmpty_right _ a hmore], fun d x y hx _ => hx⟩
      | false =>
          obtain ⟨first, hfirst, heither⟩ := predicate_combine .or ha hb hsome hmore
          refine ⟨_, heither, fun d x y hx hy => anyHolds_concat ?_ hy⟩
          rcases hfirst with rfl | rfl
          · rwa [anyHolds_singleton]
          · exact hx

/-- Criteria with an exclusion hold where they did and what is excluded does not. -/
theorem exists_predicate_not : ∃ without, (a.not b).predicate = .ok without ∧
    ∀ d x y, p.holds d = .ok x → q.holds d = .ok y →
      without.holds d = .ok (if b.isEmpty then x else x && !y) := by
  cases hmore : b.isEmpty with
  | true => exact ⟨p, by rwa [a.not_of_isEmpty hmore], fun d x y hx _ => hx⟩
  | false =>
      obtain ⟨clauses, hclauses, rfl⟩ := predicate_eq_ok.mp ha
      obtain ⟨more, hentries, hexcludes⟩ := parseEntries_put_nor hclauses hb
      refine ⟨gather more, ?_, ?_⟩
      · rw [a.not_eq hmore, predicate_eq_ok]
        exact ⟨more, hentries, rfl⟩
      · intro d x y hx hy
        rw [holds_gather] at hx ⊢
        exact hexcludes d x y hx hy

end Meaning

/-- Criteria that can be read can be read in every combination.  Where both can be evaluated so
can the combination, and it holds as its name says; an empty side drops out, except that nothing
is excluded by empty criteria. -/
theorem combinations_hold {a b : Criteria} {p q : Predicate} (ha : a.predicate = .ok p)
    (hb : b.predicate = .ok q) :
    (∃ r, (a.and b).predicate = .ok r) ∧
      (∃ r, (a.or b).predicate = .ok r) ∧
      (∃ r, (a.not b).predicate = .ok r) ∧
      (a.isEmpty = true → a.or b = b) ∧
      (b.isEmpty = true → a.or b = a ∧ a.not b = a) ∧
      ∀ d x y, a.holds d = .ok x → b.holds d = .ok y →
        (a.and b).holds d = .ok (x && y) ∧
        (a.or b).holds d = .ok (if a.isEmpty then y else if b.isEmpty then x else x || y) ∧
        (a.not b).holds d = .ok (if b.isEmpty then x else x && !y) := by
  obtain ⟨both, hboth, hand⟩ := exists_predicate_and ha hb
  obtain ⟨either, heither, hor⟩ := exists_predicate_or ha hb
  obtain ⟨without, hwithout, hnot⟩ := exists_predicate_not ha hb
  refine ⟨⟨both, hboth⟩, ⟨either, heither⟩, ⟨without, hwithout⟩,
    combine_of_isEmpty_left .or b,
    fun hmore => ⟨combine_of_isEmpty_right .or a hmore, a.not_of_isEmpty hmore⟩, ?_⟩
  intro d x y hx hy
  rw [holds_eq ha] at hx
  rw [holds_eq hb] at hy
  rw [holds_eq hboth, holds_eq heither, holds_eq hwithout]
  exact ⟨hand d x y hx hy, hor d x y hx hy, hnot d x y hx hy⟩

namespace CombinationExample

def drafts : Criteria :=
  ⟨[("state", .string "draft"), ("$nor", .array [.document [("size", .int32 1)]]),
    ("age", .document [("$gt", .int32 3), ("$lte", .int32 9)])]⟩

def tagged : Criteria :=
  ⟨[("$or", .array [.document [("tag", .string "a")],
    .document [("tag", .document [("$in", .array [.string "b", .string "c"])])]])]⟩

def note : Document :=
  [("state", .string "draft"), ("age", .int32 5), ("tag", .string "c")]

end CombinationExample

open CombinationExample in
theorem combinations_hold_of_tagged_draft :
    drafts.holds note = .ok true ∧ tagged.holds note = .ok true ∧
      (drafts.and tagged).holds note = .ok true ∧ (tagged.or drafts).holds note = .ok true ∧
      (drafts.not tagged).holds note = .ok false := by
  have hdrafts : drafts.holds note = .ok true := rfl
  have htagged : tagged.holds note = .ok true := rfl
  obtain ⟨-, -, -, -, -, hdraft⟩ := combinations_hold (a := drafts) (b := tagged) rfl rfl
  obtain ⟨hand, -, hnot⟩ := hdraft note true true hdrafts htagged
  obtain ⟨-, -, -, -, -, htag⟩ := combinations_hold (a := tagged) (b := drafts) rfl rfl
  obtain ⟨-, hor, -⟩ := htag note true true htagged hdrafts
  exact ⟨hdrafts, htagged, hand, hor, hnot⟩

end Criteria

end DocumentBase
