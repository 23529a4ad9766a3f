import DocumentBase.Proofs.Filter.Building
import DocumentBase.Proofs.Query.Calls

/-!
# Calls that fail

A query records errors in two places: those of calls on its filter in the filter, and all others
beside it.  Each place keeps the first error that comes there.  Building a query looks at its own
place first, then at its targets, and last at the filter.  So of all failures the earliest is told,
unless it is one of the filter and a failure of another kind comes later, or both targets are set.
-/

namespace DocumentBase

theorem Filter.error_call (f : Filter) (c : Filter.Call) :
    (f.call c).error = f.error.or (({ f with error := none } : Filter).call c).error := by
  cases hf : f.error with
  | none =>
      have hsame : ({ f with error := none } : Filter) = f := by
        obtain ⟨criteria, applied, error⟩ := f
        cases hf
        rfl
      rw [hsame]
      rfl
  | some e => rw [call_of_error (Option.isSome_of_eq_some hf), hf, Option.some_or]

namespace Query

/-- A query with the same parts, in which no call has failed. -/
def withoutErrors (q : Query) : Query :=
  { q with error := none, filter := { q.filter with error := none } }

/-- The error that a call records where no call has failed. -/
def raised? (q : Query) (c : Call) : Option Error :=
  (q.withoutErrors.call c).error.or (q.withoutErrors.call c).filter.error

/-- The calls that fail, each with its error. -/
def failures (q : Query) : List Call → List (Call × Error)
  | [] => []
  | c :: rest => ((q.raised? c).map fun e => (c, e)).toList ++ (q.call c).failures rest

/-! ### One call -/

theorem error_fail (q : Query) (e : Error) : (q.fail e).error = q.error.or (some e) := by
  rw [fail]
  cases hq : q.error with
  | none => rfl
  | some _ => exact hq

/-- Two queries that differ in their errors record the same error of a step. -/
theorem error_orFail {α : Type} {q r : Query} {step : Outcome α} {next other : α → Query}
    (hr : r.error = none) (hnext : ∀ v, (next v).error = q.error)
    (hother : ∀ v, (other v).error = r.error) :
    (q.orFail step next).error = q.error.or (r.orFail step other).error := by
  cases step with
  | ok v => exact (hnext v).trans (by rw [orFail, hother, hr, Option.or_none])
  | error e => rw [orFail, orFail, error_fail, error_fail, hr, Option.none_or]

theorem error_selectFields {q r : Query} (hr : r.error = none) (names : List String) :
    (q.selectFields names).error = q.error.or (r.selectFields names).error := by
  induction names generalizing q r with
  | nil => rw [selectFields, selectFields, hr, Option.or_none]
  | cons name rest ih =>
      rw [selectFields, selectFields]
      cases checkField name with
      | error e => rw [error_fail, error_fail, hr, Option.none_or]
      | ok =>
          have hkept (s : Query) : (if s.fields.contains name then s
              else { s with fields := s.fields ++ [name] }).error = s.error := by
            split <;> rfl
          exact (ih ((hkept r).trans hr)).trans (by rw [hkept])

/-- A call that is not one on the filter records its error beside the filter. -/
theorem error_call_of_ne_filter (q : Query) {c : Call} (hc : c.category ≠ .filter) :
    (q.call c).error = q.error.or (q.withoutErrors.call c).error := by
  cases c with
  | narrow _ => exact absurd rfl hc
  | skip _ | count | out _ | mergeInto _ | stage _ => exact (Option.or_none).symm
  | attach _ | having _ => exact error_orFail rfl (fun _ => rfl) fun _ => rfl
  | order field direction =>
      refine error_orFail rfl (fun _ => ?_) fun _ => ?_
      · split <;> rfl
      · split <;> rfl
  | select fields => exact error_selectFields rfl fields
  | limit n =>
      rw [call, call]
      split
      · rw [error_fail, error_fail]
        rfl
      · exact (Option.or_none).symm
  | groupBy _ | calculate _ _ _ => exact error_orFail rfl (fun _ => rfl) fun _ => rfl

theorem filter_call_of_ne_filter (q : Query) {c : Call} (hc : c.category ≠ .filter) :
    (q.call c).filter = q.filter := by
  have hpart : ({ empty with filter := (q.call c).filter } : Query) =
      { empty with filter := q.filter } := q.part_call_of_ne hc
  exact (Query.mk.inj hpart).1

/-- The error of a call that is not about the filter is the one it would record in a query without
errors. -/
theorem raised?_of_ne_filter (q : Query) {c : Call} (hc : c.category ≠ .filter) :
    q.raised? c = (q.withoutErrors.call c).error := by
  rw [raised?, filter_call_of_ne_filter _ hc]
  exact Option.or_none

/-- A call about the filter records its error in the filter, and there the first one stays. -/
theorem error_call_of_filter (q : Query) {c : Call} (hc : c.category = .filter) :
    (q.call c).error = q.error ∧
      (q.call c).filter.error = q.filter.error.or (q.raised? c) := by
  cases c with
  | narrow call => exact ⟨rfl, q.filter.error_call call⟩
  | _ => cases hc

/-! ### All calls -/

/-- Each place keeps the first error that comes there. -/
theorem error_calls (q : Query) (made : List Call) :
    (q.calls made).error = q.error.or
        (((q.failures made).find? (·.1.category ≠ .filter)).map Prod.snd) ∧
      (q.calls made).filter.error = q.filter.error.or
        (((q.failures made).find? (·.1.category = .filter)).map Prod.snd) := by
  induction made generalizing q with
  | nil => exact ⟨(Option.or_none).symm, (Option.or_none).symm⟩
  | cons c rest ih =>
      obtain ⟨hown, hfilter⟩ := ih (q.call c)
      have hcalls : q.calls (c :: rest) = (q.call c).calls rest := rfl
      rw [hcalls, hown, hfilter, failures, List.find?_append, List.find?_append]
      by_cases hc : c.category = .filter
      · obtain ⟨hsame, hraised⟩ := q.error_call_of_filter hc
        rw [hsame, hraised]
        cases q.raised? c <;> simp [hc]
      · rw [error_call_of_ne_filter q hc, ← raised?_of_ne_filter q hc,
          filter_call_of_ne_filter q hc]
        cases q.raised? c <;> simp [hc]

theorem build_of_error {q : Query} {e : Error} (h : q.error = some e) : q.build = .error e := by
  rw [build, h]
  rfl

/-- The error of a filter comes out when the builder recorded none, unless the query has two
targets. -/
theorem build_of_filter_error {q : Query} {e : Error} (h : q.error = none)
    (hfilter : q.filter.build = .error e) :
    q.build = .error (if q.out.isSome && q.merge.isSome then .validation .twoTargets else e) := by
  rw [build, h, hfilter]
  cases q.out.isSome && q.merge.isSome <;> rfl

/-- The earliest failure is told, unless it is one of the filter and something else comes before
the filter. -/
theorem build_of_failures {filter : Filter} (hfilter : filter.error = none) {made : List Call}
    {c : Call} {e : Error} {others : List (Call × Error)}
    (hmade : (ofFilter filter).failures made = (c, e) :: others) :
    let q := (ofFilter filter).calls made
    (c.category ≠ .filter → q.build = .error e) ∧
      (c.category = .filter → q.build = .error
        (match others.find? (·.1.category ≠ .filter) with
        | some later => later.2
        | none => if q.out.isSome && q.merge.isSome then .validation .twoTargets else e)) := by
  intro q
  obtain ⟨hown, hnarrow⟩ := (ofFilter filter).error_calls made
  rw [hmade] at hown hnarrow
  have hfirst : (ofFilter filter).filter.error = none := hfilter
  constructor
  · intro hc
    have herror : q.error = some e := by
      rw [hown, List.find?_cons_of_pos (by simpa using hc)]
      rfl
    exact build_of_error herror
  · intro hc
    have hbuild : q.filter.build = .error e := by
      rw [Filter.build, hnarrow, hfirst, List.find?_cons_of_pos (by simpa using hc)]
      rfl
    have herror : q.error = (others.find? (·.1.category ≠ .filter)).map Prod.snd := by
      rw [hown, List.find?_cons_of_neg (by simpa using hc)]
      rfl
    cases hlater : others.find? (·.1.category ≠ .filter) with
    | some later =>
        rw [hlater] at herror
        exact build_of_error herror
    | none =>
        rw [hlater] at herror
        exact build_of_filter_error herror hbuild

namespace FailuresExample

/-- A limit that is not allowed, before a field that is not. -/
def unlimited : List Call :=
  [.order "age" .descending, .limit 0, .narrow (.compare .eq "$x" (.int32 1)), .groupBy []]

end FailuresExample

open FailuresExample in
theorem build_of_failures_of_unlimited :
    (empty.calls unlimited).build = .error (.validation .zeroLimit) := by
  have hmade : (ofFilter .empty).failures unlimited =
      [(.limit 0, .validation .zeroLimit),
        (.narrow (.compare .eq "$x" (.int32 1)), .validation (.forbiddenField "$x")),
        (.groupBy [], .validation .noGroupFields)] := rfl
  exact (build_of_failures rfl hmade).1 (by decide)

/-- An error of the filter is passed over for a later one of another kind, and for two targets. -/
theorem build_ne_first_failure :
    let narrow : Call := .narrow (.compare .eq "$x" (.int32 1))
    (empty.failures [narrow, .limit 0]).head? =
        some (narrow, .validation (.forbiddenField "$x")) ∧
      (empty.calls [narrow, .limit 0]).build = .error (.validation .zeroLimit) ∧
      empty.failures [narrow, .out "a", .mergeInto "b"] =
        [(narrow, .validation (.forbiddenField "$x"))] ∧
      (empty.calls [narrow, .out "a", .mergeInto "b"]).build = .error (.validation .twoTargets) :=
  ⟨rfl, rfl, rfl, rfl⟩

end Query

end DocumentBase
