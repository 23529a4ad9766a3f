import DocumentBase.Proofs.Query.Paging

/-!
# Two ways to the same documents

A query that needs no pipeline may be run as one all the same.  The find request puts the
condition on the owner and the criteria of the query into one conjunction, while the pipeline has
a stage for each.  They select the same documents, and fail on the same ones: the conjunction does
not look at the criteria where the owner is another one, and no other document reaches the second
stage.
-/

namespace DocumentBase

namespace QuerySpec

variable {q : QuerySpec}

/-- The pipeline for a page of a simple query, whether its criteria can be evaluated or not. -/
theorem run_page (hq : q.IsSimple) (c : Collections) (page : Page) (owner : Option String)
    (documents : List Document) :
    Pipeline.run c (q.rowStages owner ++ (skipping page ++ [.limit page.size])) documents =
      ((q.ownedCriteria owner).select documents).map fun matched => q.pageRows matched page := by
  rw [Pipeline.run_append, run_rowStages_eq hq]
  cases (q.ownedCriteria owner).select documents with
  | error e => rfl
  | ok matched => exact run_skipping c page _

end QuerySpec

namespace Collections

open QuerySpec

/-- For every page and every owner, a find request and a forced pipeline give the same documents
in the same order, or the same error. -/
theorem aggregate_eq_find {c : Collections} {name : String} {q : QuerySpec}
    (hexists : (c.rows? name).isSome = true) (hq : q.requiresPipeline = false) (page : Page)
    (owner : Option String) :
    ∃ request pipeline, q.compile page owner false = .ok (.find request) ∧
      q.compile page owner true = .ok (.aggregate pipeline) ∧
      c.aggregate name pipeline = (c.find name request).map fun rows => (rows, c) := by
  have hsimple := isSimple_of_requiresPipeline_eq_false hq
  have hfind : q.compile page owner false = _ := compile_of_isSimple hsimple page false
  have hforced : q.compile page owner true = _ := compile_of_isSimple hsimple page true
  rw [hq] at hfind
  refine ⟨_, _, hfind, hforced, ?_⟩
  have hsink := isReadOnly_of_compile hsimple.toIsPlain hforced
  obtain ⟨documents, hrows⟩ := Option.isSome_iff_exists.mp hexists
  rw [aggregate, hsink, run_page hsimple, find, rows, hrows, Option.getD_some]
  simp only
  cases (q.ownedCriteria owner).select documents with
  | error e => rfl
  | ok matched =>
      rw [Except.map, pageRows, rowsOf_of_requiresPipeline_eq_false hq]
      rfl

/-! ### A condition that fails on somebody else's notes -/

namespace AgreementExample

def note (title owner : String) : Document :=
  [("title", .string title), (Item.ownerField, .string owner)]

def notes : Collections :=
  [("notes", [note "a" "ann", note "b" "bob", note "c" "bob"])]

/-- The first alternative decides for `b`; elsewhere the second one needs a list. -/
def query : QuerySpec :=
  (Query.empty.calls [.order "title" .descending]).spec
    ⟨[("$or", .array
      [.document [("title", .string "b")], .document [("title", .document [("$in", .null)])]])]⟩

end AgreementExample

open AgreementExample in
theorem aggregate_eq_find_of_failing_condition :
    (∃ request pipeline, query.compile (.of 1 2 0) (some "ann") false = .ok (.find request) ∧
      query.compile (.of 1 2 0) (some "ann") true = .ok (.aggregate pipeline) ∧
      notes.aggregate "notes" pipeline =
        (notes.find "notes" request).map fun rows => (rows, notes)) ∧
    (query.ownedCriteria (some "ann")).select (notes.rows "notes") =
      .error (.validation (.operandNotArray "In" "title")) :=
  ⟨aggregate_eq_find rfl rfl (.of 1 2 0) (some "ann"), rfl⟩

end Collections

end DocumentBase
