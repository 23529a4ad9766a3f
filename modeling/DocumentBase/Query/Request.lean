import DocumentBase.Stage

/-!
# Requests

What a query asks a collection to do: find documents, run a pipeline, or count.
-/

namespace DocumentBase

/-- Documents that meet criteria, sorted, and a stretch of them. -/
structure FindRequest where
  criteria : Criteria
  sort : SortSpec
  skip : Nat
  limit : Nat
deriving Repr

inductive Request where
  | find (request : FindRequest)
  | aggregate (pipeline : Pipeline)
deriving Repr

/-- A request as a document; equal requests have equal documents. -/
def Request.render : Request → Document
  | .find request =>
    [("find", .document
      [("filter", .document request.criteria.document),
        ("sort", .document request.sort.render),
        ("skip", wideInteger request.skip),
        ("limit", wideInteger request.limit)])]
  | .aggregate pipeline =>
    [("aggregate", .array (pipeline.render.map Value.document))]

/-- How the number of rows of a query is found. -/
inductive CountRequest where
  | documents (criteria : Criteria)
  /-- A pipeline whose only row holds the number. -/
  | pipeline (pipeline : Pipeline)
deriving Repr

end DocumentBase
