import DocumentBase.Proofs.Join
import DocumentBase.Proofs.Sorting.Lexicographic
import DocumentBase.Proofs.Update.Protection

/-!
# Documents that a join attaches

A join stores at its output the first documents, in its own order, that the references of a row
ask for; of the other fields none changes but the one in which the output lies.  An unwound row
has one of these documents in the place of all of them.  If there is none then the output is taken
out.  The output may be the field of the references, or lie above or below it.
-/

namespace DocumentBase

open Document

namespace Join

/-- A row asks for a value that is the same as the value at the field of the join or, if that is
an array, as one of its items. -/
inductive Refers (j : Join) (row : Document) (v : Value) : Prop
  | single {reference : Value} (hfield : row.at? j.field = some reference)
      (hitems : reference.items? = none) (hsame : v.same reference = true)
  | item {items : List Value} {reference : Value} (hfield : row.at? j.field = some (.array items))
      (hmem : reference ∈ items) (hsame : v.same reference = true)

/-- A row asks for one of the values reached at the foreign field of a document. -/
def Matches (j : Join) (row target : Document) : Prop :=
  ∃ v ∈ target.reachAt j.foreign, j.Refers row v

variable {j : Join} {row : Document}

theorem eq_array_of_items? {v : Value} {items : List Value} (h : v.items? = some items) :
    v = .array items := by
  cases v <;> simp_all [Value.items?]

/-- What a row refers to is compared with values as they are. -/
theorem refers_iff {v : Value} :
    j.Refers row v ↔ ∃ reference ∈ j.references row, v.same reference = true := by
  constructor
  · intro h
    cases h with
    | single hfield hitems hsame =>
        refine ⟨_, ?_, hsame⟩
        rw [references_eq, hfield, Option.map_some, hitems]
        exact List.mem_singleton_self _
    | item hfield hmem hsame =>
        refine ⟨_, ?_, hsame⟩
        rw [references, hfield]
        exact hmem
  · rintro ⟨reference, hmem, hsame⟩
    rw [references_eq] at hmem
    cases hfield : row.at? j.field with
    | none => simp [hfield] at hmem
    | some found =>
        rw [hfield, Option.map_some, Option.getD_some] at hmem
        cases hitems : found.items? with
        | none =>
            rw [hitems, Option.getD_none, List.mem_singleton] at hmem
            subst hmem
            exact .single hfield hitems hsame
        | some items =>
            rw [hitems, Option.getD_some] at hmem
            exact .item (hfield.trans (congrArg some (eq_array_of_items? hitems))) hmem hsame

/-- A document is accepted if and only if one of the references matches one of its values. -/
theorem accepts_iff {target : Document} :
    j.accepts (j.references row) target = true ↔ j.Matches row target := by
  simp only [accepts, List.any_eq_true, Matches, refers_iff]

instance (j : Join) (row target : Document) : Decidable (j.Matches row target) :=
  decidable_of_iff _ accepts_iff

/-- What a join makes of a row. -/
structure Attaches (j : Join) (targets : List Document) (row joined : Document)
    (attached : List Document) : Prop where
  /-- The matching documents in the order of the join, as many as it allows. -/
  first : ∃ sorted, j.sort.Arranges (targets.filter fun target => j.Matches row target) sorted ∧
    attached = sorted.take j.limit
  missing : row.at? j.field = none → attached = []
  output : joined.at? j.output = some (.array (attached.map .document))
  others : ∀ key, key ≠ Path.headOf j.output → joined.value? key = row.value? key

/-- The documents attached are the first of those that match, in the order that the join asks for.
-/
theorem attached_eq (targets : List Document) :
    j.attached targets row =
      (j.sort.sort (targets.filter fun target => j.Matches row target)).take j.limit := by
  have haccepts : j.accepts (j.references row) = fun target => decide (j.Matches row target) := by
    funext target
    rw [Bool.eq_iff_iff, decide_eq_true_iff, accepts_iff]
  rw [attached, haccepts]

theorem not_matches_of_missing (h : row.at? j.field = none) (target : Document) :
    ¬ j.Matches row target := by
  rintro ⟨v, -, hrefers⟩
  rcases hrefers with ⟨hfield, -, -⟩ | ⟨hfield, -, -⟩
  · cases h.symm.trans hfield
  · cases h.symm.trans hfield

/-- What a join makes of a row holds the matching documents, and nothing else changes. -/
theorem attaches_run {targets : List Document} (h : ∀ target ∈ targets, j.sort.Comparable target) :
    j.Attaches targets row (j.run targets row) (j.attached targets row) where
  first := by
    refine ⟨_, SortSpec.arranges_sort fun d hd => ?_, attached_eq targets⟩
    exact h d (List.mem_of_mem_filter hd)
  missing := by
    intro hmissing
    have hnone : targets.filter (fun target => j.Matches row target) = [] :=
      List.filter_eq_nil_iff.mpr fun target _ =>
        by simpa using not_matches_of_missing hmissing target
    rw [attached_eq, hnone]
    exact List.take_nil
  output := get?_set_self _ (Path.ofString_ne_nil j.output) row
  others := fun _ hkey => value?_setAt_of_headOf_ne hkey.symm row _

/-! ### Unwinding -/

/-- What becomes of a row with attached documents when they are unwound. -/
structure Unwinds (j : Join) (joined : Document) (attached unwound : List Document) : Prop where
  /-- There is a row for each document, in their order.  It has the document at the output and
  would be the row again if it had them all there. -/
  each : attached ≠ [] → List.Forall₂ (fun d r => r.at? j.output = some (.document d) ∧
    r.setAt j.output (.array (attached.map .document)) = joined) attached unwound
  /-- Nothing but the output is missing from a row for which there is no document. -/
  none : attached = [] → unwound = [joined.removeAt j.output] ∧
    (joined.removeAt j.output).at? j.output = none ∧
    ∀ path, ApartPaths j.output path → (joined.removeAt j.output).at? path = joined.at? path

/-- A joined row is unwound into one row for each of its documents, or stays without an output. -/
theorem unwinds_unwindRow {joined : Document} {attached : List Document}
    (h : joined.at? j.output = some (.array (attached.map .document))) :
    j.Unwinds joined attached (unwindRow j.output joined) where
  each := by
    intro hsome
    have hrows : unwindRow j.output joined =
        attached.map fun d => joined.setAt j.output (.document d) := by
      rw [unwindRow_eq, h]
      cases attached with
      | nil => exact absurd rfl hsome
      | cons d rest => simp [Value.items?]
    rw [hrows, List.forall₂_map_right_iff, List.forall₂_same]
    intro d _
    refine ⟨get?_set_self _ (Path.ofString_ne_nil j.output) joined, ?_⟩
    exact (set_set_self _ _ _ _).trans (set_of_get? h)
  none := by
    rintro rfl
    refine ⟨?_, get?_remove_self _ joined, fun path hpath => get?_remove_of_apart hpath joined⟩
    rw [unwindRow_eq, h]
    rfl

/-- What the stages of a join make of rows, each of them on its own. -/
theorem attaches_and_unwinds (j : Join) (c : Collections)
    (h : ∀ target ∈ c.rows j.collection, j.sort.Comparable target) (rows : List Document) :
    ∃ (joined : Document → Document) (unwound : Document → List Document),
      Pipeline.run c [.lookup j] rows = .ok (rows.map joined) ∧
      Pipeline.run c [.lookup j, .unwind j.output] rows = .ok (rows.flatMap unwound) ∧
      ∀ row, ∃ attached, j.Attaches (c.rows j.collection) row (joined row) attached ∧
        j.Unwinds (joined row) attached (unwound row) := by
  refine ⟨j.run (c.rows j.collection),
    fun row => unwindRow j.output (j.run (c.rows j.collection) row), rfl, ?_, fun row => ?_⟩
  · exact congrArg Except.ok (List.flatMap_map _ _ rows)
  · exact ⟨_, attaches_run h, unwinds_unwindRow (attaches_run h).output⟩

/-! ### The authors of a post -/

namespace AttachmentExample

/-- The authors of a post by their names, in place of their identities, and two at most. -/
def authors : Join :=
  { on "by.ids" "people" with
    foreign := "accounts.id"
    limit := 2
    sort := SortSpec.empty.push "name" .descending }

def person (name : String) (ids : List Int32) : Document :=
  [("name", .string name),
    ("accounts", .array (ids.map fun id => .document [("id", .int32 id)]))]

def people : Collections :=
  [("people", [person "ann" [1], person "bob" [2, 4], person "cid" [3], person "dan" [4]])]

/-- A post with its authors. -/
def postWith (authors : Value) : Document :=
  [("_id", .int32 1), ("by", .document [("ids", authors), ("n", .null)])]

def post : Document :=
  postWith (.array [.int64 2, .int64 4])

def others : List Document :=
  [[("_id", .int32 2), ("by", .document [("ids", .int32 3)])],
    [("_id", .int32 3), ("by", .string "eve")]]

def found : List Document :=
  [person "dan" [4], person "bob" [2, 4]]

theorem comparable {target : Document} (htarget : target ∈ people.rows "people") :
    authors.sort.Comparable target := by
  have hall : ∀ d ∈ people.rows "people", ∀ key ∈ authors.sort.keys,
      (SortSpec.sortValue d key.1).isNaN = false := by
    decide +kernel
  exact hall target htarget

end AttachmentExample

open AttachmentExample in
theorem attaches_and_unwinds_authors :
    authors.validate = .ok () ∧
      Pipeline.run people [.lookup authors, .unwind "by.ids"] (post :: others) = .ok
        [postWith (.document (person "dan" [4])), postWith (.document (person "bob" [2, 4])),
          [("_id", .int32 2), ("by", .document [("ids", .document (person "cid" [3]))])],
          [("_id", .int32 3), ("by", .document [])]] ∧
      ∃ joined unwound, Pipeline.run people [.lookup authors] [post] = .ok [joined] ∧
        Pipeline.run people [.lookup authors, .unwind "by.ids"] [post] = .ok unwound ∧
        authors.Attaches (people.rows "people") post joined found ∧
        authors.Unwinds joined found unwound := by
  obtain ⟨joined, unwound, hlookup, hunwind, hrows⟩ :=
    attaches_and_unwinds authors people (fun _ => comparable) [post]
  obtain ⟨attached, hattaches, hunwinds⟩ := hrows post
  have hjoined : Pipeline.run people [.lookup authors] [post] =
      .ok [postWith (.array (found.map .document))] := rfl
  have hpost : joined post = postWith (.array (found.map .document)) :=
    List.singleton_inj.mp (Except.ok.inj (hlookup.symm.trans hjoined))
  obtain rfl : attached = found := by
    have houtput : (joined post).at? authors.output = some (.array (found.map .document)) := by
      rw [hpost]
      rfl
    have hdocuments := Value.array.inj (Option.some.inj (hattaches.output.symm.trans houtput))
    exact List.map_injective_iff.mpr (fun _ _ => Value.document.inj) hdocuments
  have hrow : [post].flatMap unwound = unwound post := List.flatMap_singleton unwound post
  exact ⟨rfl, rfl, joined post, unwound post, hlookup, hrow ▸ hunwind, hattaches, hunwinds⟩

end Join

end DocumentBase
