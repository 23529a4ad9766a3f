import DocumentBase.Pipeline.Execution
import DocumentBase.Proofs.Value.Path

/-!
# Projections

A projection copies values from a row, field by field, and later fields may lie inside earlier
ones or around them.  Two facts hold all the way: nothing is there that the row lacks, and what
was copied once stays as it is in the row.
-/

namespace DocumentBase

namespace Document

/-- Where the row has nothing there is nothing in the other document either. -/
def Within (row kept : Document) : Prop :=
  ∀ q, get? q row = none → get? q kept = none

/-- Documents that agree at a path agree at every longer one. -/
theorem get?_congr_below {a b : Document} {p q : Path} (hp : p ≠ []) (h : get? p a = get? p b)
    (hpq : p <+: q) : get? q a = get? q b := by
  obtain ⟨t, rfl⟩ := hpq
  by_cases ht : t = []
  · rwa [ht, List.append_nil]
  · rw [get?_append hp ht, get?_append hp ht, h]

theorem get?_eq_of_value? {k : String} {a b : Document} (h : a.value? k = b.value? k)
    (rest : Path) : get? (k :: rest) a = get? (k :: rest) b :=
  get?_congr_below (List.cons_ne_nil k []) h ⟨rest, rfl⟩

/-- Inside a value that is copied from a row, anything is read as in the row. -/
theorem get?_set_below {row : Document} {p q : Path} {v : Value} (hpq : p <+: q) (hp : p ≠ [])
    (hv : get? p row = some v) (kept : Document) : get? q (set v p kept) = get? q row :=
  get?_congr_below hp ((get?_set_self v hp kept).trans hv.symm) hpq

theorem Within.set {row kept : Document} (h : Within row kept) {p : Path} {v : Value}
    (hv : get? p row = some v) : Within row (set v p kept) := by
  intro q hq
  have hp : p ≠ [] := by
    rintro rfl
    simp [get?] at hv
  by_cases hpq : p <+: q
  · rw [get?_set_below hpq hp hv, hq]
  · by_cases hqp : q <+: p
    · obtain ⟨t, rfl⟩ := hqp
      by_cases hnil : q = []
      · subst hnil
        rfl
      · -- the row has something inside what it lacks
        have ht : t ≠ [] := by
          rintro rfl
          exact hpq (by simp)
        rw [get?_append hnil ht, hq] at hv
        cases hv
    · rw [get?_set_of_apart v ⟨hpq, hqp⟩]
      exact h q hq

theorem get?_set_eq_row {row kept : Document} {p q : Path} {v : Value}
    (hv : get? p row = some v) (hq : get? q kept = get? q row) :
    get? q (set v p kept) = get? q row := by
  have hp : p ≠ [] := by
    rintro rfl
    simp [get?] at hv
  by_cases hpq : p <+: q
  · exact get?_set_below hpq hp hv kept
  · by_cases hqp : q <+: p
    · obtain ⟨t, rfl⟩ := hqp
      by_cases hnil : q = []
      · subst hnil
        rfl
      · -- what is copied lies inside what was copied before
        have ht : t ≠ [] := by
          rintro rfl
          exact hpq (by simp)
        have hthere : get? (q ++ t) kept = some v := by
          rw [get?_append hnil ht, hq, ← get?_append hnil ht, hv]
        rw [set_of_get? hthere, hq]
    · rw [get?_set_of_apart v ⟨hpq, hqp⟩, hq]

/-- What is not a document stands at one of some paths, or inside what stands there. -/
def Covered (paths : List Path) (kept : Document) : Prop :=
  ∀ q v, get? q kept = some v → v.fields? = none → ∃ p ∈ paths, p <+: q

theorem covered_nil (paths : List Path) : Covered paths [] := by
  intro q v hq
  rw [get?_of_nil] at hq
  cases hq

/-- Storing makes documents on the way to a path, and puts nothing else outside of it. -/
theorem Covered.set {paths : List Path} {kept : Document} (h : Covered paths kept) {p : Path}
    (hmem : p ∈ paths) (hp : p ≠ []) (v : Value) : Covered paths (set v p kept) := by
  intro q w hq hw
  by_cases hpq : p <+: q
  · exact ⟨p, hmem, hpq⟩
  by_cases hqp : q <+: p
  · obtain ⟨t, rfl⟩ := hqp
    have hnil : q ≠ [] := by
      rintro rfl
      cases hq
    have ht : t ≠ [] := by
      rintro rfl
      exact hpq (by simp)
    -- something is stored below, so what stands here is a document
    have hbelow := get?_set_self v hp kept
    rw [get?_append hnil ht, hq] at hbelow
    simp [hw] at hbelow
  · rw [get?_set_of_apart v ⟨hpq, hqp⟩] at hq
    exact h q w hq hw

end Document

namespace Projection

open Document

def copyField (row kept : Document) (field : String) : Document :=
  match row.at? field with
  | some v => kept.setAt field v
  | none => kept

theorem run_keep (fields : List String) (row : Document) :
    (keep fields).run row = fields.foldl (copyField row) (startRow fields row) := rfl

theorem within_startRow (fields : List String) (row : Document) :
    Within row (startRow fields row) := by
  intro q hq
  unfold startRow
  split
  · exact get?_of_nil q
  · cases hid : row.value? Item.idField with
    | none => exact get?_of_nil q
    | some id =>
        cases q with
        | nil => rfl
        | cons k rest =>
            by_cases hk : k = Item.idField
            · subst hk
              rw [← hq]
              exact get?_eq_of_value? (by simp [value?_cons, hid]) rest
            · have hnone : Document.value? [(Item.idField, id)] k = none := by
                simp [value?_cons, Ne.symm hk]
              rw [get?_eq_of_value? (b := []) hnone rest, get?_of_nil]

/-- Copying a field of the row leaves the kept document inside the row. -/
theorem within_copyField {row kept : Document} (h : Within row kept) (field : String) :
    Within row (copyField row kept field) := by
  unfold copyField
  cases hv : row.at? field with
  | none => exact h
  | some v => exact h.set hv

/-- A copied field has the value that it has in the row. -/
theorem at?_copyField_self {row kept : Document} (h : Within row kept) (field : String) :
    (copyField row kept field).at? field = row.at? field := by
  unfold copyField
  cases hv : row.at? field with
  | none => exact h _ hv
  | some v => exact get?_set_self v (Path.ofString_ne_nil field) kept

/-- A field that is kept as in the row stays so when another one is copied over it. -/
theorem at?_copyField {row kept : Document} {field : String} (other : String)
    (h : kept.at? field = row.at? field) :
    (copyField row kept other).at? field = row.at? field := by
  unfold copyField
  cases hv : row.at? other with
  | none => exact h
  | some v => exact get?_set_eq_row hv h

theorem at?_foldl_copyField {row kept : Document} {field : String} (fields : List String)
    (h : kept.at? field = row.at? field) :
    (fields.foldl (copyField row) kept).at? field = row.at? field := by
  induction fields generalizing kept with
  | nil => exact h
  | cons other rest ih => exact ih (at?_copyField other h)

/-- What is asked for is in the projection as it is in the row. -/
theorem at?_keep {fields : List String} {field : String} (hfield : field ∈ fields)
    (row : Document) : ((keep fields).run row).at? field = row.at? field := by
  rw [run_keep]
  have hwithin := within_startRow fields row
  generalize startRow fields row = kept at hwithin
  induction fields generalizing kept with
  | nil => cases hfield
  | cons other rest ih =>
      rw [List.foldl_cons]
      rcases List.mem_cons.mp hfield with rfl | hrest
      · exact at?_foldl_copyField rest (at?_copyField_self hwithin field)
      · exact ih hrest _ (within_copyField hwithin other)

/-! ### All that is kept -/

theorem at?_idField (d : Document) : d.at? Item.idField = d.value? Item.idField := by
  rw [at?, Path.ofString_of_no_dot (by decide)]
  rfl

theorem value?_startRow {fields : List String} (h : Item.idField ∉ fields) (row : Document) :
    (startRow fields row).value? Item.idField = row.value? Item.idField := by
  rw [startRow, if_neg (by simpa using h)]
  cases row.value? Item.idField with
  | none => rfl
  | some id => simp [value?_cons]

theorem value?_idField_keep (fields : List String) (row : Document) :
    ((keep fields).run row).value? Item.idField = row.value? Item.idField := by
  rw [← at?_idField, ← at?_idField]
  by_cases hlisted : Item.idField ∈ fields
  · exact at?_keep hlisted row
  · rw [run_keep]
    refine at?_foldl_copyField fields ?_
    rw [at?_idField, at?_idField, value?_startRow hlisted]

/-- The paths of the fields that are asked for, and of the identity. -/
def keptPaths (fields : List String) : List Path :=
  [Item.idField] :: fields.map Path.ofString

theorem covered_startRow (fields : List String) (row : Document) :
    Covered (keptPaths fields) (startRow fields row) := by
  rw [startRow]
  split
  · exact covered_nil _
  · cases row.value? Item.idField with
    | none => exact covered_nil _
    | some id => exact (covered_nil _).set List.mem_cons_self (List.cons_ne_nil _ _) id

theorem covered_copyField {paths : List Path} {kept : Document} (h : Covered paths kept)
    {field : String} (hmem : Path.ofString field ∈ paths) (row : Document) :
    Covered paths (copyField row kept field) := by
  unfold copyField
  cases row.at? field with
  | none => exact h
  | some v => exact h.set hmem (Path.ofString_ne_nil field) v

/-- Nothing is kept but what lies on the path of a listed field or of the identity. -/
theorem covered_keep (fields : List String) (row : Document) :
    Covered (keptPaths fields) ((keep fields).run row) := by
  rw [run_keep]
  refine List.foldlRecOn fields _ (covered_startRow fields row) fun kept hkept field hfield => ?_
  exact covered_copyField hkept (List.mem_cons_of_mem _ (List.mem_map_of_mem hfield)) row

/-- A projection looks at the fields that are asked for and at the identity, and at nothing
else. -/
theorem run_keep_congr {fields : List String} {a b : Document}
    (hid : a.value? Item.idField = b.value? Item.idField)
    (h : ∀ field ∈ fields, a.at? field = b.at? field) :
    (keep fields).run a = (keep fields).run b := by
  have hstart : startRow fields a = startRow fields b := by
    rw [startRow, startRow, hid]
  rw [run_keep, run_keep, hstart]
  refine List.foldl_ext _ _ _ fun kept field hfield => ?_
  rw [copyField, copyField, h field hfield]

/-- A projection has what is asked for and the identity, as the row has them, in whatever order
and however often the fields are given and whether or not they lie inside one another.  All else
that it has, documents apart, it has from these.  Projecting it once more changes nothing. -/
theorem keep_exact (fields : List String) (row : Document) :
    (∀ field ∈ fields, ((keep fields).run row).at? field = row.at? field) ∧
    ((keep fields).run row).value? Item.idField = row.value? Item.idField ∧
    (∀ q v, get? q ((keep fields).run row) = some v → v.fields? = none →
      get? q row = some v ∧
      ([Item.idField] <+: q ∨ ∃ field ∈ fields, Path.ofString field <+: q)) ∧
    (keep fields).run ((keep fields).run row) = (keep fields).run row := by
  have hlisted : ∀ field ∈ fields, ((keep fields).run row).at? field = row.at? field :=
    fun field hfield => at?_keep hfield row
  have hid := value?_idField_keep fields row
  refine ⟨hlisted, hid, fun q v hq hv => ?_, run_keep_congr hid hlisted⟩
  obtain ⟨p, hp, hpq⟩ := covered_keep fields row q v hq hv
  rcases List.mem_cons.mp hp with rfl | hp
  · rw [← hq]
    exact ⟨(get?_congr_below (p := [Item.idField]) (List.cons_ne_nil _ _) hid hpq).symm, .inl hpq⟩
  · obtain ⟨field, hfield, rfl⟩ := List.mem_map.mp hp
    rw [← hq]
    exact ⟨(get?_congr_below (Path.ofString_ne_nil field) (hlisted field hfield) hpq).symm,
      .inr ⟨field, hfield, hpq⟩⟩

namespace KeepExample

def parcel : Document :=
  [("_id", .document [("shelf", .int32 4), ("box", .int32 1)]), ("note", .null),
    ("to", .document [("town", .string "Ulm"), ("name", .string "ann")])]

def asked : List String :=
  ["to.name", "to", "_id.box", "to.name", "to.name.first"]

end KeepExample

open KeepExample in
theorem keep_exact_of_overlapping_fields :
    "to.name" ∈ asked ∧ ((keep asked).run parcel).at? "to.name" = some (.string "ann") ∧
    get? ["to", "town"] ((keep asked).run parcel) = some (.string "Ulm") ∧
    get? ["to", "town"] parcel = some (.string "Ulm") ∧
    (keep asked).run ((keep asked).run parcel) = (keep asked).run parcel := by
  obtain ⟨hlisted, -, hcopied, hagain⟩ := keep_exact asked parcel
  have hname : "to.name" ∈ asked := by decide
  have htown : get? ["to", "town"] ((keep asked).run parcel) = some (.string "Ulm") := rfl
  exact ⟨hname, hlisted "to.name" hname, htown, (hcopied _ _ htown rfl).1, hagain⟩

end Projection

end DocumentBase
