import DocumentBase.Proofs.Number.Amount
import DocumentBase.Proofs.Value.Sameness
import DocumentBase.Proofs.Value.Storable

/-!
# How exact sameness is

Comparisons take values for something simpler: a value of a type without an order counts as null,
and an integer as a double.  So values that are the same need not be equal.  They are exactly
alike if nothing in them is taken for anything else.
-/

namespace DocumentBase.Value

def amount? : Value → Option Amount
  | .int32 n => some (.ofInt n.toInt)
  | .int64 n => some (.ofInt n.toInt)
  | .double x => x.amount?
  | _ => none

/-- Two values are equal, but for the widths of numbers and the order of keys. -/
inductive Exactly : Value → Value → Prop
  | refl (v : Value) : Exactly v v
  | number {v w : Value} {amount : Amount} (hv : v.amount? = some amount)
      (hw : w.amount? = some amount) : Exactly v w
  | array {a b : List Value} (h : List.Forall₂ Exactly a b) : Exactly (.array a) (.array b)
  | document {a b : Document} (h : ∀ key, Option.Rel Exactly (a.value? key) (b.value? key)) :
      Exactly (.document a) (.document b)

/-- Comparisons take a value for what it is: it is null or has an order, and if it is an integer
then it is a double exactly. -/
structure Plain (v : Value) : Prop where
  ordered : v.kind = .null → v = .null
  double : ∀ n, v.integer? = some n → (Double.ofInt n).amount? = some (.ofInt n)

/-- Nothing in a value, at any depth, is taken for anything else. -/
def Faithful (v : Value) : Prop :=
  ∀ w, Within w v → w.Plain

theorem Faithful.plain {v : Value} (h : v.Faithful) : v.Plain :=
  h v (.self v)

theorem Faithful.part {v w : Value} (h : v.Faithful) (hw : w ∈ v.parts) : w.Faithful :=
  fun u hu => h u (.part hw hu)

theorem Faithful.of_value? {d : Document} {key : String} {v : Value}
    (h : (Value.document d).Faithful) (hv : d.value? key = some v) : v.Faithful :=
  h.part (List.mem_map.mpr ⟨(key, v), Document.mem_of_value? hv, rfl⟩)

theorem faithful_iff (v : Value) : v.Faithful ↔ v.Plain ∧ ∀ w ∈ v.parts, w.Faithful :=
  forall_within_iff v

theorem faithful_array_iff {items : List Value} :
    (Value.array items).Faithful ↔ ∀ v ∈ items, v.Faithful := by
  have hplain : (Value.array items).Plain := ⟨nofun, nofun⟩
  rw [faithful_iff, and_iff_right hplain, parts]

theorem faithful_document_iff {d : Document} :
    (Value.document d).Faithful ↔ ∀ field ∈ d, field.2.Faithful := by
  have hplain : (Value.document d).Plain := ⟨nofun, nofun⟩
  rw [faithful_iff, and_iff_right hplain, parts, List.forall_mem_map]

/-! ### Plain values -/

theorem kind_of_integer {v : Value} {n : Int} : v.integer? = some n → v.kind = .number := by
  cases v <;> first | exact fun _ => rfl | exact nofun

theorem plain_of_integer {v : Value} {n : Int} (hinteger : v.integer? = some n)
    (h : n.natAbs < 2 ^ 53) : v.Plain := by
  constructor
  · rw [kind_of_integer hinteger]
    exact nofun
  · rw [hinteger]
    rintro _ ⟨⟩
    exact Double.amount?_ofInt h

theorem plain_int32 (n : Int32) : (Value.int32 n).Plain := by
  apply plain_of_integer rfl
  have hlow := n.le_toInt
  have hhigh := n.toInt_lt
  omega

theorem Plain.faithful {v : Value} (h : v.Plain) (hparts : v.parts = []) : v.Faithful := by
  rw [faithful_iff, hparts]
  exact ⟨h, nofun⟩

/-- The number as which a plain value is compared has its amount. -/
theorem Plain.amount?_eq {v : Value} {x : Double} (h : v.Plain) (hx : v.number? = some x) :
    v.amount? = x.amount? := by
  cases v with
  | int32 n =>
      cases hx
      exact (h.double n.toInt rfl).symm
  | int64 n =>
      cases hx
      exact (h.double n.toInt rfl).symm
  | double y =>
      cases hx
      rfl
  | _ => cases hx

/-- Scalars that conversion keeps apart are the same only if they are exactly so. -/
theorem exactly_of_sameScalar {v w : Value} (hv : v.Plain) (hw : w.Plain)
    (h : sameScalar v w = true) : Exactly v w := by
  rcases (sameScalar_iff v w).mp h with
    ⟨b, rfl, rfl⟩ | ⟨t, rfl, rfl⟩ | ⟨i, rfl, rfl⟩ | ⟨x, y, hx, hy, hxy⟩ | ⟨hvnull, hwnull⟩
  · exact .refl _
  · exact .refl _
  · exact .refl _
  · obtain ⟨amount, hxamount, hyamount⟩ := Double.amount?_of_same hxy
    exact .number ((hv.amount?_eq hx).trans hxamount) ((hw.amount?_eq hy).trans hyamount)
  · rw [hv.ordered hvnull, hw.ordered hwnull]
    exact .refl _

/-! ### Sameness -/

/-- Faithful values that are the same are exactly alike. -/
theorem exactly_of_same {v w : Value} (hv : v.Faithful) (hw : w.Faithful)
    (hsame : v.same w = true) : Exactly v w := by
  induction hsame using same_rec with
  | scalar v w _ h => exact exactly_of_sameScalar hv.plain hw.plain h
  | array a b _ h =>
      refine .array (List.forall₂_iff_get.mpr ⟨h.length_eq, fun i ha hb => ?_⟩)
      obtain ⟨-, hitem⟩ := (List.forall₂_iff_get.mp h).2 i ha hb
      exact hitem (hv.part (List.get_mem a ⟨i, ha⟩)) (hw.part (List.get_mem b ⟨i, hb⟩))
  | document a b _ h =>
      refine .document fun key => ?_
      have hkey := h key
      cases ha : a.value? key <;> cases hb : b.value? key <;> rw [ha, hb] at hkey <;> cases hkey
      · exact .none
      · rename_i hvw
        exact .some (hvw.2 (hv.of_value? ha) (hw.of_value? hb))

end DocumentBase.Value
