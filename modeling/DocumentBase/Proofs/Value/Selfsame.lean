import DocumentBase.Proofs.Value.Order
import DocumentBase.Proofs.Value.Sameness
import DocumentBase.Proofs.Value.Storable

/-!
# Values that are the same as themselves

A NaN is not the same as itself, and neither is a value that has one inside.  Every other value
is the same as itself.
-/

namespace DocumentBase.Value

/-- Nothing in a value, at any depth, is a NaN. -/
def NaNFree (v : Value) : Prop :=
  ∀ w, Within w v → w.isNaN = false

theorem naNFree_iff (v : Value) : v.NaNFree ↔ v.isNaN = false ∧ ∀ w ∈ v.parts, w.NaNFree :=
  forall_within_iff v

theorem sameScalar_self {v : Value} (h : v.isNaN = false) (hitems : v.items? = none)
    (hfields : v.fields? = none) : sameScalar v v = true := by
  rw [sameScalar_iff]
  have hnumber : ∀ x, v.number? = some x → x.same x = true := by
    intro x hx
    simp [Double.same, isNaN_of_number hx h]
  cases v with
  | bool b => exact .inl ⟨b, rfl, rfl⟩
  | string text => exact .inr (.inl ⟨text, rfl, rfl⟩)
  | date instant => exact .inr (.inr (.inl ⟨instant, rfl, rfl⟩))
  | int32 _ | int64 _ | double _ =>
      exact .inr (.inr (.inr (.inl ⟨_, _, rfl, rfl, hnumber _ rfl⟩)))
  | array _ => cases hitems
  | document _ => cases hfields
  | _ => exact .inr (.inr (.inr (.inr ⟨rfl, rfl⟩)))

theorem NaNFree.same_self {v : Value} (h : v.NaNFree) : v.same v = true := by
  induction hsize : sizeOf v using Nat.strongRecOn generalizing v with
  | ind n ih =>
      obtain ⟨hself, hparts⟩ := (naNFree_iff v).mp h
      rw [same_iff_view]
      cases v with
      | array items =>
          refine .array (List.forall₂_same.mpr fun item hitem => ?_)
          exact ih _ (hsize ▸ sizeOf_lt_of_mem_items hitem) (hparts item hitem) rfl
      | document fields =>
          refine .document fun key => ?_
          cases hvalue : Document.value? fields key with
          | none => exact .none
          | some w =>
              have hpart : w ∈ (Value.document fields).parts :=
                List.mem_map.mpr ⟨(key, w), Document.mem_of_value? hvalue, rfl⟩
              exact .some (ih _ (hsize ▸ sizeOf_lt_of_value? hvalue) (hparts w hpart) rfl)
      | _ => exact .scalar (sameScalar_self hself rfl rfl)

end DocumentBase.Value
