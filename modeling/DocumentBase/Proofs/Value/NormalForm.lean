import DocumentBase.Proofs.Value.Path

/-!
# Normal forms of values

Values are identical when they are written the same way, except that all NaNs are alike.  The
normal form of a value has one NaN in place of all of them, so identity of values is equality of
their normal forms, and with it an equivalence.  Reading and writing a document commute with
taking normal forms.
-/

namespace DocumentBase

namespace Value

mutual

/-- A value with one NaN in place of all of them, at any depth. -/
def normal : Value → Value
  | .double x => .double x.canonical
  | .scopedCode source scope => .scopedCode source (normalFields scope)
  | .array items => .array (normalItems items)
  | .document fields => .document (normalFields fields)
  | v => v
termination_by structural v => v

def normalItems : List Value → List Value
  | [] => []
  | v :: rest => normal v :: normalItems rest
termination_by structural items => items

def normalFields : List (String × Value) → List (String × Value)
  | [] => []
  | (key, v) :: rest => (key, normal v) :: normalFields rest
termination_by structural fields => fields

end

mutual

/-- Values are identical if they have the same normal form. -/
theorem identical_iff : ∀ v w : Value, identical v w = true ↔ v.normal = w.normal
  | .array a, w => by
      cases w with
      | array b => simp [identical, normal, identicalItems_iff a b]
      | _ => simp [identical, normal]
  | .document a, w => by
      cases w with
      | document b => simp [identical, normal, identicalFields_iff a b]
      | _ => simp [identical, normal]
  | .scopedCode s a, w => by
      cases w with
      | scopedCode t b => simp [identical, normal, identicalFields_iff a b]
      | _ => simp [identical, normal]
  | .null, w | .undefined, w | .minKey, w | .maxKey, w | .bool _, w | .int32 _, w | .int64 _, w
  | .double _, w | .decimal _, w | .string _, w | .date _, w | .objectId _, w | .timestamp _ _, w
  | .symbol _, w | .regex _ _, w | .binary _ _, w | .pointer _ _, w | .code _, w => by
      cases w <;> simp [identical, normal]
termination_by structural v => v

theorem identicalItems_iff : ∀ vs ws : List Value,
    identicalItems vs ws = true ↔ normalItems vs = normalItems ws
  | [], ws => by cases ws <;> simp [identicalItems, normalItems]
  | v :: vs, ws => by
      cases ws with
      | nil => simp [identicalItems, normalItems]
      | cons w ws =>
          simp [identicalItems, normalItems, identical_iff v w, identicalItems_iff vs ws]
termination_by structural vs => vs

theorem identicalFields_iff : ∀ vs ws : List (String × Value),
    identicalFields vs ws = true ↔ normalFields vs = normalFields ws
  | [], ws => by cases ws <;> simp [identicalFields, normalFields]
  | (k, v) :: vs, ws => by
      cases ws with
      | nil => simp [identicalFields, normalFields]
      | cons field ws =>
          simp [identicalFields, normalFields, identical_iff v field.2,
            identicalFields_iff vs ws, and_assoc]
termination_by structural vs => vs

end

theorem normalItems_append (vs ws : List Value) :
    normalItems (vs ++ ws) = normalItems vs ++ normalItems ws := by
  induction vs with
  | nil => rfl
  | cons v rest ih => rw [List.cons_append, normalItems, ih, normalItems, List.cons_append]

theorem normalFields_eq_map (fields : List (String × Value)) :
    normalFields fields = fields.map fun field => (field.1, field.2.normal) := by
  induction fields with
  | nil => rfl
  | cons field rest ih => rw [normalFields, ih, List.map_cons]

theorem fields?_normal (v : Value) : v.normal.fields? = v.fields?.map normalFields := by
  cases v <;> rfl

end Value

namespace Document

theorem value?_normal (d : Document) (key : String) :
    value? (Value.normalFields d) key = (d.value? key).map Value.normal := by
  induction d with
  | nil => rfl
  | cons field rest ih =>
      obtain ⟨k, v⟩ := field
      rw [Value.normalFields, value?_cons, value?_cons, ih]
      split <;> rfl

theorem normal_put (d : Document) (key : String) (v : Value) :
    Value.normalFields (d.put key v) = put (Value.normalFields d) key v.normal := by
  induction d with
  | nil => rfl
  | cons field rest ih =>
      obtain ⟨k, w⟩ := field
      by_cases hk : k = key
      · simp [put, hk, Value.normalFields]
      · simp [put, hk, Value.normalFields, ih]

end Document

end DocumentBase
