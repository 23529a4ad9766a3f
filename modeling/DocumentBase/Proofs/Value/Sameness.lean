import Mathlib.Data.List.Forall2
import DocumentBase.Value.Comparison

/-!
# Sameness of values

Two documents are the same when they have the same keys with the same values, in any order; a
field that is shadowed by an earlier one does not count.  With this reading sameness is shown
to be symmetric and transitive.  It is not reflexive: a NaN is not the same as itself.
-/

namespace DocumentBase.Value

/-! ### Reading the definition -/

/-- What the fields that are not passed yet contribute. -/
theorem sameFields_iff (other : Document) (fields : List (String × Value))
    (passed : List String) :
    sameFields passed fields other = true ↔
      ∀ key v, key ∉ passed → Document.value? fields key = some v →
        ∃ w, other.value? key = some w ∧ v.same w = true := by
  induction fields generalizing passed with
  | nil => simp [sameFields]
  | cons field rest ih =>
      obtain ⟨k, v⟩ := field
      rw [sameFields, Bool.and_eq_true, ih, Bool.or_eq_true]
      constructor
      · rintro ⟨hfirst, hrest⟩ key value hkey hvalue
        rw [Document.value?_cons] at hvalue
        by_cases hk : k = key
        · subst hk
          rw [if_pos rfl, Option.some.injEq] at hvalue
          subst hvalue
          have hmatch := hfirst.resolve_left (by simpa using hkey)
          cases hother : other.value? k with
          | none => simp [hother] at hmatch
          | some w => exact ⟨w, rfl, by simpa [hother] using hmatch⟩
        · rw [if_neg hk] at hvalue
          exact hrest key value (by simp [Ne.symm hk, hkey]) hvalue
      · intro hall
        constructor
        · by_cases hk : k ∈ passed
          · exact Or.inl (by simpa using hk)
          · obtain ⟨w, hw, hsame⟩ := hall k v hk (by simp [Document.value?_cons])
            exact Or.inr (by simpa [hw] using hsame)
        · intro key value hkey hvalue
          rw [List.mem_cons, not_or] at hkey
          exact hall key value hkey.2 (by
            rw [Document.value?_cons, if_neg (Ne.symm hkey.1), hvalue])

theorem has_of_mem_keys {d : Document} {key : String} (h : key ∈ d.keys) : d.has key = true := by
  induction d with
  | nil => simp [Document.keys] at h
  | cons field rest ih =>
      obtain ⟨k, v⟩ := field
      by_cases hk : k = key
      · simp [Document.has, Document.value?, hk]
      · have hrest : key ∈ Document.keys rest := by
          simpa [Document.keys, Ne.symm hk] using h
        simpa [Document.has, Document.value?, hk] using ih hrest

theorem mem_keys_of_value? {d : Document} {key : String} {v : Value}
    (h : d.value? key = some v) : key ∈ d.keys :=
  List.mem_map.mpr ⟨(key, v), Document.mem_of_value? h, rfl⟩

/-- Documents are compared as maps from keys to values. -/
theorem same_document_iff (a b : Document) :
    (Value.document a).same (.document b) = true ↔
      ∀ key, Option.Rel (fun v w => v.same w = true) (a.value? key) (b.value? key) := by
  rw [same, Bool.and_eq_true, sameFields_iff, List.all_eq_true]
  constructor
  · rintro ⟨hfields, hkeys⟩ key
    cases ha : a.value? key with
    | some v =>
        obtain ⟨w, hw, hsame⟩ := hfields key v (by simp) ha
        rw [hw]
        exact .some hsame
    | none =>
        cases hb : b.value? key with
        | none => exact .none
        | some w =>
            have hhas := hkeys key (mem_keys_of_value? hb)
            simp [Document.has, ha] at hhas
  · intro hall
    constructor
    · intro key v _ hv
      have hrel := hall key
      rw [hv] at hrel
      cases hb : b.value? key with
      | none =>
          rw [hb] at hrel
          cases hrel
      | some w =>
          rw [hb] at hrel
          cases hrel with
          | some hsame => exact ⟨w, rfl, hsame⟩
    · intro key hkey
      have hhas := has_of_mem_keys hkey
      have hrel := hall key
      cases ha : a.value? key with
      | some v => simp [Document.has, ha]
      | none =>
          rw [ha] at hrel
          cases hb : b.value? key with
          | none => simp [Document.has, hb] at hhas
          | some w =>
              rw [hb] at hrel
              cases hrel

/-- Lists are compared item by item. -/
theorem sameItems_iff (vs ws : List Value) :
    sameItems vs ws = true ↔ List.Forall₂ (fun v w => v.same w = true) vs ws := by
  induction vs generalizing ws with
  | nil => cases ws <;> simp [sameItems]
  | cons v vs ih => cases ws <;> simp [sameItems, ih]

/-- Values other than booleans, texts and dates are compared as numbers. -/
theorem sameScalar_eq {v : Value} (hbool : v.kind ≠ .bool) (htext : v.kind ≠ .text)
    (hdate : v.kind ≠ .date) (w : Value) :
    sameScalar v w = match v.number?, w.number? with
      | some x, some y => x.same y
      | _, _ => v.kind == .null && w.kind == .null := by
  cases v <;> first | rfl | contradiction

/-- Other values are the same as numbers, or because they count as null. -/
theorem sameScalar_of_kind {v : Value} (hbool : v.kind ≠ .bool) (htext : v.kind ≠ .text)
    (hdate : v.kind ≠ .date) (w : Value) :
    sameScalar v w = true ↔
      (∃ x y, v.number? = some x ∧ w.number? = some y ∧ x.same y = true) ∨
        (v.kind = .null ∧ w.kind = .null) := by
  have hkind := kind_eq_number_iff v
  rw [sameScalar_eq hbool htext hdate]
  cases hv : v.number? with
  | none => simp
  | some x =>
      cases hw : w.number? with
      | none => simp
      | some y => simp_all

/-- The ways in which values that hold no others are the same. -/
theorem sameScalar_iff (v w : Value) :
    sameScalar v w = true ↔
      (∃ b, v = .bool b ∧ w = .bool b) ∨ (∃ t, v = .string t ∧ w = .string t) ∨
        (∃ i, v = .date i ∧ w = .date i) ∨
        (∃ x y, v.number? = some x ∧ w.number? = some y ∧ x.same y = true) ∨
        (v.kind = .null ∧ w.kind = .null) := by
  cases v with
  | bool b =>
      cases w <;> simp [sameScalar, number?, kind]
      exact eq_comm
  | string t =>
      cases w <;> simp [sameScalar, number?, kind]
      exact eq_comm
  | date i =>
      cases w <;> simp [sameScalar, number?, kind]
      exact eq_comm
  | _ =>
      rw [sameScalar_of_kind (by simp [kind]) (by simp [kind]) (by simp [kind])]
      simp
/-- Two values are the same as lists, as documents, or as values that hold no others. -/
inductive SameView : Value → Value → Prop
  | array {a b : List Value} (h : List.Forall₂ (fun v w => v.same w = true) a b) :
      SameView (.array a) (.array b)
  | document {a b : Document}
      (h : ∀ key, Option.Rel (fun v w => v.same w = true) (a.value? key) (b.value? key)) :
      SameView (.document a) (.document b)
  | scalar {v w : Value} (h : sameScalar v w = true) : SameView v w

/-- Values are the same if they are so as scalars, as arrays or as documents. -/
theorem same_iff_view (v w : Value) : v.same w = true ↔ SameView v w := by
  constructor
  · intro h
    rw [same.eq_def] at h
    split at h
    next a b => exact .array ((sameItems_iff a b).mp h)
    next a b => exact .document ((same_document_iff a b).mp (by rw [same]; exact h))
    next => exact .scalar h
  · intro h
    cases h with
    | array h =>
        rw [same]
        exact (sameItems_iff _ _).mpr h
    | document h => exact (same_document_iff _ _).mpr h
    | scalar h =>
        rw [same.eq_def]
        split
        next a b => simp [sameScalar, number?, kind] at h
        next a b => simp [sameScalar, number?, kind] at h
        next => exact h

/-! ### Induction -/

theorem sizeOf_lt_of_value? {d : Document} {key : String} {v : Value}
    (h : d.value? key = some v) : sizeOf v < sizeOf (Value.document d) := by
  have hmem := Document.mem_of_value? h
  have hfield : sizeOf (key, v) < sizeOf d := List.sizeOf_lt_of_mem hmem
  simp only [Prod.mk.sizeOf_spec, Value.document.sizeOf_spec] at *
  omega

theorem sizeOf_lt_of_mem_items {items : List Value} {v : Value} (h : v ∈ items) :
    sizeOf v < sizeOf (Value.array items) := by
  have hitem : sizeOf v < sizeOf items := List.sizeOf_lt_of_mem h
  simp only [Value.array.sizeOf_spec]
  omega

/-- What is to be shown of values that are the same is shown along their parts. -/
@[elab_as_elim]
theorem same_rec {motive : ∀ v w : Value, v.same w = true → Prop}
    (scalar : ∀ v w hsame, sameScalar v w = true → motive v w hsame)
    (array : ∀ a b hsame, List.Forall₂ (fun v w => ∃ h, motive v w h) a b →
      motive (.array a) (.array b) hsame)
    (document : ∀ (a b : Document) hsame,
      (∀ key, Option.Rel (fun v w => ∃ h, motive v w h) (a.value? key) (b.value? key)) →
        motive (.document a) (.document b) hsame) :
    ∀ {v w : Value} (hsame : v.same w = true), motive v w hsame := by
  intro v
  induction hsize : sizeOf v using Nat.strongRecOn generalizing v with
  | ind n ih =>
      intro w hsame
      cases (same_iff_view v w).mp hsame with
      | scalar h => exact scalar v w hsame h
      | @array a b h =>
          apply array
          rw [List.forall₂_iff_get] at *
          refine ⟨h.1, ?_⟩
          intro i ha hb
          have hlt := sizeOf_lt_of_mem_items (List.get_mem a ⟨i, ha⟩)
          exact ⟨h.2 i ha hb, ih _ (hsize ▸ hlt) rfl (h.2 i ha hb)⟩
      | @document a b h =>
          apply document
          intro key
          have hkey := h key
          cases ha : a.value? key <;> cases hb : b.value? key <;> rw [ha, hb] at hkey <;> cases hkey
          · exact .none
          · rename_i hvw
            exact .some ⟨hvw, ih _ (hsize ▸ sizeOf_lt_of_value? ha) rfl hvw⟩

/-! ### Symmetry -/

theorem sameScalar_symm {v w : Value} (h : sameScalar v w = true) : sameScalar w v = true := by
  rw [sameScalar_iff] at *
  rcases h with ⟨b, hv, hw⟩ | ⟨t, hv, hw⟩ | ⟨i, hv, hw⟩ | ⟨x, y, hv, hw, hxy⟩ | ⟨hv, hw⟩
  · exact Or.inl ⟨b, hw, hv⟩
  · exact Or.inr (Or.inl ⟨t, hw, hv⟩)
  · exact Or.inr (Or.inr (Or.inl ⟨i, hw, hv⟩))
  · exact Or.inr (Or.inr (Or.inr (Or.inl ⟨y, x, hw, hv, by rw [Double.same_comm]; exact hxy⟩)))
  · exact Or.inr (Or.inr (Or.inr (Or.inr ⟨hw, hv⟩)))

theorem same_symm {v w : Value} (hsame : v.same w = true) : w.same v = true := by
  rw [same_iff_view]
  induction hsame using same_rec with
  | scalar v w _ h => exact .scalar (sameScalar_symm h)
  | array a b _ h =>
      refine .array (h.imp fun v w hvw => ?_).flip
      exact (same_iff_view w v).mpr hvw.2
  | document a b _ h =>
      refine .document fun key => ?_
      match a.value? key, b.value? key, h key with
      | _, _, .some hvw => exact .some ((same_iff_view _ _).mpr hvw.2)
      | _, _, .none => exact .none

theorem same_comm (v w : Value) : v.same w = w.same v := by
  rw [Bool.eq_iff_iff]
  exact ⟨same_symm, same_symm⟩

/-! ### Transitivity -/

theorem sameScalar_trans {v w x : Value} (hvw : sameScalar v w = true)
    (hwx : sameScalar w x = true) : sameScalar v x = true := by
  rw [sameScalar_iff] at *
  rcases hvw with ⟨b, hv, rfl⟩ | ⟨t, hv, rfl⟩ | ⟨i, hv, rfl⟩ | ⟨p, q, hv, hw, hpq⟩ | ⟨hv, hw⟩
  · simpa [hv, number?, kind] using hwx
  · simpa [hv, number?, kind] using hwx
  · simpa [hv, number?, kind] using hwx
  · rcases hwx with ⟨b, rfl, -⟩ | ⟨t, rfl, -⟩ | ⟨i, rfl, -⟩ | ⟨q', r, hw', hx, hqr⟩ | ⟨hw', -⟩
    · simp [number?] at hw
    · simp [number?] at hw
    · simp [number?] at hw
    · rw [hw, Option.some.injEq] at hw'
      subst hw'
      exact Or.inr (Or.inr (Or.inr (Or.inl ⟨p, r, hv, hx, Double.same_trans hpq hqr⟩)))
    · have hnumber := (kind_eq_number_iff w).mpr (by simp [hw])
      simp [hnumber] at hw'
  · rcases hwx with ⟨b, rfl, -⟩ | ⟨t, rfl, -⟩ | ⟨i, rfl, -⟩ | ⟨q, r, hw', hx, hqr⟩ | ⟨-, hx⟩
    · simp [kind] at hw
    · simp [kind] at hw
    · simp [kind] at hw
    · have hnumber := (kind_eq_number_iff w).mpr (by simp [hw'])
      simp [hnumber] at hw
    · exact Or.inr (Or.inr (Or.inr (Or.inr ⟨hv, hx⟩)))

theorem not_sameScalar_array (v : Value) (a : List Value) :
    sameScalar v (.array a) = false := by
  cases v <;> simp [sameScalar, number?, kind]

theorem not_sameScalar_document (v : Value) (a : Document) :
    sameScalar v (.document a) = false := by
  cases v <;> simp [sameScalar, number?, kind]

theorem same_trans {v w x : Value} (hvw : v.same w = true) (hwx : w.same x = true) :
    v.same x = true := by
  rw [same_iff_view] at hwx ⊢
  induction hvw using same_rec generalizing x with
  | scalar v w _ h =>
      cases hwx with
      | scalar h' => exact .scalar (sameScalar_trans h h')
      | array _ => simp [not_sameScalar_array] at h
      | document _ => simp [not_sameScalar_document] at h
  | array a b _ h =>
      cases hwx with
      | scalar h' =>
          have hflip := sameScalar_symm h'
          simp [not_sameScalar_array] at hflip
      | @array _ c h' =>
          refine .array ?_
          rw [List.forall₂_iff_get] at *
          refine ⟨h.1.trans h'.1, ?_⟩
          intro i ha hc
          have hb : i < b.length := h.1 ▸ ha
          obtain ⟨-, hitem⟩ := h.2 i ha hb
          exact (same_iff_view _ _).mpr (hitem ((same_iff_view _ _).mp (h'.2 i hb hc)))
  | document a b _ h =>
      cases hwx with
      | scalar h' =>
          have hflip := sameScalar_symm h'
          simp [not_sameScalar_document] at hflip
      | @document _ c h' =>
          refine .document fun key => ?_
          match a.value? key, b.value? key, c.value? key, h key, h' key with
          | _, _, _, .some hvw, .some hwx =>
              exact .some ((same_iff_view _ _).mpr (hvw.2 ((same_iff_view _ _).mp hwx)))
          | _, _, _, .none, .none => exact .none

end DocumentBase.Value
