import Mathlib.Data.List.Infix
import DocumentBase.Proofs.Value.Path

/-!
# Reading, writing and reaching

Reading, writing and removing descend through documents only.  Reaching also enters arrays, and
then it may arrive at several values or at none.  Where no array stands on the way all of them see
the same places: what is reached is what is read, and what is read is what was written or has not
been removed.
-/

namespace DocumentBase.Document

open DocumentBase.Path

variable {p q : Path} {k : String} {d : Document}

/-! ### Arrays on the way -/

/-- A common beginning of two paths leads to an array. -/
def PartInArray (p q : Path) (d : Document) : Prop :=
  ∃ shared ∈ p.inits, shared <+: q ∧ ((get? shared d).bind Value.items?).isSome = true

instance (p q : Path) (d : Document) : Decidable (PartInArray p q d) :=
  inferInstanceAs (Decidable (∃ shared ∈ p.inits, _))

/-- Two paths part in an array if they share a way to one. -/
theorem partInArray_iff :
    PartInArray p q d ↔ ∃ shared items, shared <+: p ∧ shared <+: q ∧
      get? shared d = some (.array items) := by
  have hitems : ∀ x : Option Value, (x.bind Value.items?).isSome = true ↔
      ∃ items, x = some (.array items) := by
    intro x
    cases x with
    | none => simp
    | some v => cases v <;> simp [Value.items?]
  simp only [PartInArray, List.mem_inits, hitems]
  constructor
  · rintro ⟨shared, hp, hq, items, hget⟩
    exact ⟨shared, items, hp, hq, hget⟩
  · rintro ⟨shared, items, hp, hq, hget⟩
    exact ⟨shared, hp, hq, items, hget⟩

theorem not_partInArray_of_nil : ¬ PartInArray p q [] := by
  rw [partInArray_iff]
  rintro ⟨shared, items, -, -, hget⟩
  rw [get?_of_nil] at hget
  cases hget

theorem not_partInArray_of_ne {l : String} (h : k ≠ l) (d : Document) :
    ¬ PartInArray (k :: p) (l :: q) d := by
  rw [partInArray_iff]
  rintro ⟨shared, items, hp, hq, hget⟩
  cases shared with
  | nil => cases hget
  | cons first rest =>
      exact h ((List.cons_prefix_cons.mp hp).1.symm.trans (List.cons_prefix_cons.mp hq).1)

/-- An array at the first segment, or one below the document there. -/
theorem partInArray_cons_iff :
    PartInArray (k :: p) (k :: q) d ↔
      (∃ items, d.value? k = some (.array items)) ∨ PartInArray p q (d.child k) := by
  simp only [partInArray_iff]
  constructor
  · rintro ⟨shared, items, hp, hq, hget⟩
    cases shared with
    | nil => cases hget
    | cons first rest =>
        obtain ⟨rfl, hrestp⟩ := List.cons_prefix_cons.mp hp
        have hrestq : rest <+: q := (List.cons_prefix_cons.mp hq).2
        by_cases hrest : rest = []
        · subst hrest
          exact .inl ⟨items, hget⟩
        · rw [get?_cons hrest] at hget
          exact .inr ⟨rest, items, hrestp, hrestq, hget⟩
  · rintro (⟨items, hvalue⟩ | ⟨rest, items, hp, hq, hget⟩)
    · exact ⟨[k], items, List.cons_prefix_cons.mpr ⟨rfl, List.nil_prefix⟩,
        List.cons_prefix_cons.mpr ⟨rfl, List.nil_prefix⟩, hvalue⟩
    · have hrest : rest ≠ [] := by
        rintro rfl
        cases hget
      refine ⟨k :: rest, items, List.cons_prefix_cons.mpr ⟨rfl, hp⟩,
        List.cons_prefix_cons.mpr ⟨rfl, hq⟩, ?_⟩
      rwa [get?_cons hrest]

/-- An array stands somewhere before the last segment of a path. -/
def ArrayOnWay (p : Path) (d : Document) : Prop :=
  ∃ shared items, shared <+: p.dropLast ∧ get? shared d = some (.array items)

/-- Everything that stands before the last segment of a path is a document. -/
def DocumentsOnWay (p : Path) (d : Document) : Prop :=
  ∀ shared, shared <+: p.dropLast → shared ≠ [] → ∃ fields, get? shared d = some (.document fields)

theorem arrayOnWay_iff_partInArray : ArrayOnWay p d ↔ PartInArray p.dropLast p.dropLast d := by
  simp only [partInArray_iff, ArrayOnWay, and_self_left]

theorem DocumentsOnWay.not_arrayOnWay (h : DocumentsOnWay p d) : ¬ ArrayOnWay p d := by
  rintro ⟨shared, items, hshared, hget⟩
  have hne : shared ≠ [] := by
    rintro rfl
    cases hget
  obtain ⟨fields, hfields⟩ := h shared hshared hne
  rw [hget] at hfields
  cases hfields

/-! ### What is reached -/

theorem reach_cons (k : String) (rest : Path) (d : Document) :
    reach (k :: rest) d = ((d.value? k).map (Value.reach rest)).getD [] := rfl

theorem reach_of_nil (hq : q ≠ []) : reach q [] = [] := by
  cases q with
  | nil => exact absurd rfl hq
  | cons k rest => rfl

/-- What is reached below a field that holds no array. -/
theorem reach_cons_child (hq : q ≠ [])
    (h : ¬ ∃ items, d.value? k = some (.array items)) :
    reach (k :: q) d = reach q (d.child k) := by
  rw [reach_cons, child]
  cases hv : d.value? k with
  | none => exact (reach_of_nil hq).symm
  | some v =>
      cases v with
      | array items => exact absurd ⟨items, hv⟩ h
      | document fields => rfl
      | _ => cases q with
        | nil => exact absurd rfl hq
        | cons l rest => rfl

/-- On a way without arrays, what is read is reached and nothing else. -/
theorem reach_eq_toList (hp : p ≠ []) (h : ¬ ArrayOnWay p d) :
    reach p d = (get? p d).toList := by
  induction p generalizing d with
  | nil => exact absurd rfl hp
  | cons k rest ih =>
      by_cases hrest : rest = []
      · subst hrest
        rw [reach_cons, get?]
        cases d.value? k <;> rfl
      · rw [arrayOnWay_iff_partInArray, List.dropLast_cons_of_ne_nil hrest, partInArray_cons_iff,
          not_or] at h
        rw [reach_cons_child hrest h.1, get?_cons hrest]
        exact ih hrest (arrayOnWay_iff_partInArray.not.mpr h.2)

/-! ### What is removed -/

/-- What is taken out of a document is what is read there. -/
theorem fst_remove (p : Path) (d : Document) : (remove p d).1 = get? p d := by
  induction p generalizing d with
  | nil => rfl
  | cons k rest ih =>
      by_cases hrest : rest = []
      · subst hrest
        rfl
      · rw [get?_cons hrest, remove, child]
        · cases d.value? k with
          | none => simp
          | some v => cases v <;> simp [ih]
        · exact hrest

/-! ### Dotted paths -/

theorem setAt_of_no_dot {key : String} (h : '.' ∉ key.toList) (d : Document) (v : Value) :
    d.setAt key v = d.put key v := by
  rw [setAt, ofString_of_no_dot h, set]

theorem removeAt_of_no_dot {key : String} (h : '.' ∉ key.toList) (d : Document) :
    d.removeAt key = d.without key := by
  rw [removeAt, ofString_of_no_dot h, remove]

/-- Writing at a dotted path enters the document at its first segment. -/
theorem setAt_below {head : String} (h : '.' ∉ head.toList) (rest : String) (d : Document)
    (v : Value) :
    d.setAt (head ++ "." ++ rest) v = d.put head (.document ((d.child head).setAt rest v)) := by
  rw [setAt, ofString_below h, set_cons (ofString_ne_nil rest), setAt]

/-- Removing at a dotted path enters the document at its first segment, if there is one. -/
theorem removeAt_below {head : String} (h : '.' ∉ head.toList) (rest : String) (d : Document) :
    d.removeAt (head ++ "." ++ rest) =
      match d.value? head with
      | some (.document fields) => d.put head (.document (removeAt fields rest))
      | _ => d := by
  rw [removeAt, ofString_below h, remove]
  · cases d.value? head with
    | none => rfl
    | some v => cases v <;> rfl
  · exact ofString_ne_nil rest

/-- What is written at a path is read there, until something else is written; it is not read at
any path apart from this one, and neither is it noticed there when it is removed.  What is removed
is what was read, and is read no more.  Where no array stands on the way, whether or not the way
leads to a value, reaching finds what is read.  All this although reading cuts a path at every
dot, while writing and removing take it apart at the first one and go on inside. -/
theorem paths_agree (d : Document) (v w : Value) (p q : String) :
    (d.setAt p v).at? p = some v ∧
    (d.setAt p v).setAt p w = d.setAt p w ∧
    (Apart (ofString p) (ofString q) →
      (d.setAt p v).at? q = d.at? q ∧ (d.removeAt p).at? q = d.at? q) ∧
    (d.removeAt p).at? p = none ∧
    (d.remove (ofString p)).1 = d.at? p ∧
    (DocumentsOnWay (ofString p) d ∨ d.at? p = none ∧ ¬ ArrayOnWay (ofString p) d →
      d.reachAt p = (d.at? p).toList) ∧
    ('.' ∉ p.toList → d.setAt p v = d.put p v ∧ d.removeAt p = d.without p) ∧
    (∀ head rest, '.' ∉ head.toList → p = head ++ "." ++ rest →
      d.setAt p v = d.put head (.document ((d.child head).setAt rest v)) ∧
      d.removeAt p =
        match d.value? head with
        | some (.document fields) => d.put head (.document (removeAt fields rest))
        | _ => d) := by
  have hp : ofString p ≠ [] := ofString_ne_nil p
  refine ⟨get?_set_self v hp d, set_set_self v w _ d, fun h => ⟨?_, ?_⟩, get?_remove_self _ d,
    fst_remove _ d, fun h => ?_, fun h => ⟨setAt_of_no_dot h d v, removeAt_of_no_dot h d⟩, ?_⟩
  · exact get?_set_of_apart v h d
  · exact get?_remove_of_apart h d
  · have harray : ¬ ArrayOnWay (ofString p) d := by
      rcases h with hdocuments | ⟨-, harray⟩
      · exact hdocuments.not_arrayOnWay
      · exact harray
    exact reach_eq_toList hp harray
  · rintro head rest hhead rfl
    exact ⟨setAt_below hhead rest d v, removeAt_below hhead rest d⟩

namespace PathExample

def parcel : Document :=
  [("to", .document [("name", .string "ann"), ("", .int32 1)]), ("parts", .array [.int32 2])]

end PathExample

open PathExample in
/-- A path with an empty segment, beside a path that is apart from it. -/
theorem paths_agree_on_parcel :
    (parcel.setAt "to." (.int32 3)).at? "to." = some (.int32 3) ∧
    (parcel.setAt "to." (.int32 3)).at? "to.name" = some (.string "ann") ∧
    (parcel.removeAt "to.").at? "to.name" = some (.string "ann") ∧
    parcel.reachAt "to." = [.int32 1] ∧
    parcel.setAt "to." (.int32 3) =
      parcel.put "to" (.document ((parcel.child "to").setAt "" (.int32 3))) := by
  obtain ⟨hread, -, hapart, -, -, hreach, -, hbelow⟩ :=
    paths_agree parcel (.int32 3) .null "to." "to.name"
  have hother := hapart (by decide +kernel)
  have hway : DocumentsOnWay (ofString "to.") parcel := by
    intro shared hshared hne
    have hsegments : (ofString "to.").dropLast = ["to"] := by decide +kernel
    rw [hsegments] at hshared
    rcases List.prefix_cons_iff.mp hshared with rfl | ⟨rest, rfl, hrest⟩
    · exact absurd rfl hne
    · rw [List.prefix_nil.mp hrest]
      exact ⟨_, rfl⟩
  exact ⟨hread, hother.1, hother.2, hreach (.inl hway), (hbelow "to" "" (by decide) rfl).1⟩

end DocumentBase.Document
