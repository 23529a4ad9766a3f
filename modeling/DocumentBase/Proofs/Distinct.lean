import Mathlib.Data.List.ReduceOption
import DocumentBase.Collections
import DocumentBase.Proofs.Grouping
import DocumentBase.Proofs.Value.Sameness

/-!
# Distinct values and groups

The values of a field are collected one by one, each unless an equal one is there.  The keys of
groups are collected in the same way, but a key is what stands at the field as a whole: an array
is one key, and a document without the field has the key null.  So where no array is met there
are as many groups as values, and one more for documents without the field.
-/

namespace DocumentBase

open Value

/-! ### Lists of distinct values -/

namespace Collections

/-- The values of a list, each once. -/
def distinctOf (values : List Value) : List Value :=
  values.foldl addDistinct []

theorem length_foldl_addDistinct_le (values seen : List Value) :
    (values.foldl addDistinct seen).length ≤ seen.length + values.length := by
  induction values generalizing seen with
  | nil => exact Nat.le_refl _
  | cons v rest ih =>
      have hadd : (addDistinct seen v).length ≤ seen.length + 1 := by
        rw [addDistinct]
        split
        · exact Nat.le_succ _
        · exact Nat.le_of_eq List.length_append
      have hrest := ih (addDistinct seen v)
      rw [List.foldl_cons, List.length_cons]
      omega

theorem length_distinctOf_le (values : List Value) :
    (distinctOf values).length ≤ values.length := by
  have h := length_foldl_addDistinct_le values []
  rwa [List.length_nil, Nat.zero_add] at h

section Parts

variable {p : Value → Bool}

theorem filter_addDistinct (hp : ∀ v w : Value, v.same w = true → p v = p w)
    (seen : List Value) (v : Value) :
    (addDistinct seen v).filter p =
      if p v then addDistinct (seen.filter p) v else seen.filter p := by
  have hany (hv : p v = true) :
      ((seen.filter p).any fun other => other.same v) = seen.any fun other => other.same v := by
    rw [List.any_filter]
    refine congrArg (seen.any ·) (funext fun other => ?_)
    by_cases hother : other.same v = true
    · rw [hother, hp other v hother, hv]
      rfl
    · rw [Bool.not_eq_true] at hother
      rw [hother, Bool.and_false]
  by_cases hv : p v = true
  · rw [if_pos hv, addDistinct, addDistinct, hany hv]
    split
    · rfl
    · rw [List.filter_append, List.filter_singleton, hv]
      rfl
  · rw [Bool.not_eq_true] at hv
    rw [hv, if_neg Bool.false_ne_true, addDistinct]
    split
    · rfl
    · rw [List.filter_append, List.filter_singleton, hv]
      exact List.append_nil _

/-- The values with a property that equal values share are collected on their own. -/
theorem filter_foldl_addDistinct (hp : ∀ v w : Value, v.same w = true → p v = p w)
    (values seen : List Value) :
    (values.foldl addDistinct seen).filter p =
      (values.filter p).foldl addDistinct (seen.filter p) := by
  induction values generalizing seen with
  | nil => rfl
  | cons v rest ih =>
      rw [List.foldl_cons, ih, filter_addDistinct hp, List.filter_cons]
      split <;> rfl

/-- Values may be left out before or after repetitions are, if equal values are left out together.
-/
theorem filter_distinctOf (hp : ∀ v w : Value, v.same w = true → p v = p w)
    (values : List Value) : (distinctOf values).filter p = distinctOf (values.filter p) :=
  filter_foldl_addDistinct hp values []

end Parts

/-- Of values that all equal one, the first is left. -/
theorem distinctOf_of_same {common : Value} {values : List Value}
    (h : ∀ v ∈ values, v.same common = true) : distinctOf values = values.take 1 := by
  cases values with
  | nil => rfl
  | cons first rest =>
      have hfirst := h first List.mem_cons_self
      have hrest : ∀ v ∈ rest, v.same common = true := fun v hv => h v (List.mem_cons_of_mem _ hv)
      change rest.foldl addDistinct [first] = [first]
      clear h
      induction rest with
      | nil => rfl
      | cons v rest ih =>
          have hsame : first.same v = true :=
            same_trans hfirst (same_symm (hrest v List.mem_cons_self))
          have hadd : addDistinct [first] v = [first] := by simp [addDistinct, hsame]
          rw [List.foldl_cons, hadd]
          exact ih fun w hw => hrest w (List.mem_cons_of_mem _ hw)

def isNullish (v : Value) : Bool :=
  v.same .null

/-- Values that are the same are both missing or both there. -/
theorem isNullish_congr (v w : Value) (h : v.same w = true) : isNullish v = isNullish w := by
  rw [isNullish, isNullish, (Like.same h).same_eq]

/-- Values that equal null count once, beside all others. -/
theorem length_distinctOf (values : List Value) :
    (distinctOf values).length =
      (distinctOf (values.filter fun v => !isNullish v)).length +
        (values.any isNullish).toNat := by
  have hnullish : ((distinctOf values).filter isNullish).length =
      (values.any isNullish).toNat := by
    have hsame : ∀ v ∈ values.filter isNullish, v.same .null = true :=
      fun v hv => (List.mem_filter.mp hv).2
    rw [filter_distinctOf isNullish_congr, distinctOf_of_same hsame, List.length_take]
    cases hany : values.any isNullish with
    | true =>
        obtain ⟨v, hv, hnull⟩ := List.any_eq_true.mp hany
        exact Nat.min_eq_left (List.length_pos_of_mem (List.mem_filter.mpr ⟨hv, hnull⟩))
    | false =>
        have hempty : values.filter isNullish = [] := by
          rw [List.filter_eq_nil_iff]
          exact fun v hv => List.any_eq_false.mp hany v hv
        rw [hempty]
        rfl
  have hothers := filter_distinctOf
    (fun v w h => congrArg (!·) (isNullish_congr v w h)) values
  rw [← hothers, ← hnullish, Nat.add_comm]
  exact List.length_eq_length_filter_add isNullish

end Collections

/-! ### Values where no array is met -/

/-- Whether there is an array at a path or on the way to it. -/
def Value.meetsArray : Path → Value → Bool
  | _, .array _ => true
  | key :: rest, .document fields =>
    ((Document.value? fields key).map (meetsArray rest)).getD false
  | _, _ => false

/-- Whether there is an array at a field or on the way to it. -/
def Document.meetsArray (d : Document) (field : String) : Bool :=
  (Value.document d).meetsArray (Path.ofString field)

/-- A path that meets no array reaches what is found at it, and nothing else. -/
theorem Document.reach_of_no_array {path : Path} (hpath : path ≠ []) {d : Document}
    (h : (Value.document d).meetsArray path = false) :
    ((d.reach path).flatMap fun v => v.items?.getD [v]) = (d.get? path).toList := by
  induction path generalizing d with
  | nil => exact absurd rfl hpath
  | cons key rest ih =>
      rw [Value.meetsArray] at h
      rw [Document.reach, Value.reach]
      cases hv : d.value? key with
      | none => cases rest <;> simp [Document.get?, hv]
      | some v =>
          rw [hv, Option.map_some, Option.getD_some] at h
          cases rest with
          | nil => cases v <;> simp_all [Document.get?, Value.reach, Value.items?, Value.meetsArray]
          | cons next later =>
              cases v with
              | document fields =>
                  have hfields := ih (List.cons_ne_nil next later) h
                  rw [Document.reach] at hfields
                  simpa [Document.get?, hv] using hfields
              | array items => simp [Value.meetsArray] at h
              | _ => simp [Document.get?, hv, Value.reach]

/-- A field that meets no array has the value at it, or none. -/
theorem Collections.fieldValues_of_no_array {field : String} {d : Document}
    (h : d.meetsArray field = false) : fieldValues field d = (d.at? field).toList :=
  Document.reach_of_no_array (Path.ofString_ne_nil field) h

/-! ### Keys of groups -/

namespace GroupSpec

/-- The keys of groups are collected as distinct values are. -/
theorem keys_place (row : Document) (key : Value) (gs : Groups) :
    (place row key gs).map Prod.fst = Collections.addDistinct (gs.map Prod.fst) key := by
  induction gs with
  | nil => rfl
  | cons group rest ih =>
      obtain ⟨existing, members⟩ := group
      rw [place, Collections.addDistinct, List.map_cons, List.any_cons]
      by_cases hkey : existing.same key = true
      · rw [if_pos hkey, hkey]
        rfl
      · rw [if_neg hkey, List.map_cons, ih, Collections.addDistinct]
        rw [Bool.not_eq_true] at hkey
        rw [hkey, Bool.false_or]
        split <;> rfl

/-- There is one group for each distinct key. -/
theorem keys_groups (g : GroupSpec) (rows : List Document) :
    (g.groups rows).map Prod.fst = Collections.distinctOf (rows.map g.key.ofRow) := by
  have hfold : ∀ gs : Groups, (g.placeAll rows gs).map Prod.fst =
      (rows.map g.key.ofRow).foldl Collections.addDistinct (gs.map Prod.fst) := by
    induction rows with
    | nil => exact fun _ => rfl
    | cons row rest ih =>
        intro gs
        rw [List.map_cons, List.foldl_cons, ← keys_place row]
        exact ih _
  exact hfold []

/-- All rows are in one group, if there are any. -/
theorem groups_all {g : GroupSpec} (hkey : g.key = .all) (rows : List Document) :
    g.groups rows = if rows.isEmpty then [] else [(.null, rows)] := by
  have hfold (rest members : List Document) :
      g.placeAll rest [(.null, members)] = [(.null, members ++ rest)] := by
    induction rest generalizing members with
    | nil => rw [List.append_nil]; rfl
    | cons row rest ih =>
        have hplace : place row (g.key.ofRow row) [(.null, members)] =
            [(.null, members ++ [row])] := by
          rw [hkey]
          rfl
        rw [placeAll, List.foldl_cons, hplace]
        exact (ih _).trans (by rw [List.append_assoc]; rfl)
  cases rows with
  | nil => rfl
  | cons row rest =>
      have hfirst : place row (g.key.ofRow row) [] = [(.null, [row])] := by
        rw [hkey]
        rfl
      rw [groups, List.foldl_cons, hfirst]
      exact hfold rest [row]

end GroupSpec

/-! ### As many groups as values -/

namespace Collections

/-- Whether nothing was found somewhere, and null nowhere. -/
def lacksOnly (found : List (Option Value)) : Bool :=
  found.any Option.isNone && !found.any fun v? => v?.any isNullish

/-- What is not found counts as null. -/
theorem any_isNullish_getD (found : List (Option Value)) :
    (found.map (·.getD .null)).any isNullish =
      (found.any Option.isNone || found.any fun v? => v?.any isNullish) := by
  induction found with
  | nil => rfl
  | cons v? rest ih =>
      rw [List.map_cons, List.any_cons, ih, List.any_cons, List.any_cons]
      cases v? with
      | none => rfl
      | some v => exact Bool.or_left_comm _ _ _

theorem filter_not_isNullish_getD (found : List (Option Value)) :
    (found.map (·.getD .null)).filter (fun v => !isNullish v) =
      found.reduceOption.filter fun v => !isNullish v := by
  induction found with
  | nil => rfl
  | cons v? rest ih =>
      cases v? with
      | none => exact ih
      | some v =>
          change List.filter _ (v :: rest.map _) = List.filter _ (v :: rest.reduceOption)
          rw [List.filter_cons, List.filter_cons, ih]

/-- What is lacking counts as null. -/
theorem length_distinctOf_getD (found : List (Option Value)) :
    (distinctOf (found.map (·.getD .null))).length =
      (distinctOf found.reduceOption).length + (lacksOnly found).toNat := by
  have hvalues : found.reduceOption.any isNullish = found.any fun v? => v?.any isNullish := by
    rw [List.reduceOption, List.any_filterMap]
    rfl
  rw [length_distinctOf, filter_not_isNullish_getD, any_isNullish_getD,
    length_distinctOf found.reduceOption, hvalues, lacksOnly]
  cases found.any Option.isNone <;> cases found.any fun v? => v?.any isNullish <;> rfl

/-- Grouping by a field makes a group for each value, and one for documents without the field if
there is none for null. -/
theorem length_keys {field : String} {documents : List Document}
    (hflat : ∀ d ∈ documents, d.meetsArray field = false) :
    (distinctOf (documents.map (GroupKey.single field).ofRow)).length =
      (distinctOf (documents.flatMap (fieldValues field))).length +
        (lacksOnly (documents.map (·.at? field))).toNat := by
  have hvalues : documents.flatMap (fieldValues field) =
      (documents.map (·.at? field)).reduceOption := by
    rw [List.reduceOption, List.filterMap_map, Function.id_comp,
      List.filterMap_eq_flatMap_toList]
    exact List.flatMap_congr fun d hd => fieldValues_of_no_array (hflat d hd)
  have hkeys : documents.map (GroupKey.single field).ofRow =
      (documents.map (·.at? field)).map (·.getD .null) := by
    rw [List.map_map]
    rfl
  rw [hvalues, hkeys, length_distinctOf_getD]

end Collections

end DocumentBase
