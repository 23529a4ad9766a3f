import Mathlib.Data.List.Nodup
import DocumentBase.Proofs.Sorting
import DocumentBase.Proofs.Value.Order

/-!
# Sorting documents by their keys

Documents whose values at the sort keys are not NaN are ordered lexicographically, each key in
its direction, so a sort puts them in order and keeps the order of documents that are tied.
-/

namespace DocumentBase.SortSpec

open Std Value

def rankedKey (key : String × Direction) (left right : Document) : Ordering :=
  match key.2 with
  | .ascending => rankedCompare (sortValue left key.1) (sortValue right key.1)
  | .descending => rankedCompare (sortValue right key.1) (sortValue left key.1)

theorem rankedCompare_swap (v w : Value) : rankedCompare v w = (rankedCompare w v).swap :=
  OrientedCmp.eq_swap

/-- Comparing ranks, and values within a rank, is transitive. -/
theorem rankedCompare_trans {u v w : Value} (huv : (rankedCompare u v).isLE)
    (hvw : (rankedCompare v w).isLE) : (rankedCompare u w).isLE :=
  TransCmp.isLE_trans huv hvw

instance transCmp_rankedKey (key : String × Direction) : TransCmp (rankedKey key) := by
  obtain ⟨field, direction⟩ := key
  cases direction with
  | ascending =>
      exact { eq_swap := rankedCompare_swap _ _, isLE_trans := rankedCompare_trans }
  | descending =>
      exact {
        eq_swap := rankedCompare_swap _ _
        isLE_trans := fun hab hbc => rankedCompare_trans hbc hab }

/-- The lexicographic order of several keys. -/
def rankedKeys : List (String × Direction) → Document → Document → Ordering
  | [] => fun _ _ => .eq
  | key :: rest => compareLex (rankedKey key) (rankedKeys rest)

instance transCmp_rankedKeys : ∀ keys, TransCmp (rankedKeys keys)
  | [] => { eq_swap := rfl, isLE_trans := fun _ _ => rfl }
  | _ :: rest =>
    have := transCmp_rankedKeys rest
    inferInstanceAs (TransCmp (compareLex _ _))

/-- Whether a document has no NaN at the keys of a sort. -/
def Comparable (s : SortSpec) (d : Document) : Prop :=
  ∀ key ∈ s.keys, (sortValue d key.1).isNaN = false

/-- Off NaN the comparison by keys is the ranked one. -/
theorem compareKeys_eq {keys : List (String × Direction)} {left right : Document}
    (hleft : ∀ key ∈ keys, (sortValue left key.1).isNaN = false)
    (hright : ∀ key ∈ keys, (sortValue right key.1).isNaN = false) :
    compareKeys left right keys = rankedKeys keys left right := by
  induction keys with
  | nil => rfl
  | cons key rest ih =>
      have hrest := ih (fun other hother => hleft other (by simp [hother]))
        fun other hother => hright other (by simp [hother])
      have hkey := sortCompare_eq (hleft key (by simp)) (hright key (by simp))
      obtain ⟨field, direction⟩ := key
      rw [compareKeys, rankedKeys, compareLex, hrest, hkey]
      cases direction with
      | ascending => rfl
      | descending =>
          have hswap : Direction.descending.apply
              (rankedCompare (sortValue left field) (sortValue right field)) =
              rankedCompare (sortValue right field) (sortValue left field) :=
            (rankedCompare_swap _ _).symm
          rw [hswap]
          rfl

/-- Sort keys rank all documents that they can compare. -/
theorem ranksOn_compare (s : SortSpec) :
    RanksOn (fun left right => s.compare left right == .lt) s.Comparable where
  asymm := by
    intro a b ha hb h
    rw [compare, compareKeys_eq ha hb, beq_iff_eq] at h
    rw [compare, compareKeys_eq hb ha, beq_eq_false_iff_ne]
    exact OrientedCmp.not_lt_of_lt h
  trans := by
    intro a b c ha hb hc hab hbc
    rw [compare, compareKeys_eq hb ha, beq_eq_false_iff_ne] at hab
    rw [compare, compareKeys_eq hc hb, beq_eq_false_iff_ne] at hbc
    rw [compare, compareKeys_eq hc ha, beq_eq_false_iff_ne]
    apply OrientedCmp.not_lt_of_isLE
    have hfirst : (rankedKeys s.keys a b).isLE := by
      by_contra hgreater
      exact hab (OrientedCmp.lt_of_not_isLE hgreater)
    have hsecond : (rankedKeys s.keys b c).isLE := by
      by_contra hgreater
      exact hbc (OrientedCmp.lt_of_not_isLE hgreater)
    exact TransCmp.isLE_trans hfirst hsecond

theorem stablySorted_sort {s : SortSpec} {documents : List Document}
    (h : ∀ d ∈ documents, s.Comparable d) :
    StablySorted (fun left right => s.compare left right == .lt) documents (s.sort documents) :=
  stablySorted_stableSort s.ranksOn_compare h

/-! ### Sorts that are asked for one after the other -/

/-- Sorting by a field once more changes its direction and not its place. -/
theorem fields_push (s : SortSpec) (field : String) (direction : Direction) :
    (s.push field direction).keys.map Prod.fst =
      if field ∈ s.keys.map Prod.fst then s.keys.map Prod.fst
      else s.keys.map Prod.fst ++ [field] := by
  have hthere : (s.keys.any fun key => decide (key.1 = field)) = true ↔
      field ∈ s.keys.map Prod.fst := by simp
  unfold push
  by_cases hfield : field ∈ s.keys.map Prod.fst
  · rw [if_pos (hthere.mpr hfield), if_pos hfield, List.map_map]
    refine List.map_congr_left fun key _ => ?_
    rw [Function.comp_apply]
    split
    · exact Eq.symm ‹_›
    · rfl
  · rw [if_neg (mt hthere.mp hfield), if_neg hfield, List.map_append]
    rfl

/-- Sorts by several fields, each in its last direction. -/
def pushAll (sorts : List (String × Direction)) : SortSpec :=
  sorts.foldl (fun s sort => s.push sort.1 sort.2) .empty

theorem pushAll_concat (sorts : List (String × Direction)) (sort : String × Direction) :
    pushAll (sorts ++ [sort]) = (pushAll sorts).push sort.1 sort.2 :=
  List.foldl_concat _ _ _ _

theorem mem_fields_pushAll {sorts : List (String × Direction)} {field : String} :
    field ∈ (pushAll sorts).keys.map Prod.fst ↔ field ∈ sorts.map Prod.fst := by
  induction sorts using List.reverseRecOn with
  | nil => rfl
  | append_singleton sorts sort ih =>
      rw [pushAll_concat, fields_push, List.map_append, List.mem_append, List.map_singleton,
        List.mem_singleton, ← ih]
      split
      · exact ⟨.inl, fun h => h.elim id fun h => h ▸ ‹_›⟩
      · rw [List.mem_append, List.mem_singleton]

/-- A field is never sorted by twice. -/
theorem nodup_fields_pushAll (sorts : List (String × Direction)) :
    ((pushAll sorts).keys.map Prod.fst).Nodup := by
  induction sorts using List.reverseRecOn with
  | nil => exact List.nodup_nil
  | append_singleton sorts sort ih =>
      rw [pushAll_concat, fields_push]
      split
      · exact ih
      · exact List.concat_eq_append ▸ List.Nodup.concat ‹_› ih

/-- Different fields are sorted by in the order in which they are given. -/
theorem keys_pushAll_of_nodup {sorts : List (String × Direction)}
    (h : (sorts.map Prod.fst).Nodup) : (pushAll sorts).keys = sorts := by
  induction sorts using List.reverseRecOn with
  | nil => rfl
  | append_singleton sorts sort ih =>
      rw [List.map_append, List.map_singleton, ← List.concat_eq_append, List.nodup_concat] at h
      have hnew : ((pushAll sorts).keys.any fun key => decide (key.1 = sort.1)) = false := by
        rw [ih h.2, List.any_eq_false]
        intro key hkey hfield
        exact h.1 (List.mem_map.mpr ⟨key, hkey, of_decide_eq_true hfield⟩)
      rw [pushAll_concat, push, hnew, if_neg Bool.false_ne_true, ih h.2]

/-! ### Comparing by values -/

/-- The lexicographic order of values, each in its direction. -/
def compareOn {α : Type} (value : α → String → Value) (a b : α) :
    List (String × Direction) → Ordering
  | [] => .eq
  | (field, direction) :: rest =>
    (direction.apply ((value a field).sortCompare (value b field))).then (compareOn value a b rest)

/-- Documents that stand for others are compared as these are. -/
theorem compareKeys_map {α : Type} (value : α → String → Value) (row : α → Document)
    (target : String → String) {keys : List (String × Direction)} {a b : α}
    (ha : ∀ key ∈ keys, sortValue (row a) (target key.1) = value a key.1)
    (hb : ∀ key ∈ keys, sortValue (row b) (target key.1) = value b key.1) :
    compareKeys (row a) (row b) (keys.map fun key => (target key.1, key.2)) =
      compareOn value a b keys := by
  induction keys with
  | nil => rfl
  | cons key rest ih =>
      rw [List.forall_mem_cons] at ha hb
      rw [List.map_cons, compareKeys, compareOn, ih ha.2 hb.2, ha.1, hb.1]

end DocumentBase.SortSpec
