import DocumentBase.Proofs.Sorting.Keys

/-!
# The lexicographic order of documents

Of two documents the one comes first that does so at the first key at which they differ, in the
direction of that key.  A sort puts documents into this order and leaves those in their order that
are tied at every key.  There is only one such arrangement, so nothing else is to be known of the
way in which documents are sorted.
-/

namespace DocumentBase.SortSpec

/-- The order of two documents at one key, as seen in its direction. -/
def compareAt (key : String × Direction) (left right : Document) : Ordering :=
  key.2.apply ((sortValue left key.1).sortCompare (sortValue right key.1))

/-- At the first key at which two documents differ, the earlier one comes first. -/
def Precedes (s : SortSpec) (earlier later : Document) : Prop :=
  ∃ before key after, s.keys = before ++ key :: after ∧
    (∀ other ∈ before, compareAt other earlier later = .eq) ∧ compareAt key earlier later = .lt

/-- Two documents are equal at every key. -/
def tied (s : SortSpec) (left right : Document) : Bool :=
  s.keys.all fun key => compareAt key left right == .eq

/-- Documents are put in the order of the keys, and those that are tied stay in theirs. -/
structure Arranges (s : SortSpec) (documents sorted : List Document) : Prop where
  perm : sorted.Perm documents
  order : sorted.Pairwise fun earlier later =>
    s.Precedes earlier later ∨ s.tied earlier later = true
  stable : ∀ d ∈ documents, sorted.filter (s.tied d) = documents.filter (s.tied d)

/-! ### Comparing key by key -/

variable {s : SortSpec} {left right : Document}

theorem compareKeys_cons (key : String × Direction) (rest : List (String × Direction)) :
    compareKeys left right (key :: rest) =
      (compareAt key left right).then (compareKeys left right rest) := rfl

theorem compareKeys_eq_eq_iff {keys : List (String × Direction)} :
    compareKeys left right keys = .eq ↔ ∀ key ∈ keys, compareAt key left right = .eq := by
  induction keys with
  | nil => simp [compareKeys]
  | cons key rest ih => rw [compareKeys_cons, Ordering.then_eq_eq, ih, List.forall_mem_cons]

/-- A document is less by the first key on which it differs. -/
theorem compareKeys_eq_lt_iff {keys : List (String × Direction)} :
    compareKeys left right keys = .lt ↔ ∃ before key after, keys = before ++ key :: after ∧
      (∀ other ∈ before, compareAt other left right = .eq) ∧ compareAt key left right = .lt := by
  induction keys with
  | nil => simp [compareKeys]
  | cons first rest ih =>
      rw [compareKeys_cons, Ordering.then_eq_lt, ih]
      constructor
      · rintro (hlt | ⟨heq, before, key, after, rfl, hbefore, hlt⟩)
        · exact ⟨[], first, rest, rfl, List.forall_mem_nil _, hlt⟩
        · exact ⟨first :: before, key, after, rfl, List.forall_mem_cons.mpr ⟨heq, hbefore⟩, hlt⟩
      · rintro ⟨before, key, after, hkeys, hbefore, hlt⟩
        cases before with
        | nil =>
            cases hkeys
            exact .inl hlt
        | cons _ before =>
            cases hkeys
            obtain ⟨heq, hbefore⟩ := List.forall_mem_cons.mp hbefore
            exact .inr ⟨heq, before, key, after, rfl, hbefore, hlt⟩

theorem tied_iff : s.tied left right = true ↔ s.compare left right = .eq := by
  simp [tied, compare, compareKeys_eq_eq_iff]

theorem precedes_iff : s.Precedes left right ↔ s.compare left right = .lt :=
  compareKeys_eq_lt_iff.symm

/-! ### Comparable documents -/

theorem compare_swap (hleft : s.Comparable left) (hright : s.Comparable right) :
    s.compare left right = (s.compare right left).swap := by
  rw [compare, compare, compareKeys_eq hleft hright, compareKeys_eq hright hleft]
  exact Std.OrientedCmp.eq_swap

theorem areTied_eq_tied (hleft : s.Comparable left) (hright : s.Comparable right) :
    areTied (fun left right => s.compare left right == .lt) left right = s.tied left right := by
  rw [Bool.eq_iff_iff, areTied_iff, tied_iff, compare_swap hright hleft]
  cases s.compare left right <;> decide

theorem not_before_iff (hearlier : s.Comparable left) (hlater : s.Comparable right) :
    (s.compare right left == .lt) = false ↔
      s.Precedes left right ∨ s.tied left right = true := by
  rw [precedes_iff, tied_iff, compare_swap hlater hearlier]
  cases s.compare left right <;> decide

/-- Documents that are tied with the same one are tied. -/
theorem not_before_of_tied {d : Document} (hd : s.Comparable d) (hleft : s.Comparable left)
    (hright : s.Comparable right) (htied : s.tied d left = true) (htied' : s.tied d right = true) :
    (s.compare left right == .lt) = false := by
  rw [← areTied_eq_tied hd hleft] at htied
  rw [← areTied_eq_tied hd hright] at htied'
  exact s.ranksOn_compare.not_before_of_tied hd hleft hright htied htied'

/-- Documents are arranged exactly if they are sorted with tied ones in their order. -/
theorem arranges_iff {documents sorted : List Document} (h : ∀ d ∈ documents, s.Comparable d) :
    s.Arranges documents sorted ↔
      StablySorted (fun left right => s.compare left right == .lt) documents sorted := by
  constructor
  · intro harranges
    have hsorted : ∀ d ∈ sorted, s.Comparable d := fun d hd => h d (harranges.perm.mem_iff.mp hd)
    refine ⟨harranges.perm, ?_, fun p hp => ?_⟩
    · exact harranges.order.imp_of_mem fun {x y} hx hy hxy =>
        (not_before_iff (hsorted x hx) (hsorted y hy)).mpr hxy
    · by_cases hnone : ∃ d ∈ documents, p d = true
      · obtain ⟨d, hd, hpd⟩ := hnone
        -- the items with the property all belong to the documents that are tied with one of them
        have hclass : ∀ x ∈ documents, (p x && s.tied d x) = p x := by
          intro x hx
          cases hpx : p x with
          | false => rfl
          | true =>
              rw [Bool.true_and, ← areTied_eq_tied (h d hd) (h x hx), areTied_iff]
              exact ⟨hp d hd x hx hpd hpx, hp x hx d hd hpx hpd⟩
        have hstable := congrArg (List.filter p) (harranges.stable d hd)
        rw [List.filter_filter, List.filter_filter] at hstable
        rw [← List.filter_congr hclass, ← hstable]
        exact List.filter_congr fun x hx => (hclass x (harranges.perm.mem_iff.mp hx)).symm
      · have hno : ∀ d ∈ documents, ¬ p d = true := fun d hd hpd => hnone ⟨d, hd, hpd⟩
        rw [List.filter_eq_nil_iff.mpr hno, List.filter_eq_nil_iff]
        exact fun d hd => hno d (harranges.perm.mem_iff.mp hd)
  · intro hsorted
    refine ⟨hsorted.perm, ?_, fun d hd => hsorted.tied _ fun x hx y hy => ?_⟩
    · refine hsorted.order.imp_of_mem fun {x y} hx hy hxy => ?_
      exact (not_before_iff (h x (hsorted.perm.mem_iff.mp hx))
        (h y (hsorted.perm.mem_iff.mp hy))).mp hxy
    · exact not_before_of_tied (h d hd) (h x hx) (h y hy)

/-- Sorting arranges documents without NaN at the keys. -/
theorem arranges_sort {documents : List Document} (h : ∀ d ∈ documents, s.Comparable d) :
    s.Arranges documents (s.sort documents) :=
  (arranges_iff h).mpr (stablySorted_sort h)

/-- There is one way only to arrange documents, whatever algorithm finds it. -/
theorem Arranges.eq_sort {documents sorted : List Document}
    (h : ∀ d ∈ documents, s.Comparable d) (harranges : s.Arranges documents sorted) :
    sorted = s.sort documents :=
  ((arranges_iff h).mp harranges).unique s.ranksOn_compare h (stablySorted_sort h)

/-- Values other than NaN are in a total preorder, and a sort arranges documents without NaN at its
keys lexicographically, in the only way in which tied documents keep their order. -/
theorem sorts_lexicographically :
    (∀ v : Value, v.isNaN = false → v.sortCompare v = .eq) ∧
      (∀ v w : Value, v.isNaN = false → w.isNaN = false →
        v.sortCompare w = (w.sortCompare v).swap) ∧
      (∀ u v w : Value, u.isNaN = false → v.isNaN = false → w.isNaN = false →
        (u.sortCompare v).isLE = true → (v.sortCompare w).isLE = true →
          (u.sortCompare w).isLE = true) ∧
      ∀ (s : SortSpec) (documents : List Document), (∀ d ∈ documents, s.Comparable d) →
        s.Arranges documents (s.sort documents) ∧
          ∀ sorted, s.Arranges documents sorted → sorted = s.sort documents :=
  ⟨fun _ => Value.sortCompare_self, fun _ _ => Value.sortCompare_swap,
    fun _ _ _ => Value.sortCompare_trans,
    fun _ _ h => ⟨arranges_sort h, fun _ harranges => harranges.eq_sort h⟩⟩

namespace LexicographicExample

/-- Notes by their rank, from the last to the first, and then by their texts. -/
def byRank : SortSpec :=
  (SortSpec.empty.push "rank" .descending).push "text" .ascending

def note (id : Int32) (fields : Document) : Document :=
  ("_id", .int32 id) :: fields

/-- Ranks of several kinds, one of them missing, and two notes that are tied. -/
def notes : List Document :=
  [note 1 [("text", .string "b")],
    note 2 [("rank", .int64 7), ("text", .string "b")],
    note 3 [("rank", .double ⟨0x401c000000000000⟩), ("text", .string "a")],
    note 4 [("rank", .array [.double Double.nan]), ("text", .string "a")],
    note 5 [("rank", .int32 7), ("text", .string "b")]]

def ids (documents : List Document) : List (Option Int) :=
  documents.map fun d => (d.value? "_id").bind Value.integer?

theorem comparable {d : Document} (hd : d ∈ notes) : byRank.Comparable d := by
  have hall : ∀ d ∈ notes, ∀ key ∈ byRank.keys, (sortValue d key.1).isNaN = false := by
    decide +kernel
  exact hall d hd

end LexicographicExample

open LexicographicExample in
theorem sorts_lexicographically_of_mixed_ranks :
    ids (byRank.sort notes) = [some 4, some 3, some 2, some 5, some 1] ∧
      byRank.Arranges notes (byRank.sort notes) ∧
      ((Value.int32 7).sortCompare (.string "a")).isLE = true ∧
      ((Value.int32 7).sortCompare (.array [.double Double.nan])).isLE = true := by
  obtain ⟨-, -, htrans, hsorts⟩ := sorts_lexicographically
  have hnumber : ((Value.int32 7).sortCompare (.string "a")).isLE = true := by decide +kernel
  refine ⟨by decide +kernel, (hsorts byRank notes fun _ => comparable).1, hnumber, ?_⟩
  exact htrans _ (.string "a") _ rfl rfl rfl hnumber (by decide +kernel)

end DocumentBase.SortSpec
