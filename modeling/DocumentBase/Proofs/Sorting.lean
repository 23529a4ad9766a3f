import Mathlib.Data.List.Basic
import Mathlib.Data.List.Induction
import DocumentBase.Sorting

/-!
# Stable sorting

A sorted list is a permutation in which tied items keep their order, whatever the comparison
is.  It is in order when the comparison is a strict weak order on the items, and when items are
sorted by a key it is the concatenation of the stretches with the same key.
-/

namespace DocumentBase

variable {α : Type}

/-! ### Tied items -/

/-- An element is inserted before those that are tied with it in the reversed list, and behind them
in the list. -/
theorem filter_insertFromEnd {before : α → α → Bool} {p : α → Bool} {x : α} (hx : p x = true)
    {sorted : List α} (htied : ∀ y ∈ sorted, p y = true → before x y = false) :
    (insertFromEnd before x sorted).filter p = x :: sorted.filter p := by
  induction sorted with
  | nil => simp [insertFromEnd, hx]
  | cons y ys ih =>
      rw [insertFromEnd]
      by_cases hbefore : before x y = true
      · have hy : p y ≠ true := by
          intro hy
          simp [htied y (by simp) hy] at hbefore
        rw [if_pos hbefore, List.filter_cons_of_neg hy, List.filter_cons_of_neg hy]
        exact ih fun z hz => htied z (by simp [hz])
      · rw [if_neg hbefore, List.filter_cons_of_pos hx]

theorem filter_insertFromEnd_of_neg {before : α → α → Bool} {p : α → Bool} {x : α}
    (hx : p x = false) (sorted : List α) :
    (insertFromEnd before x sorted).filter p = sorted.filter p := by
  induction sorted with
  | nil => simp [insertFromEnd, hx]
  | cons y ys ih =>
      rw [insertFromEnd]
      by_cases hbefore : before x y = true
      · rw [if_pos hbefore, List.filter_cons, List.filter_cons, ih]
      · rw [if_neg hbefore, List.filter_cons_of_neg (by simp [hx])]

theorem stableSort_concat (before : α → α → Bool) (xs : List α) (x : α) :
    stableSort before (xs ++ [x]) =
      (insertFromEnd before x (stableSort before xs).reverse).reverse := by
  simp [stableSort]

theorem mem_stableSort {before : α → α → Bool} {xs : List α} {x : α} :
    x ∈ stableSort before xs ↔ x ∈ xs :=
  (perm_stableSort before xs).mem_iff

/-- Items none of which comes before another keep their order. -/
theorem filter_stableSort {before : α → α → Bool} {p : α → Bool} {xs : List α}
    (htied : ∀ x ∈ xs, ∀ y ∈ xs, p x = true → p y = true → before x y = false) :
    (stableSort before xs).filter p = xs.filter p := by
  induction xs using List.reverseRecOn with
  | nil => rfl
  | append_singleton xs x ih =>
      have hinit := ih fun a ha b hb => htied a (by simp [ha]) b (by simp [hb])
      rw [stableSort_concat, List.filter_reverse, List.filter_append]
      by_cases hx : p x = true
      · have hsorted : ∀ y ∈ (stableSort before xs).reverse, p y = true →
            before x y = false := by
          intro y hy hpy
          have hmem : y ∈ xs := by simpa [mem_stableSort] using hy
          exact htied x (by simp) y (by simp [hmem]) hx hpy
        rw [filter_insertFromEnd hx hsorted, List.filter_reverse, hinit]
        simp [hx]
      · rw [filter_insertFromEnd_of_neg (by simpa using hx), List.filter_reverse, hinit]
        simp [hx]

theorem stableSort_of_tied {before : α → α → Bool} {xs : List α}
    (htied : ∀ x ∈ xs, ∀ y ∈ xs, before x y = false) : stableSort before xs = xs := by
  have hfilter : (stableSort before xs).filter (fun _ => true) = xs.filter fun _ => true :=
    filter_stableSort fun x hx y hy _ _ => htied x hx y hy
  simpa using hfilter

/-! ### Order -/

/-- On the items with a property, coming before is a strict order of ranks. -/
structure RanksOn (before : α → α → Bool) (P : α → Prop) : Prop where
  asymm : ∀ {a b}, P a → P b → before a b = true → before b a = false
  trans : ∀ {a b c}, P a → P b → P c → before b a = false → before c b = false →
    before c a = false

/-- No item comes before an earlier one. -/
def InOrder (before : α → α → Bool) (xs : List α) : Prop :=
  xs.Pairwise fun earlier later => before later earlier = false

/-- Inserting into a sorted list gives a sorted list. -/
theorem pairwise_insertFromEnd {before : α → α → Bool} {P : α → Prop}
    (hranks : RanksOn before P) {x : α} (hx : P x) {sorted : List α} (hP : ∀ y ∈ sorted, P y)
    (hsorted : sorted.Pairwise fun later earlier => before later earlier = false) :
    (insertFromEnd before x sorted).Pairwise fun later earlier =>
      before later earlier = false := by
  induction sorted with
  | nil => simp [insertFromEnd]
  | cons y ys ih =>
      have hy : P y := hP y (by simp)
      have hys : ∀ z ∈ ys, P z := fun z hz => hP z (by simp [hz])
      rw [List.pairwise_cons] at hsorted
      rw [insertFromEnd]
      by_cases hbefore : before x y = true
      · rw [if_pos hbefore, List.pairwise_cons]
        constructor
        · intro z hz
          rcases List.mem_cons.mp ((perm_insertFromEnd before x ys).mem_iff.mp hz) with rfl | hz
          · exact hranks.asymm hx hy hbefore
          · exact hsorted.1 z hz
        · exact ih hys hsorted.2
      · have hxy : before x y = false := by simpa using hbefore
        rw [if_neg hbefore, List.pairwise_cons, List.pairwise_cons]
        constructor
        · intro z hz
          rcases List.mem_cons.mp hz with rfl | hz
          · exact hxy
          · exact hranks.trans (hys z hz) hy hx (hsorted.1 z hz) hxy
        · exact hsorted

/-- Sorting puts elements in order when they are all comparable. -/
theorem inOrder_stableSort {before : α → α → Bool} {P : α → Prop} (hranks : RanksOn before P)
    {xs : List α} (hP : ∀ x ∈ xs, P x) : InOrder before (stableSort before xs) := by
  induction xs using List.reverseRecOn with
  | nil => exact List.Pairwise.nil
  | append_singleton xs x ih =>
      have hinit : InOrder before (stableSort before xs) := ih fun y hy => hP y (by simp [hy])
      have hmem : ∀ y ∈ (stableSort before xs).reverse, P y := by
        intro y hy
        have hxs : y ∈ xs := by simpa [mem_stableSort] using hy
        exact hP y (by simp [hxs])
      rw [stableSort_concat, InOrder, List.pairwise_reverse]
      exact pairwise_insertFromEnd hranks (hP x (by simp)) hmem (List.pairwise_reverse.mpr hinit)

/-- A list is sorted, and tied items stand in it as they did before. -/
structure StablySorted (before : α → α → Bool) (xs sorted : List α) : Prop where
  perm : sorted.Perm xs
  order : InOrder before sorted
  tied : ∀ p : α → Bool,
    (∀ x ∈ xs, ∀ y ∈ xs, p x = true → p y = true → before x y = false) →
      sorted.filter p = xs.filter p

theorem SortSpec.sort_of_isEmpty {s : SortSpec} (h : s.isEmpty = true)
    (documents : List Document) : s.sort documents = documents := by
  apply stableSort_of_tied
  intro x _ y _
  rw [SortSpec.compare, List.isEmpty_iff.mp h]
  rfl

/-- Sorting rearranges, puts in order and keeps those in their order that are tied. -/
theorem stablySorted_stableSort {before : α → α → Bool} {P : α → Prop}
    (hranks : RanksOn before P) {xs : List α} (hP : ∀ x ∈ xs, P x) :
    StablySorted before xs (stableSort before xs) where
  perm := perm_stableSort before xs
  order := inOrder_stableSort hranks hP
  tied := fun _ htied => filter_stableSort htied

/-- Sorting looks at nothing else than the comparison. -/
theorem StablySorted.congr {before other : α → α → Bool} {xs sorted : List α}
    (h : StablySorted before xs sorted)
    (hsame : ∀ x ∈ xs, ∀ y ∈ xs, before x y = other x y) : StablySorted other xs sorted where
  perm := h.perm
  order := by
    refine h.order.imp_of_mem fun {x y} hx hy hbefore => ?_
    rw [← hsame y (h.perm.mem_iff.mp hy) x (h.perm.mem_iff.mp hx), hbefore]
  tied := fun p htied => h.tied p fun x hx y hy hpx hpy =>
    (hsame x hx y hy).trans (htied x hx y hy hpx hpy)

/-! ### Only one arrangement -/

/-- Whether neither of two items comes before the other. -/
def areTied (before : α → α → Bool) (x y : α) : Bool :=
  !before x y && !before y x

theorem areTied_iff {before : α → α → Bool} {x y : α} :
    areTied before x y = true ↔ before x y = false ∧ before y x = false := by
  simp [areTied]

theorem RanksOn.irrefl {before : α → α → Bool} {P : α → Prop} (h : RanksOn before P) {x : α}
    (hx : P x) : before x x = false := by
  cases hbefore : before x x with
  | false => rfl
  | true => rw [← h.asymm hx hx hbefore, hbefore]

/-- Items that are tied with the same one are tied. -/
theorem RanksOn.not_before_of_tied {before : α → α → Bool} {P : α → Prop} (h : RanksOn before P)
    {x y z : α} (hx : P x) (hy : P y) (hz : P z) (hxy : areTied before x y = true)
    (hxz : areTied before x z = true) : before y z = false :=
  h.trans hz hx hy (areTied_iff.mp hxz).1 (areTied_iff.mp hxy).2

/-- Lists in order are equal if they have the same items and agree on the tied ones. -/
theorem eq_of_inOrder {before : α → α → Bool} {P : α → Prop} (hranks : RanksOn before P)
    {xs ys : List α} (hP : ∀ x ∈ xs, P x) (hperm : xs.Perm ys) (hxs : InOrder before xs)
    (hys : InOrder before ys)
    (htied : ∀ x ∈ xs, xs.filter (areTied before x) = ys.filter (areTied before x)) : xs = ys := by
  induction xs generalizing ys with
  | nil => exact hperm.nil_eq
  | cons x xs ih =>
      cases ys with
      | nil => exact absurd hperm.symm.nil_eq (by simp)
      | cons y ys =>
          have hx : P x := hP x (by simp)
          -- both items are least, so they are tied, and each is the first of those
          have hxy : areTied before x y = true := by
            rw [areTied_iff]
            constructor
            · rcases List.mem_cons.mp (hperm.mem_iff.mp List.mem_cons_self) with rfl | hmem
              · exact hranks.irrefl hx
              · exact (List.pairwise_cons.mp hys).1 x hmem
            · rcases List.mem_cons.mp (hperm.mem_iff.mpr List.mem_cons_self) with rfl | hmem
              · exact hranks.irrefl hx
              · exact (List.pairwise_cons.mp hxs).1 y hmem
          have hxx : areTied before x x = true :=
            areTied_iff.mpr ⟨hranks.irrefl hx, hranks.irrefl hx⟩
          have hfirst := htied x (by simp)
          rw [List.filter_cons_of_pos hxx, List.filter_cons_of_pos hxy] at hfirst
          obtain rfl : x = y := (List.cons.inj hfirst).1
          refine congrArg (x :: ·) (ih (fun z hz => hP z (by simp [hz]))
            ((List.perm_cons x).mp hperm) (List.pairwise_cons.mp hxs).2
            (List.pairwise_cons.mp hys).2 fun z hz => ?_)
          have hall := htied z (by simp [hz])
          rw [List.filter_cons, List.filter_cons] at hall
          split at hall
          · exact (List.cons.inj hall).2
          · exact hall

/-- However a list is sorted, if tied items keep their order then the result is the same. -/
theorem StablySorted.unique {before : α → α → Bool} {P : α → Prop} (hranks : RanksOn before P)
    {xs ys zs : List α} (hP : ∀ x ∈ xs, P x) (hys : StablySorted before xs ys)
    (hzs : StablySorted before xs zs) : ys = zs := by
  have hmem : ∀ y ∈ ys, P y := fun y hy => hP y (hys.perm.mem_iff.mp hy)
  refine eq_of_inOrder hranks hmem (hys.perm.trans hzs.perm.symm) hys.order hzs.order ?_
  intro y hy
  have hclass : ∀ a ∈ xs, ∀ b ∈ xs, areTied before y a = true → areTied before y b = true →
      before a b = false :=
    fun a ha b hb => hranks.not_before_of_tied (hmem y hy) (hP a ha) (hP b hb)
  rw [hys.tied _ hclass, hzs.tied _ hclass]

/-! ### Items that stand for others -/

section Images

variable {β : Type} {before : β → β → Bool}

theorem RanksOn.comap {P : β → Prop} (h : RanksOn before P) (f : α → β) :
    RanksOn (fun a b => before (f a) (f b)) fun a => P (f a) where
  asymm := h.asymm
  trans := h.trans

theorem insertFromEnd_map (f : α → β) (x : α) (sorted : List α) :
    insertFromEnd before (f x) (sorted.map f) =
      (insertFromEnd (fun a b => before (f a) (f b)) x sorted).map f := by
  induction sorted with
  | nil => rfl
  | cons y ys ih =>
      rw [List.map_cons, insertFromEnd, insertFromEnd]
      split
      · rw [ih, List.map_cons]
      · rfl

theorem stableSort_map (f : α → β) (xs : List α) :
    stableSort before (xs.map f) = (stableSort (fun a b => before (f a) (f b)) xs).map f := by
  induction xs using List.reverseRecOn with
  | nil => rfl
  | append_singleton xs x ih =>
      rw [List.map_append, List.map_singleton, stableSort_concat, stableSort_concat, ih,
        ← List.map_reverse, insertFromEnd_map, List.map_reverse]

end Images

/-! ### Sorting by a key -/

theorem ranksOn_key (key : α → Nat) :
    RanksOn (fun a b => key a < key b) fun _ => True where
  asymm := by
    intro a b _ _ h
    simp only [decide_eq_true_eq, decide_eq_false_iff_not] at *
    omega
  trans := by
    intro a b c _ _ _ hab hbc
    simp only [decide_eq_false_iff_not] at *
    omega

/-- The items of the least key stand first. -/
theorem filter_append_filter_of_least {key : α → Nat} {k : Nat} {xs : List α}
    (horder : InOrder (fun a b => key a < key b) xs) (hleast : ∀ x ∈ xs, k ≤ key x) :
    xs.filter (key · = k) ++ xs.filter (key · ≠ k) = xs := by
  induction xs with
  | nil => rfl
  | cons x xs ih =>
      rw [InOrder, List.pairwise_cons] at horder
      have hrest := ih horder.2 fun y hy => hleast y (by simp [hy])
      by_cases hx : key x = k
      · simpa [hx] using hrest
      · -- the first item is above the least key, and so is every other one
        have habove : ∀ y ∈ x :: xs, key y ≠ k := by
          intro y hy
          have hxk := hleast x (by simp)
          rcases List.mem_cons.mp hy with rfl | hy
          · exact hx
          · have hyx : ¬ key y < key x := by simpa using horder.1 y hy
            omega
        rw [List.filter_eq_nil_iff.mpr fun y hy => by simpa using habove y hy,
          List.filter_eq_self.mpr fun y hy => by simpa using habove y hy]
        rfl

/-- A list in the order of its keys is its elements with the first key, those with the second, and
so on. -/
theorem flatMap_filter_of_inOrder {key : α → Nat} {keys : List Nat} (hkeys : keys.Pairwise (· < ·))
    {xs : List α} (horder : InOrder (fun a b => key a < key b) xs)
    (hall : ∀ x ∈ xs, key x ∈ keys) :
    keys.flatMap (fun k => xs.filter (key · = k)) = xs := by
  induction keys generalizing xs with
  | nil =>
      cases xs with
      | nil => rfl
      | cons x xs => simpa using hall x (by simp)
  | cons k ks ih =>
      rw [List.pairwise_cons] at hkeys
      have hleast : ∀ x ∈ xs, k ≤ key x := by
        intro x hx
        rcases List.mem_cons.mp (hall x hx) with h | h
        · exact Nat.le_of_eq h.symm
        · exact Nat.le_of_lt (hkeys.1 _ h)
      have hrest : ks.flatMap (fun i => xs.filter (key · = i)) = xs.filter (key · ≠ k) := by
        rw [← ih hkeys.2 (horder.sublist List.filter_sublist)]
        · apply List.flatMap_congr
          intro i hi
          rw [List.filter_filter]
          apply List.filter_congr
          intro x _
          have hik : k < i := hkeys.1 i hi
          by_cases hx : key x = i
          · simp [hx, Nat.ne_of_gt hik]
          · simp [hx]
        · intro x hx
          simp only [List.mem_filter, decide_eq_true_eq] at hx
          exact (List.mem_cons.mp (hall x hx.1)).resolve_left hx.2
      rw [List.flatMap_cons, hrest]
      exact filter_append_filter_of_least horder hleast

/-- Sorting by a number gathers the elements under each of them, in their order. -/
theorem stableSort_key (key : α → Nat) {keys : List Nat} (hkeys : keys.Pairwise (· < ·))
    (xs : List α) (hall : ∀ x ∈ xs, key x ∈ keys) :
    stableSort (fun a b => key a < key b) xs =
      keys.flatMap fun k => xs.filter (key · = k) := by
  have horder : InOrder (fun a b => key a < key b)
      (stableSort (fun a b => decide (key a < key b)) xs) :=
    inOrder_stableSort (ranksOn_key key) fun _ _ => trivial
  rw [← flatMap_filter_of_inOrder hkeys horder fun x hx => hall x (mem_stableSort.mp hx)]
  apply List.flatMap_congr
  intro k _
  apply filter_stableSort
  intro x _ y _ hx hy
  simp only [decide_eq_true_eq, decide_eq_false_iff_not] at *
  omega

end DocumentBase
