import Mathlib.Algebra.GroupWithZero.Nat
import Mathlib.Data.List.Induction
import Mathlib.Data.List.Perm.Basic
import DocumentBase.Pipeline.Execution
import DocumentBase.Proofs.Value.Likeness

/-!
# Groups and the order of rows

Rows in another order make the same groups in another order.  The key of a group is taken from
its first row, so keys are only alike, and its members come in another order too: of the
accumulators only counting does not notice.
-/

namespace DocumentBase

open Value

/-! ### Lists in another order -/

/-- The items of one list are related to those of the other, in some order. -/
inductive Rearranged {α : Type} (R : α → α → Prop) : List α → List α → Prop
  | nil : Rearranged R [] []
  | cons {a b : α} {xs ys : List α} (hab : R a b) (h : Rearranged R xs ys) :
      Rearranged R (a :: xs) (b :: ys)
  | swap (a b : α) (xs : List α) : Rearranged R (a :: b :: xs) (b :: a :: xs)
  | trans {xs ys zs : List α} (hxy : Rearranged R xs ys) (hyz : Rearranged R ys zs) :
      Rearranged R xs zs

namespace Rearranged

variable {α : Type} {R : α → α → Prop}

theorem refl (hR : ∀ a, R a a) (xs : List α) : Rearranged R xs xs := by
  induction xs with
  | nil => exact .nil
  | cons a xs ih => exact .cons (hR a) ih

theorem forall_mem {P : α → Prop} (hP : ∀ a b, R a b → P a → P b) {xs ys : List α}
    (h : Rearranged R xs ys) (hxs : ∀ a ∈ xs, P a) : ∀ b ∈ ys, P b := by
  induction h with
  | nil => exact hxs
  | cons hab _ ih =>
      intro c hc
      rcases List.mem_cons.mp hc with rfl | hc
      · exact hP _ _ hab (hxs _ (by simp))
      · exact ih (fun a ha => hxs a (by simp [ha])) c hc
  | swap a b xs => exact fun c hc => hxs c (by simpa [or_left_comm] using hc)
  | trans _ _ ih₁ ih₂ => exact ih₂ (ih₁ hxs)

theorem sum_map_eq {f : α → Nat} (hf : ∀ a b, R a b → f a = f b) {xs ys : List α}
    (h : Rearranged R xs ys) : (xs.map f).sum = (ys.map f).sum := by
  induction h with
  | nil => rfl
  | cons hab _ ih => rw [List.map_cons, List.map_cons, List.sum_cons, List.sum_cons, ih, hf _ _ hab]
  | swap a b xs =>
      simp only [List.map_cons, List.sum_cons]
      omega
  | trans _ _ ih₁ ih₂ => exact ih₁.trans ih₂

end Rearranged

/-! ### Numbers of the least width -/

namespace Accumulator

theorem toInt_ofInt_of_fits64 {n : Int} (h : fits64 n = true) : (Int64.ofInt n).toInt = n := by
  simp only [fits64, Bool.and_eq_true, decide_eq_true_eq] at h
  exact Int64.toInt_ofInt_of_le (by omega) (by omega)

theorem integer?_narrow {n : Int} (h : fits64 n = true) : (narrow n).integer? = some n := by
  rw [narrow]
  split
  · rename_i hshort
    simp only [fits32, Bool.and_eq_true, decide_eq_true_eq] at hshort
    exact congrArg some (Int32.toInt_ofInt_of_le (by omega) (by omega))
  · exact congrArg some (toInt_ofInt_of_fits64 h)

end Accumulator

/-! ### Placing rows -/

namespace GroupSpec

/-- Groups with like keys and the same members. -/
def GroupLike (a b : Value × List Document) : Prop :=
  Like a.1 b.1 ∧ a.2.Perm b.2

theorem GroupLike.refl (a : Value × List Document) : GroupLike a a :=
  ⟨.refl _, .refl _⟩

/-- No two groups have the same key. -/
def DistinctKeys (gs : Groups) : Prop :=
  gs.Pairwise fun a b => a.1.same b.1 = false

/-- Groups in another order, with like keys, have different keys as well. -/
theorem DistinctKeys.rearranged {gs gs' : Groups} (h : Rearranged GroupLike gs gs')
    (hgs : DistinctKeys gs) : DistinctKeys gs' := by
  induction h with
  | nil => exact hgs
  | @cons a b xs ys hab hrest ih =>
      rw [DistinctKeys, List.pairwise_cons] at *
      refine ⟨?_, ih hgs.2⟩
      have hothers : ∀ c ∈ xs, b.1.same c.1 = false :=
        fun c hc => hab.1.same_eq c.1 ▸ hgs.1 c hc
      apply Rearranged.forall_mem (P := fun c => b.1.same c.1 = false) _ hrest hothers
      intro c d hcd hc
      rw [← hcd.1.same_right, hc]
  | swap a b xs =>
      simp only [DistinctKeys, List.pairwise_cons, List.mem_cons, forall_eq_or_imp] at *
      obtain ⟨⟨hab, ha⟩, hb, hxs⟩ := hgs
      exact ⟨⟨by rw [same_comm, hab], hb⟩, ha, hxs⟩
  | trans _ _ ih₁ ih₂ => exact ih₂ (ih₁ hgs)

/-- Placing a row brings no key but that of the row. -/
theorem key_of_mem_place {row : Document} {key : Value} {gs : Groups}
    {a : Value × List Document} (ha : a ∈ place row key gs) :
    a.1 = key ∨ ∃ b ∈ gs, b.1 = a.1 := by
  induction gs with
  | nil =>
      rw [place, List.mem_singleton] at ha
      exact Or.inl (by rw [ha])
  | cons group rest ih =>
      obtain ⟨k, members⟩ := group
      rw [place] at ha
      split at ha
      · rcases List.mem_cons.mp ha with rfl | ha
        · exact Or.inr ⟨(k, members), by simp, rfl⟩
        · exact Or.inr ⟨a, by simp [ha], rfl⟩
      · rcases List.mem_cons.mp ha with rfl | ha
        · exact Or.inr ⟨(k, members), by simp, rfl⟩
        · rcases ih ha with hkey | ⟨b, hb, hkey⟩
          · exact Or.inl hkey
          · exact Or.inr ⟨b, by simp [hb], hkey⟩

theorem DistinctKeys.place {gs : Groups} (hgs : DistinctKeys gs) (row : Document) (key : Value) :
    DistinctKeys (place row key gs) := by
  induction gs with
  | nil => exact List.pairwise_singleton _ _
  | cons group rest ih =>
      obtain ⟨k, members⟩ := group
      rw [DistinctKeys, List.pairwise_cons] at hgs
      rw [GroupSpec.place]
      by_cases hkey : k.same key = true
      · rw [if_pos hkey]
        exact List.pairwise_cons.mpr hgs
      · rw [if_neg hkey]
        refine List.pairwise_cons.mpr ⟨fun a ha => ?_, ih hgs.2⟩
        rcases key_of_mem_place ha with h | ⟨b, hb, h⟩
        · rw [h]
          simpa using hkey
        · rw [← h]
          exact hgs.1 b hb

/-- Two rows may be placed in either order. -/
theorem place_swap (first second : Document) (k l : Value) (gs : Groups) :
    Rearranged GroupLike (place first k (place second l gs))
      (place second l (place first k gs)) := by
  induction gs with
  | nil =>
      by_cases hkl : l.same k = true
      · have hlk : k.same l = true := same_symm hkl
        simp only [place, if_pos hkl, if_pos hlk]
        exact .cons ⟨.same hkl, List.Perm.swap _ _ _⟩ .nil
      · have hlk : ¬ k.same l = true := fun h => hkl (same_symm h)
        simp only [place, if_neg hkl, if_neg hlk]
        exact .swap _ _ _
  | cons group rest ih =>
      obtain ⟨j, members⟩ := group
      by_cases hk : j.same k = true
      · by_cases hl : j.same l = true
        · simp only [place, if_pos hk, if_pos hl]
          refine .cons ⟨.refl j, ?_⟩ (.refl .refl rest)
          rw [List.append_assoc, List.append_assoc]
          exact List.Perm.append_left members (List.Perm.swap _ _ _)
        · simp only [place, if_pos hk, if_neg hl]
          exact .refl .refl _
      · by_cases hl : j.same l = true
        · simp only [place, if_neg hk, if_pos hl]
          exact .refl .refl _
        · simp only [place, if_neg hk, if_neg hl]
          exact .cons (.refl _) ih

/-- Placing a row makes no difference between groups in different orders. -/
theorem place_congr (row : Document) (key : Value) {gs gs' : Groups}
    (h : Rearranged GroupLike gs gs') (hgs : DistinctKeys gs) :
    Rearranged GroupLike (place row key gs) (place row key gs') := by
  induction h with
  | nil => exact .refl .refl _
  | @cons a b xs ys hab hrest ih =>
      obtain ⟨k, members⟩ := a
      obtain ⟨l, others⟩ := b
      have hkeys : k.same key = l.same key := hab.1.same_eq key
      by_cases hk : k.same key = true
      · have hl : l.same key = true := hkeys ▸ hk
        simp only [place, if_pos hk, if_pos hl]
        exact .cons ⟨hab.1, hab.2.append_right [row]⟩ hrest
      · have hl : ¬ l.same key = true := hkeys ▸ hk
        simp only [place, if_neg hk, if_neg hl]
        exact .cons hab (ih (List.pairwise_cons.mp hgs).2)
  | swap a b xs =>
      obtain ⟨k, members⟩ := a
      obtain ⟨l, others⟩ := b
      by_cases hk : k.same key = true
      · by_cases hl : l.same key = true
        · -- both groups would be that of the key, but no two have the same
          have hdistinct : k.same l = false := (List.pairwise_cons.mp hgs).1 (l, others) (by simp)
          simp [same_trans hk (same_symm hl)] at hdistinct
        · simp only [place, if_pos hk, if_neg hl]
          exact .swap _ _ _
      · by_cases hl : l.same key = true
        · simp only [place, if_neg hk, if_pos hl]
          exact .swap _ _ _
        · simp only [place, if_neg hk, if_neg hl]
          exact .swap _ _ _
  | trans hxy _ ih₁ ih₂ => exact (ih₁ hgs).trans (ih₂ (hgs.rearranged hxy))

/-! ### All groups -/

section Rows

variable (g : GroupSpec)

/-- Only the key decides which groups there are. -/
theorem groups_of_key {h : GroupSpec} (hkey : g.key = h.key) (rows : List Document) :
    g.groups rows = h.groups rows := by
  rw [groups, groups, hkey]

/-- Places rows one after the other. -/
def placeAll (rows : List Document) (gs : Groups) : Groups :=
  rows.foldl (fun gs row => place row (g.key.ofRow row) gs) gs

/-- Groups that differ in their order only differ in nothing else once more rows are placed. -/
theorem placeAll_congr (rows : List Document) {gs gs' : Groups}
    (h : Rearranged GroupLike gs gs') (hgs : DistinctKeys gs) :
    Rearranged GroupLike (g.placeAll rows gs) (g.placeAll rows gs') := by
  induction rows generalizing gs gs' with
  | nil => exact h
  | cons row rest ih => exact ih (place_congr row _ h hgs) (hgs.place row _)

/-- Rows in another order come into the same groups, which may stand in another order. -/
theorem rearranged_placeAll {rows rows' : List Document} (hrows : rows.Perm rows')
    {gs : Groups} (hgs : DistinctKeys gs) :
    Rearranged GroupLike (g.placeAll rows gs) (g.placeAll rows' gs) := by
  induction hrows generalizing gs with
  | nil => exact .refl .refl _
  | cons row _ ih => exact ih (hgs.place row _)
  | swap row other rest =>
      have hswap := place_swap row other (g.key.ofRow row) (g.key.ofRow other) gs
      exact g.placeAll_congr rest hswap ((hgs.place other _).place row _)
  | trans _ _ ih₁ ih₂ => exact (ih₁ hgs).trans (ih₂ hgs)

/-- Rows in another order make the same groups in another order. -/
theorem rearranged_groups {rows rows' : List Document} (hrows : rows.Perm rows') :
    Rearranged GroupLike (g.groups rows) (g.groups rows') :=
  g.rearranged_placeAll hrows List.Pairwise.nil

end Rows

/-! ### The rows that groups are summed up in -/

section Summary

variable {g : GroupSpec} {name : String}

/-- The last accumulator with an output name decides what is there. -/
theorem value?_summary (key : Value) (members : List Document) (name : String) :
    (g.summary key members).value? name =
      ((g.accumulators.filter (·.1 = name)).getLast?.map fun entry =>
        entry.2.apply members).or (Document.value? [(Item.idField, key)] name) := by
  rw [summary]
  induction g.accumulators using List.reverseRecOn with
  | nil => rfl
  | append_singleton entries entry ih =>
      obtain ⟨output, accumulator⟩ := entry
      rw [List.foldl_append, List.filter_append]
      by_cases hname : output = name
      · subst hname
        simp
      · rw [List.foldl_cons, List.foldl_nil, Document.value?_put_ne _ _ hname, ih]
        simp [hname]

/-- Other outputs keep their accumulators. -/
theorem filter_upsert_ne {other : String} (hother : other ≠ name) (accumulator : Accumulator) :
    (g.upsert other accumulator).accumulators.filter (·.1 = name) =
      g.accumulators.filter (·.1 = name) := by
  unfold upsert
  split
  · induction g.accumulators with
    | nil => rfl
    | cons entry rest ih =>
        rw [List.map_cons]
        by_cases hentry : entry.1 = other
        · have hname : ¬ entry.1 = name := fun h => hother (hentry.symm.trans h)
          rw [if_pos hentry, List.filter_cons_of_neg (by simpa using hother),
            List.filter_cons_of_neg (by simpa using hname), ih]
        · rw [if_neg hentry, List.filter_cons, List.filter_cons, ih]
  · simp [hother]

/-- Other accumulators do not change what is at a name. -/
theorem value?_summary_upsert {other : String} (hother : other ≠ name)
    (accumulator : Accumulator) (key : Value) (members : List Document) :
    ((g.upsert other accumulator).summary key members).value? name =
      (g.summary key members).value? name := by
  rw [value?_summary, value?_summary, filter_upsert_ne hother]

/-- Without an accumulator only the identity is there. -/
theorem value?_summary_of_not_hasOutput (h : g.hasOutput name = false) (key : Value)
    (members : List Document) :
    (g.summary key members).value? name = Document.value? [(Item.idField, key)] name := by
  have hfilter : g.accumulators.filter (·.1 = name) = [] := by
    simpa [hasOutput, List.filter_eq_nil_iff] using h
  rw [value?_summary, hfilter]
  rfl

/-- Like groups have like values at names where nothing else than counting is accumulated. -/
theorem rel_summary {a b : Value × List Document} (hab : GroupLike a b)
    (hcount : ∀ entry ∈ g.accumulators, entry.1 = name → entry.2 = .count) :
    Option.Rel Like ((g.summary a.1 a.2).value? name) ((g.summary b.1 b.2).value? name) := by
  rw [value?_summary, value?_summary]
  cases hlast : (g.accumulators.filter (·.1 = name)).getLast? with
  | none =>
      rw [Document.value?_cons, Document.value?_cons]
      by_cases hid : Item.idField = name
      · rw [if_pos hid, if_pos hid]
        exact .some hab.1
      · rw [if_neg hid, if_neg hid]
        exact .none
  | some entry =>
      have hmem := List.mem_of_getLast? hlast
      rw [List.mem_filter, decide_eq_true_eq] at hmem
      have hvalue : entry.2.apply a.2 = entry.2.apply b.2 := by
        rw [hcount entry hmem.1 hmem.2, Accumulator.apply, Accumulator.apply,
          hab.2.length_eq]
      simp only [Option.map_some, Option.some_or, hvalue]
      exact .some (.refl _)

end Summary

end GroupSpec

end DocumentBase
