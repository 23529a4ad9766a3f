import Mathlib.Algebra.BigOperators.Group.List.Basic
import Mathlib.Algebra.Ring.Int.Defs
import Mathlib.Data.List.Infix
import DocumentBase.Proofs.Distinct
import DocumentBase.Proofs.Grouping.Outputs
import DocumentBase.Proofs.Grouping.Partition

/-!
# Sums over groups

As long as only integers are added and no sum on the way leaves 64 bits, a sum is exact, and the
order of the values does not matter.  Groups share out their rows, so what was counted and summed
up in groups adds up to what there is altogether.
-/

namespace DocumentBase

open Value

/-! ### Sums of integers -/

namespace Accumulator

/-- The integers among values. -/
def integersOf (values : List Value) : List Int :=
  values.filterMap Value.integer?

/-- All numbers among values are integers. -/
def OnlyIntegers (values : List Value) : Prop :=
  ∀ v ∈ values, v.number?.isSome = true → v.integer?.isSome = true

instance (values : List Value) : Decidable (OnlyIntegers values) :=
  inferInstanceAs (Decidable (∀ v ∈ values, _ → _))

/-- The sums of the first so many integers all have 64 bits. -/
def SumsFit (ns : List Int) : Prop :=
  ∀ first ∈ ns.inits, fits64 first.sum = true

instance (ns : List Int) : Decidable (SumsFit ns) :=
  inferInstanceAs (Decidable (∀ first ∈ ns.inits, _))

def isWide : Value → Bool
  | .int64 _ => true
  | _ => false

/-- The exact sum of integers: one of 64 bits is not made narrower. -/
def totalOf (values : List Value) : Value :=
  if values.any isWide then .int64 (Int64.ofInt (integersOf values).sum)
  else narrow (integersOf values).sum

theorem SumsFit.sum {ns : List Int} (h : SumsFit ns) : fits64 ns.sum = true :=
  h ns ((List.mem_inits _ _).mpr (List.prefix_refl ns))

/-- What fits up to any place fits in a beginning. -/
theorem SumsFit.left {ms ns : List Int} (h : SumsFit (ms ++ ns)) : SumsFit ms :=
  fun _ hfirst =>
    h _ ((List.mem_inits _ _).mpr (((List.mem_inits _ _).mp hfirst).trans (List.prefix_append _ _)))

theorem OnlyIntegers.left {values others : List Value} (h : OnlyIntegers (values ++ others)) :
    OnlyIntegers values :=
  fun v hv => h v (List.mem_append_left _ hv)

/-- A sum becomes wide with the first wide number. -/
theorem wide_add (s : Sum) (v : Value) : (s.add v).wide = (s.wide || isWide v) := by
  cases v <;> simp [Sum.add, isWide]

theorem exact_add_of_integer {v : Value} {n : Int} (h : v.integer? = some n) (s : Sum) :
    (s.add v).exact = addInteger s.exact n := by
  cases v <;> simp [integer?] at h <;> simp [Sum.add, h]

theorem add_of_not_number {v : Value} (h : v.number? = none) (s : Sum) : s.add v = s := by
  cases v <;> first | rfl | simp [number?] at h

theorem wide_foldl_add (values : List Value) :
    (values.foldl Sum.add Sum.zero).wide = values.any isWide := by
  induction values using List.reverseRecOn with
  | nil => rfl
  | append_singleton values v ih =>
      rw [List.foldl_append, List.foldl_cons, List.foldl_nil, wide_add, ih, List.any_append,
        List.any_cons, List.any_nil, Bool.or_false]

/-- As long as every sum on the way has 64 bits, the sum that is formed is exact. -/
theorem exact_foldl_add {values : List Value} (honly : OnlyIntegers values)
    (hfit : SumsFit (integersOf values)) :
    (values.foldl Sum.add Sum.zero).exact = some (integersOf values).sum := by
  induction values using List.reverseRecOn with
  | nil => rfl
  | append_singleton values v ih =>
      have hints : integersOf (values ++ [v]) = integersOf values ++ v.integer?.toList := by
        rw [integersOf, List.filterMap_append]
        cases h : v.integer? <;> simp [integersOf, h]
      -- what was added before is the sum of one integer or none less, which has 64 bits as well
      rw [hints] at hfit ⊢
      rw [List.foldl_append, List.foldl_cons, List.foldl_nil]
      have hbefore := ih honly.left hfit.left
      cases hinteger : v.integer? with
      | some n =>
          have hsum := hfit.sum
          rw [hinteger, List.sum_append] at hsum
          rw [exact_add_of_integer hinteger, hbefore, addInteger, List.sum_append]
          simp only [Option.toList_some, List.sum_singleton] at hsum ⊢
          rw [Option.bind_some, if_pos hsum]
      | none =>
          have hnumber : v.number? = none := by
            have hv := honly v (by simp)
            rw [hinteger] at hv
            simpa using hv
          rw [add_of_not_number hnumber, hbefore, Option.toList_none, List.append_nil]

/-- Integers whose sums fit add up to their exact sum. -/
theorem sumOf_eq {values : List Value} (honly : OnlyIntegers values)
    (hfit : SumsFit (integersOf values)) : sumOf values = totalOf values := by
  rw [sumOf, Sum.value, exact_foldl_add honly hfit, wide_foldl_add, totalOf]

theorem integer?_totalOf {values : List Value} (h : fits64 (integersOf values).sum = true) :
    (totalOf values).integer? = some (integersOf values).sum := by
  rw [totalOf]
  split
  · exact congrArg some (toInt_ofInt_of_fits64 h)
  · exact integer?_narrow h

/-- The exact sum does not depend on the order. -/
theorem totalOf_perm {values others : List Value} (h : values.Perm others) :
    totalOf values = totalOf others := by
  have hsum : (integersOf values).sum = (integersOf others).sum :=
    (h.filterMap Value.integer?).sum_eq
  have hwide : values.any isWide = others.any isWide := by
    rw [Bool.eq_iff_iff, List.any_eq_true, List.any_eq_true]
    simp only [h.mem_iff]
  rw [totalOf, totalOf, hsum, hwide]

end Accumulator

/-! ### Sums in groups -/

namespace GroupSpec

open Accumulator

def valuesAt (field : String) (rows : List Document) : List Value :=
  rows.filterMap fun row => row.at? field

def integersAt (field : String) (rows : List Document) : List Int :=
  integersOf (valuesAt field rows)

/-- What the integers that all rows have at a name add up to. -/
def totalIn (name : String) (rows : List Document) : Option Int :=
  (rows.mapM fun row : Document => (row.value? name).bind Value.integer?).map List.sum

/-- Rows made of groups have the sum of what each of them was made with. -/
theorem totalIn_map {name : String} {gs : Groups} {f : Value × List Document → Document}
    {n : Value × List Document → Int}
    (h : ∀ group ∈ gs, ((f group).value? name).bind Value.integer? = some (n group)) :
    totalIn name (gs.map f) = some (gs.map n).sum := by
  have hread : ((gs.map f).mapM fun row : Document => (row.value? name).bind Value.integer?) =
      some (gs.map n) := by
    induction gs with
    | nil => rfl
    | cons group rest ih =>
        obtain ⟨hgroup, hrest⟩ := List.forall_mem_cons.mp h
        rw [List.map_cons, List.mapM_cons, hgroup, ih hrest]
        rfl
  rw [totalIn, hread, Option.map_some]

section Shares

variable (g : GroupSpec) {rows : List Document}

/-- The members of a group are among the rows. -/
theorem subperm_of_mem_groups {group : Value × List Document} (hgroup : group ∈ g.groups rows) :
    group.2.Subperm rows := by
  have hsublist := List.sublist_flatten_of_mem (List.mem_map_of_mem (f := Prod.snd) hgroup)
  rw [← List.flatMap_def] at hsublist
  exact hsublist.subperm.trans (g.perm_groups rows).subperm

/-- What adds up over lists of rows, in whatever order, adds up over groups. -/
theorem sum_groups {f : List Document → Int} (hnil : f [] = 0)
    (happend : ∀ some others, f (some ++ others) = f some + f others)
    (hperm : ∀ some others, some.Perm others → f some = f others) :
    ((g.groups rows).map fun group => f group.2).sum = f rows := by
  rw [← hperm _ _ (g.perm_groups rows)]
  induction g.groups rows with
  | nil => exact hnil.symm
  | cons group rest ih => rw [List.map_cons, List.sum_cons, ih, List.flatMap_cons, happend]

/-- The sizes of all groups add up to the number of rows. -/
theorem sum_length_groups :
    ((g.groups rows).map fun group => (group.2.length : Int)).sum = rows.length :=
  g.sum_groups (f := fun rows => rows.length) rfl
    (fun some others => by rw [List.length_append]; exact Int.natCast_add _ _)
    (fun _ _ hperm => by rw [hperm.length_eq])

/-- The sums of all groups add up to the sum over the rows. -/
theorem sum_integersAt_groups (field : String) :
    ((g.groups rows).map fun group => (integersAt field group.2).sum).sum =
      (integersAt field rows).sum :=
  g.sum_groups (f := fun rows => (integersAt field rows).sum) rfl
    (fun some others => by
      simp only [integersAt, integersOf, valuesAt, List.filterMap_append, List.sum_append])
    (fun _ _ hperm => ((hperm.filterMap _).filterMap _).sum_eq)

end Shares

section Totals

variable {g : GroupSpec} {rows : List Document} {name field : String}

/-- The counts of all groups add up to the number of rows. -/
theorem totalIn_run_count (hcount : g.output? name = some .count)
    (hfit : fits64 rows.length = true) : totalIn name (g.run rows) = some (rows.length : Int) := by
  rw [← g.sum_length_groups]
  refine totalIn_map fun group hgroup => ?_
  rw [value?_summary_of_output hcount, Option.bind_some, apply, integer?_narrow]
  have hle := (g.subperm_of_mem_groups hgroup).length_le
  simp only [fits64, Bool.and_eq_true, decide_eq_true_eq] at hfit ⊢
  omega

/-- The sum of a group is the exact one of its members in whatever order. -/
theorem value?_summary_sum (hsum : g.output? name = some (.sum field))
    (honly : OnlyIntegers (valuesAt field rows)) {group : Value × List Document}
    (hgroup : group ∈ g.groups rows) {members : List Document} (hmembers : members.Perm group.2)
    (hfit : SumsFit (integersAt field members)) :
    (g.summary group.1 members).value? name = some (totalOf (valuesAt field group.2)) := by
  have hgiven : OnlyIntegers (valuesAt field members) := by
    refine fun v hv => honly v ?_
    obtain ⟨row, hrow, hvalue⟩ := List.mem_filterMap.mp hv
    have hmember := (g.subperm_of_mem_groups hgroup).subset (hmembers.mem_iff.mp hrow)
    exact List.mem_filterMap.mpr ⟨row, hmember, hvalue⟩
  rw [value?_summary_of_output hsum]
  exact congrArg some ((sumOf_eq hgiven hfit).trans (totalOf_perm (hmembers.filterMap _)))

/-- The sums of all groups, as far as they fit, add up to the sum over the rows. -/
theorem totalIn_run_sum (hsum : g.output? name = some (.sum field))
    (honly : OnlyIntegers (valuesAt field rows))
    (hfit : ∀ group ∈ g.groups rows, SumsFit (integersAt field group.2)) :
    totalIn name (g.run rows) = some (integersAt field rows).sum := by
  rw [← sum_integersAt_groups g]
  refine totalIn_map fun group hgroup => ?_
  rw [value?_summary_sum hsum honly hgroup (.refl _) (hfit group hgroup)]
  exact integer?_totalOf (hfit group hgroup).sum

/-- A single group has the sum of all rows. -/
theorem totalIn_run_sum_all (honly : OnlyIntegers (valuesAt field rows))
    (hfit : SumsFit (integersAt field rows)) :
    totalIn name (((ofKey .all).upsert name (.sum field)).run rows) =
      some (integersAt field rows).sum := by
  have hsum : ((ofKey .all).upsert name (.sum field)).output? name = some (.sum field) :=
    (output?_upsert _ _ _).trans (if_pos rfl)
  refine totalIn_run_sum hsum honly fun group hgroup => ?_
  rw [groups_all rfl] at hgroup
  split at hgroup
  · cases hgroup
  · rw [List.mem_singleton.mp hgroup]
    exact hfit

/-- Rows are partitioned into groups by their keys, in the order of their first rows.  Counts of
the groups add up to the number of rows, of which there are fewer than `2 ^ 63`.  Exact sums of the
groups, which do not depend on the order of their members, add up to what a single group has. -/
theorem partitions_and_adds_up (g : GroupSpec) (hid : g.hasOutput Item.idField = false)
    (rows : List Document) :
    (∃ homes, Partitions g.key.ofRow rows (g.groups rows) homes ∧
      ((∀ row ∈ rows, (g.key.ofRow row).NaNFree) → ∀ {p q : Nat} {row other : Document},
        rows[p]? = some row → rows[q]? = some other →
          (homes[p]? = homes[q]? ↔ (g.key.ofRow row).same (g.key.ofRow other) = true))) ∧
      DistinctKeys (g.groups rows) ∧
      (g.run rows).map (·.value? Item.idField) = (g.groups rows).map (fun group => some group.1) ∧
      (∀ name, g.output? name = some .count → fits64 rows.length = true →
        totalIn name (g.run rows) = some (rows.length : Int)) ∧
      ∀ name field, g.output? name = some (.sum field) → OnlyIntegers (valuesAt field rows) →
        (∀ group ∈ g.groups rows, ∃ total : Value, ∀ members, members.Perm group.2 →
          SumsFit (integersAt field members) →
            (g.summary group.1 members).value? name = some total ∧
            total.integer? = some (integersAt field group.2).sum) ∧
        ((∀ group ∈ g.groups rows, SumsFit (integersAt field group.2)) →
          SumsFit (integersAt field rows) →
          ∃ total, totalIn name (g.run rows) = some total ∧
            totalIn name (((ofKey .all).upsert name (.sum field)).run rows) = some total) := by
  obtain ⟨homes, hpartition⟩ := g.exists_partitions rows
  have hkeys : (g.run rows).map (·.value? Item.idField) =
      (g.groups rows).map (fun group => some group.1) := by
    rw [run, List.map_map]
    exact List.map_congr_left fun group _ => value?_summary_of_not_hasOutput hid _ _
  refine ⟨⟨homes, hpartition, ?shared⟩, g.distinctKeys_groups rows, hkeys,
    fun _ => totalIn_run_count, fun name field hsum honly => ⟨?each, ?all⟩⟩
  case shared =>
    intro hfree p q row other hrow hother
    rw [hpartition.shared hrow hother, or_iff_right_iff_imp]
    rintro rfl
    cases hrow.symm.trans hother
    exact (hfree row (List.mem_of_getElem? hrow)).same_self
  case each =>
    intro group hgroup
    refine ⟨totalOf (valuesAt field group.2), fun members hmembers hfit =>
      ⟨value?_summary_sum hsum honly hgroup hmembers hfit, integer?_totalOf ?_⟩⟩
    have htotal : (integersAt field members).sum = (integersAt field group.2).sum :=
      ((hmembers.filterMap _).filterMap _).sum_eq
    exact htotal ▸ hfit.sum
  case all =>
    intro hfit hwhole
    exact ⟨_, totalIn_run_sum hsum honly hfit, totalIn_run_sum_all honly hwhole⟩

end Totals

/-! ### Orders of two people -/

namespace SumsExample

/-- Two orders of one person, with amounts of different widths, and one of another. -/
def orders : List Document :=
  [[("_id", .int32 1), ("by", .string "ann"), ("amount", .int32 5)],
    [("_id", .int32 2), ("by", .string "bob"), ("amount", .int32 2)],
    [("_id", .int32 3), ("by", .string "ann"), ("amount", .int64 1)]]

def tally : GroupSpec :=
  ((ofKey (.single "by")).upsert "count" .count).upsert "amountSum" (.sum "amount")

theorem naNFree_key {row : Document} (hrow : row ∈ orders) : (tally.key.ofRow row).NaNFree := by
  simp only [orders, List.mem_cons, List.not_mem_nil, or_false] at hrow
  rcases hrow with rfl | rfl | rfl <;> exact (naNFree_iff _).mpr ⟨rfl, nofun⟩

end SumsExample

open SumsExample in
theorem partitions_and_adds_up_of_three_orders :
    tally.hasOutput Item.idField = false ∧
      (∃ homes, Partitions tally.key.ofRow orders (tally.groups orders) homes ∧
        homes[0]? = homes[2]? ∧ homes[0]? ≠ homes[1]?) ∧
      totalIn "count" (tally.run orders) = some 3 ∧
      ∃ total, totalIn "amountSum" (tally.run orders) = some total ∧
        totalIn "amountSum" (((ofKey .all).upsert "amountSum" (.sum "amount")).run orders) =
          some total := by
  obtain ⟨⟨homes, hpartition, hshared⟩, -, -, hcount, hsum⟩ :=
    partitions_and_adds_up tally rfl orders
  have hshared := @hshared fun _ => naNFree_key
  obtain ⟨-, hadds⟩ := hsum "amountSum" "amount" rfl (by decide)
  refine ⟨rfl, ⟨homes, hpartition, ?_, ?_⟩, hcount "count" rfl (by decide),
    hadds (by decide) (by decide)⟩
  · exact (hshared rfl rfl).mpr (by decide)
  · exact fun h => absurd ((hshared rfl rfl).mp h) (by decide)

end GroupSpec

end DocumentBase
