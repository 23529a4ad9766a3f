import DocumentBase.Proofs.Grouping
import DocumentBase.Proofs.Value.Selfsame

/-!
# Groups as a partition

Rows are dealt out to groups one after the other: a row comes into the group of its key, or into
a new one behind the others.  So every row is in exactly one group, rows of one group stand there
in their order, and groups stand in the order of their first rows.  Two rows share a group
exactly if their keys are the same; a row whose key has a NaN in it is alone.
-/

namespace DocumentBase.GroupSpec

open Value

/-! ### Placing a row -/

theorem getElem?_concat {α : Type} {xs : List α} {a b : α} {p : Nat}
    (h : (xs ++ [a])[p]? = some b) : xs[p]? = some b ∨ p = xs.length ∧ a = b := by
  rcases Nat.lt_trichotomy p xs.length with hlt | rfl | hgt
  · rw [List.getElem?_append_left hlt] at h
    exact .inl h
  · rw [List.getElem?_concat_length] at h
    exact .inr ⟨rfl, Option.some_inj.mp h⟩
  · rw [List.getElem?_eq_none (by rw [List.length_append]; exact hgt)] at h
    cases h

/-- The number of the group that a row with this key comes into. -/
def seat (key : Value) (gs : Groups) : Nat :=
  gs.findIdx fun group => group.1.same key

/-- A row comes into the group with its seat, at the end, or begins a new one; other groups stay as
they are. -/
theorem getElem?_place (row : Document) (key : Value) (gs : Groups) (i : Nat) :
    (place row key gs)[i]? =
      if i = seat key gs then
        some ((gs[i]?.map fun group => (group.1, group.2 ++ [row])).getD (key, [row]))
      else gs[i]? := by
  induction gs generalizing i with
  | nil => cases i <;> simp [place, seat]
  | cons group rest ih =>
      obtain ⟨k, members⟩ := group
      rw [place, seat, List.findIdx_cons]
      by_cases hkey : k.same key = true
      · cases i <;> simp [hkey]
      · cases i with
        | zero => simp [hkey]
        | succ i =>
            have hrest := ih i
            rw [seat] at hrest
            simp [hkey, hrest]

theorem seat_le_length (key : Value) (gs : Groups) : seat key gs ≤ gs.length :=
  List.findIdx_le_length

/-- A row is seated in a group only if it has the key of the group. -/
theorem same_of_seat {key : Value} {gs : Groups} {group : Value × List Document}
    (h : gs[seat key gs]? = some group) : group.1.same key = true := by
  obtain ⟨hlt, hgroup⟩ := List.getElem?_eq_some_iff.mp h
  have hfound := List.findIdx_getElem (w := hlt)
  rw [← hgroup]
  exact hfound

/-- Only one group has the key of a row. -/
theorem seat_eq {key : Value} {gs : Groups} (hgs : DistinctKeys gs) {i : Nat}
    {group : Value × List Document} (h : gs[i]? = some group) (hkey : group.1.same key = true) :
    seat key gs = i := by
  obtain ⟨hlt, hgroup⟩ := List.getElem?_eq_some_iff.mp h
  rw [seat, List.findIdx_eq hlt]
  refine ⟨hgroup ▸ hkey, fun j hj => ?_⟩
  have hdistinct := List.pairwise_iff_getElem.mp hgs j i (Nat.lt_trans hj hlt) hlt hj
  by_contra hsame
  rw [Bool.not_eq_false] at hsame
  rw [hgroup, same_trans hsame (same_symm hkey)] at hdistinct
  cases hdistinct

/-- Placing a row adds this row to what the groups hold, and nothing else. -/
theorem perm_place (row : Document) (key : Value) (gs : Groups) :
    ((place row key gs).flatMap Prod.snd).Perm (row :: gs.flatMap Prod.snd) := by
  induction gs with
  | nil => exact .refl _
  | cons group rest ih =>
      obtain ⟨k, members⟩ := group
      rw [place]
      split
      · simp only [List.flatMap_cons, List.append_assoc]
        exact List.perm_middle
      · simp only [List.flatMap_cons]
        exact (ih.append_left members).trans List.perm_middle

/-! ### Placing all rows -/

section Rows

variable (g : GroupSpec)

theorem groups_concat (rows : List Document) (row : Document) :
    g.groups (rows ++ [row]) = place row (g.key.ofRow row) (g.groups rows) := by
  rw [groups, groups, List.foldl_append]
  rfl

theorem distinctKeys_groups (rows : List Document) : DistinctKeys (g.groups rows) := by
  induction rows using List.reverseRecOn with
  | nil => exact List.Pairwise.nil
  | append_singleton rows row ih =>
      rw [groups_concat]
      exact ih.place row _

/-- The groups hold every row once. -/
theorem perm_groups (rows : List Document) : ((g.groups rows).flatMap Prod.snd).Perm rows := by
  induction rows using List.reverseRecOn with
  | nil => exact .refl _
  | append_singleton rows row ih =>
      rw [groups_concat]
      have hlast := (List.perm_append_singleton row rows).symm
      exact (perm_place _ _ _).trans ((ih.cons row).trans hlast)

end Rows

/-! ### The partition -/

/-- Rows are partitioned into groups: `homes` has for each row the number of its group. -/
structure Partitions (key : Document → Value) (rows : List Document) (gs : Groups)
    (homes : List Nat) : Prop where
  /-- Every row has one group. -/
  length : homes.length = rows.length
  /-- That group is there, and has the key of the row. -/
  home : ∀ {p i : Nat} {row : Document}, rows[p]? = some row → homes[p]? = some i →
    ∃ group, gs[i]? = some group ∧ Like group.1 (key row)
  /-- A group has the rows whose group it is, in their order. -/
  members : ∀ {i : Nat} {group : Value × List Document}, gs[i]? = some group →
    group.2 = ((rows.zip homes).filter (·.2 = i)).map Prod.fst
  /-- The key of a group is taken from its first row. -/
  first : ∀ {i : Nat} {group : Value × List Document}, gs[i]? = some group →
    ∃ row, group.2.head? = some row ∧ group.1 = key row
  /-- Two rows share a group exactly if they have the same key. -/
  shared : ∀ {p q : Nat} {row other : Document}, rows[p]? = some row → rows[q]? = some other →
    (homes[p]? = homes[q]? ↔ p = q ∨ (key row).same (key other) = true)
  /-- All groups before that of a row have rows before it. -/
  order : ∀ {p i : Nat}, homes[p]? = some i → ∀ j < i, ∃ q < p, homes[q]? = some j

namespace Partitions

variable {key : Document → Value} {rows : List Document} {gs : Groups} {homes : List Nat}

theorem nil : Partitions key [] [] [] where
  length := rfl
  home := nofun
  members := nofun
  first := nofun
  shared := nofun
  order := nofun

/-- A group has a row. -/
theorem exists_home (h : Partitions key rows gs homes) {i : Nat} (hi : i < gs.length) :
    ∃ p < rows.length, homes[p]? = some i := by
  obtain ⟨row, hrow, -⟩ := h.first (List.getElem?_eq_getElem hi)
  have hmem := List.mem_of_mem_head? hrow
  rw [h.members (List.getElem?_eq_getElem hi)] at hmem
  obtain ⟨⟨member, home⟩, hpair, rfl⟩ := List.mem_map.mp hmem
  obtain ⟨hzip, hhome⟩ := List.mem_filter.mp hpair
  obtain ⟨p, hp⟩ := List.mem_iff_getElem?.mp hzip
  obtain ⟨hplace, hnumber⟩ := List.getElem?_zip_eq_some.mp hp
  refine ⟨p, (List.getElem?_eq_some_iff.mp hplace).1, ?_⟩
  rw [hnumber, of_decide_eq_true hhome]

/-- A row that is not there yet shares the group of a row exactly if their keys are the same. -/
theorem home_eq_seat_iff (h : Partitions key rows gs homes) (hgs : DistinctKeys gs) {p i : Nat}
    {row : Document} (hrow : rows[p]? = some row) (hi : homes[p]? = some i) (next : Value) :
    i = seat next gs ↔ (key row).same next = true := by
  obtain ⟨group, hgroup, hlike⟩ := h.home hrow hi
  rw [← hlike.same_eq]
  constructor
  · rintro rfl
    exact same_of_seat hgroup
  · exact fun hsame => (seat_eq hgs hgroup hsame).symm

/-- Every row has a home among the groups. -/
theorem lt_of_mem_homes (h : Partitions key rows gs homes) {i : Nat} (hi : i ∈ homes) :
    i < gs.length := by
  obtain ⟨p, hp⟩ := List.mem_iff_getElem?.mp hi
  have hlt : p < rows.length := h.length ▸ (List.getElem?_eq_some_iff.mp hp).1
  obtain ⟨group, hgroup, -⟩ := h.home (List.getElem?_eq_getElem hlt) hp
  exact (List.getElem?_eq_some_iff.mp hgroup).1

/-- No row has come to a group that is not there. -/
theorem members_eq_nil (h : Partitions key rows gs homes) {i : Nat} (hi : gs.length ≤ i) :
    (rows.zip homes).filter (·.2 = i) = [] := by
  rw [List.filter_eq_nil_iff]
  intro pair hpair
  have hlt := h.lt_of_mem_homes (List.of_mem_zip hpair).2
  simp only [decide_eq_true_eq]
  omega

section Concat

variable (h : Partitions key rows gs homes) (row : Document)
include h

theorem zip_concat (i : Nat) :
    (rows ++ [row]).zip (homes ++ [i]) = rows.zip homes ++ [(row, i)] := by
  rw [List.zip_append h.length.symm]
  rfl

/-- The home of a row is a group with its key, after one more row too. -/
theorem home_concat {p i : Nat} {other : Document} (hrow : (rows ++ [row])[p]? = some other)
    (hi : (homes ++ [seat (key row) gs])[p]? = some i) :
    ∃ group, (place row (key row) gs)[i]? = some group ∧ Like group.1 (key other) := by
  rw [getElem?_place]
  rcases getElem?_concat hrow with hrow | ⟨rfl, rfl⟩
  · have hlt : p < homes.length := h.length ▸ (List.getElem?_eq_some_iff.mp hrow).1
    rw [List.getElem?_append_left hlt] at hi
    obtain ⟨group, hgroup, hlike⟩ := h.home hrow hi
    rw [hgroup]
    split
    · exact ⟨_, rfl, hlike⟩
    · exact ⟨_, rfl, hlike⟩
  · rw [← h.length, List.getElem?_concat_length] at hi
    cases hi
    rw [if_pos rfl]
    cases hgroup : gs[seat (key row) gs]? with
    | none => exact ⟨_, rfl, .refl _⟩
    | some group =>
        have hsame := same_of_seat hgroup
        exact ⟨_, rfl, .same hsame⟩

/-- The members of a group are the rows that have their home there, in their order. -/
theorem members_concat {i : Nat} {group : Value × List Document}
    (hgroup : (place row (key row) gs)[i]? = some group) :
    group.2 =
      (((rows ++ [row]).zip (homes ++ [seat (key row) gs])).filter (·.2 = i)).map Prod.fst := by
  rw [h.zip_concat, List.filter_append, List.map_append]
  rw [getElem?_place] at hgroup
  split at hgroup
  · rename_i hi
    subst hi
    rw [List.filter_singleton, decide_eq_true rfl]
    cases hold : gs[seat (key row) gs]? with
    | none =>
        rw [hold] at hgroup
        cases hgroup
        rw [h.members_eq_nil (List.getElem?_eq_none_iff.mp hold)]
        rfl
    | some existing =>
        rw [hold] at hgroup
        cases hgroup
        exact congrArg (· ++ [row]) (h.members hold)
  · rename_i hi
    rw [h.members hgroup, List.filter_singleton, decide_eq_false fun hseat => hi hseat.symm]
    exact (List.append_nil _).symm

/-- A group is led by the row that it got its key from. -/
theorem first_concat {i : Nat} {group : Value × List Document}
    (hgroup : (place row (key row) gs)[i]? = some group) :
    ∃ member, group.2.head? = some member ∧ group.1 = key member := by
  rw [getElem?_place] at hgroup
  split at hgroup
  · cases hold : gs[i]? with
    | none =>
        rw [hold] at hgroup
        cases hgroup
        exact ⟨row, rfl, rfl⟩
    | some existing =>
        rw [hold] at hgroup
        cases hgroup
        obtain ⟨member, hmember, hkey⟩ := h.first hold
        exact ⟨member, by simp [hmember], hkey⟩
  · exact h.first hgroup

/-- A row that comes last shares the group of a row before it exactly if their keys are the
same. -/
theorem shared_last (hgs : DistinctKeys gs) {p : Nat} {other : Document}
    (hother : rows[p]? = some other) :
    homes[p]? = some (seat (key row) gs) ↔ (key other).same (key row) = true := by
  have hlt : p < homes.length := h.length ▸ (List.getElem?_eq_some_iff.mp hother).1
  have hi := List.getElem?_eq_getElem hlt
  rw [hi, Option.some_inj]
  exact h.home_eq_seat_iff hgs hother hi _

/-- Two rows share a home if they are one row or have the same key. -/
theorem shared_concat (hgs : DistinctKeys gs) {p q : Nat} {one other : Document}
    (hone : (rows ++ [row])[p]? = some one) (hother : (rows ++ [row])[q]? = some other) :
    (homes ++ [seat (key row) gs])[p]? = (homes ++ [seat (key row) gs])[q]? ↔
      p = q ∨ (key one).same (key other) = true := by
  have hlt : ∀ {p : Nat} {old : Document}, rows[p]? = some old → p < homes.length :=
    fun hold => h.length ▸ (List.getElem?_eq_some_iff.mp hold).1
  -- either of the two rows was there before or is the last one
  rcases getElem?_concat hone with hone | ⟨rfl, rfl⟩
  · rw [List.getElem?_append_left (hlt hone)]
    rcases getElem?_concat hother with hother | ⟨rfl, rfl⟩
    · rw [List.getElem?_append_left (hlt hother)]
      exact h.shared hone hother
    · have hne : p ≠ rows.length := h.length ▸ Nat.ne_of_lt (hlt hone)
      rw [← h.length, List.getElem?_concat_length, h.length, or_iff_right hne]
      exact h.shared_last row hgs hone
  · rcases getElem?_concat hother with hother | ⟨rfl, rfl⟩
    · have hne : rows.length ≠ q := h.length ▸ Nat.ne_of_gt (hlt hother)
      rw [List.getElem?_append_left (hlt hother), ← h.length, List.getElem?_concat_length,
        h.length, or_iff_right hne, same_comm, eq_comm]
      exact h.shared_last row hgs hother
    · exact iff_of_true rfl (.inl rfl)

/-- A group is not begun before all the groups in front of it were. -/
theorem order_concat {p i : Nat} (hi : (homes ++ [seat (key row) gs])[p]? = some i) (j : Nat)
    (hj : j < i) : ∃ q < p, (homes ++ [seat (key row) gs])[q]? = some j := by
  have hkept : ∀ {q : Nat}, homes[q]? = some j →
      (homes ++ [seat (key row) gs])[q]? = some j := fun hq => by
    rw [List.getElem?_append_left (List.getElem?_eq_some_iff.mp hq).1, hq]
  rcases getElem?_concat hi with hi | ⟨rfl, rfl⟩
  · obtain ⟨q, hq, hhome⟩ := h.order hi j hj
    exact ⟨q, hq, hkept hhome⟩
  · obtain ⟨q, hq, hhome⟩ := h.exists_home (Nat.lt_of_lt_of_le hj (seat_le_length _ _))
    exact ⟨q, h.length ▸ hq, hkept hhome⟩

/-- One more row comes to the rows of its group, or into a group behind all others. -/
theorem concat (hgs : DistinctKeys gs) :
    Partitions key (rows ++ [row]) (place row (key row) gs)
      (homes ++ [seat (key row) gs]) where
  length := by rw [List.length_append, List.length_append, h.length]; rfl
  home := h.home_concat row
  members := h.members_concat row
  first := h.first_concat row
  shared := h.shared_concat row hgs
  order := h.order_concat row

end Concat

end Partitions

/-- Rows are partitioned into the groups they are put into. -/
theorem exists_partitions (g : GroupSpec) (rows : List Document) :
    ∃ homes, Partitions g.key.ofRow rows (g.groups rows) homes := by
  induction rows using List.reverseRecOn with
  | nil => exact ⟨[], .nil⟩
  | append_singleton rows row ih =>
      obtain ⟨homes, h⟩ := ih
      rw [groups_concat]
      exact ⟨_, h.concat row (g.distinctKeys_groups rows)⟩

/-! ### What the members of a group have in common -/

section Members

variable {g : GroupSpec} {rows : List Document} {group : Value × List Document}

theorem exists_first_of_mem_groups (hgroup : group ∈ g.groups rows) :
    ∃ first, group.2.head? = some first ∧ group.1 = g.key.ofRow first := by
  obtain ⟨homes, hpartition⟩ := g.exists_partitions rows
  obtain ⟨i, hi⟩ := List.mem_iff_getElem?.mp hgroup
  exact hpartition.first hi

/-- Every member of a group has a key like that of the group. -/
theorem like_key_of_mem_groups (hgroup : group ∈ g.groups rows) {member : Document}
    (hmember : member ∈ group.2) : Like group.1 (g.key.ofRow member) := by
  obtain ⟨homes, hpartition⟩ := g.exists_partitions rows
  obtain ⟨i, hi⟩ := List.mem_iff_getElem?.mp hgroup
  rw [hpartition.members hi] at hmember
  obtain ⟨⟨row, home⟩, hpair, rfl⟩ := List.mem_map.mp hmember
  obtain ⟨hzip, hhome⟩ := List.mem_filter.mp hpair
  obtain ⟨p, hp⟩ := List.mem_iff_getElem?.mp hzip
  obtain ⟨hrow, hnumber⟩ := List.getElem?_zip_eq_some.mp hp
  rw [of_decide_eq_true hhome] at hnumber
  obtain ⟨found, hfound, hlike⟩ := hpartition.home hrow hnumber
  cases hi.symm.trans hfound
  exact hlike

/-- The key of several fields has what is at each of them. -/
theorem value?_compound (row : Document) (names : List String) (field : String) :
    (Document.ofFields
      (names.filterMap fun name => (row.at? name).map fun v => (name, v))).value? field =
        if field ∈ names then row.at? field else none := by
  induction names using List.reverseRecOn with
  | nil => rfl
  | append_singleton names name ih =>
      rw [List.filterMap_append, Document.ofFields, List.foldl_append, ← Document.ofFields]
      cases hvalue : row.at? name with
      | none =>
          simp only [List.filterMap_cons, hvalue, Option.map_none, List.filterMap_nil,
            List.foldl_nil, ih, List.mem_append, List.mem_singleton]
          by_cases hfield : field = name
          · simp [hfield, hvalue]
          · simp [hfield]
      | some v =>
          simp only [List.filterMap_cons, hvalue, Option.map_some, List.filterMap_nil,
            List.foldl_cons, List.foldl_nil, List.mem_append, List.mem_singleton]
          by_cases hfield : field = name
          · subst hfield
            simp [hvalue]
          · rw [Document.value?_put_ne _ _ (Ne.symm hfield), ih]
            simp [hfield]

/-- The members of a group have like values at the fields that are grouped by. -/
theorem rel_at_of_mem_groups {names : List String} (hkey : g.key = .compound names)
    (hgroup : group ∈ g.groups rows) {first member : Document}
    (hfirst : group.2.head? = some first) (hmember : member ∈ group.2) {field : String}
    (hfield : field ∈ names) : Option.Rel Like (first.at? field) (member.at? field) := by
  obtain ⟨row, hrow, hgroupkey⟩ := exists_first_of_mem_groups hgroup
  cases hfirst.symm.trans hrow
  have hlike := like_key_of_mem_groups hgroup hmember
  rw [hgroupkey, hkey] at hlike
  have hvalues := like_document_iff.mp hlike field
  rwa [value?_compound, value?_compound, if_pos hfield, if_pos hfield] at hvalues

end Members

end DocumentBase.GroupSpec
