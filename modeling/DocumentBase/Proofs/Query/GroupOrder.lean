import DocumentBase.Proofs.Grouping.Partition
import DocumentBase.Proofs.Query.GroupOutputs

/-!
# The order of groups

Groups are sorted by the rows that stand for them: by the values at fields that are grouped by,
which the members of a group have in common, by outputs, by their keys, or by the values in their
first rows.  Names of fields and outputs are written into those rows as they are and read as
dotted paths, so this needs names without dots.
-/

namespace DocumentBase

open Value

namespace Assembler.GroupCall

variable (done : List GroupCall)

/-- The value of a group by which it is sorted. -/
def orderValue (group : Value × List Document) (field : String) : Value :=
  match compared done field with
  | .keyField | .memberField => (group.2.head?.bind (·.at? field)).getD .null
  | .output accumulator => accumulator.apply group.2
  | .identity => group.1

/-- Whether what a sort by a field compares can be read from the rows for groups, which may keep
first rows.  A field that is grouped by is read inside the key, and no output takes its place. -/
def Readable (keepsFirst : Bool) (field : String) : Prop :=
  match compared done field with
  | .keyField => '.' ∉ field.toList ∧ GroupSpec.lastUnder Item.idField (outputs done) = none
  | .output _ => '.' ∉ field.toList ∧ (keepsFirst = true → field ≠ firstRowField)
  | .identity | .memberField => True

/-- What is known of a field by what a sort by it compares. -/
theorem compared_spec (field : String) :
    match compared done field with
    | .keyField => ∃ names, keyOf done = .compound names ∧ field ∈ names
    | .output accumulator => GroupSpec.lastUnder field (outputs done) = some accumulator
    | .identity =>
      field = Item.idField ∧ GroupSpec.lastUnder Item.idField (outputs done) = none
    | .memberField => True := by
  rw [compared]
  by_cases hany : (groupings done).head?.any (·.contains field) = true
  · rw [if_pos hany, keyOf]
    cases hhead : (groupings done).head? with
    | none => simp [hhead] at hany
    | some names => exact ⟨names, rfl, by simpa [hhead] using hany⟩
  · rw [if_neg hany, comparedOutside]
    cases hlast : GroupSpec.lastUnder field (outputs done) with
    | some accumulator => rfl
    | none =>
        by_cases hid : field = Item.idField
        · simp only [if_pos hid]
          exact ⟨hid, hid ▸ hlast⟩
        · simp only [if_neg hid]

variable {done} {keepsFirst : Bool} {field : String}

/-- The path at which the rows for groups are read. -/
theorem ofString_target (h : Readable done keepsFirst field) :
    Path.ofString ((compared done field).target field).1 =
      match compared done field with
      | .keyField => [Item.idField, field]
      | .output _ | .identity => [field]
      | .memberField => firstRowField :: Path.ofString field := by
  have hid : '.' ∉ Item.idField.toList := by decide
  have hfirst : '.' ∉ firstRowField.toList := by decide
  have hspec := compared_spec done field
  rw [Readable] at h
  cases hcase : compared done field with
  | keyField =>
      rw [hcase] at h
      rw [Compared.target, Path.ofString_below hid, Path.ofString_of_no_dot h.1]
  | output accumulator =>
      rw [hcase] at h
      exact Path.ofString_of_no_dot h.1
  | identity =>
      rw [hcase] at hspec
      exact Path.ofString_of_no_dot (hspec.1 ▸ hid)
  | memberField => exact Path.ofString_below hfirst field

/-- Different fields are read at different places: paths of one kind give the field back, and
those of two kinds differ in their length or in their first segment. -/
theorem eq_of_target_eq {other : String} (hfield : Readable done keepsFirst field)
    (hother : Readable done keepsFirst other)
    (h : ((compared done field).target field).1 = ((compared done other).target other).1) :
    field = other := by
  have hpath := ofString_target hfield
  rw [h, ofString_target hother] at hpath
  have hnames : Item.idField ≠ firstRowField := by decide
  have hne := Path.ofString_ne_nil
  cases hcase : compared done field <;> cases hcase' : compared done other <;>
    simp_all [Compared.target]

end Assembler.GroupCall

namespace QuerySpec

open Assembler Assembler.GroupCall

variable {q : QuerySpec} {done : List GroupCall} {rows : List Document}
  {group : Value × List Document}

/-- The rows for groups have what is compared at the places where it is read. -/
theorem sortValue_groupRow (hgroup : group ∈ (groupSpec done).groups rows) {field : String}
    (hreadable : Readable done (q.assembler.keepsFirst (groupSpec done)) field)
    (hkeeps : compared done field = .memberField →
      q.assembler.keepsFirst (groupSpec done) = true) :
    SortSpec.sortValue (q.groupRow (groupSpec done) group)
      ((compared done field).target field).1 = orderValue done group field := by
  obtain ⟨first, hfirst, hkey⟩ := GroupSpec.exists_first_of_mem_groups hgroup
  have hrow := q.value?_groupRow (groupSpec done) group
  simp only [output?_pageGroup, output?_groupSpec] at hrow
  have hspec := compared_spec done field
  rw [SortSpec.sortValue, Document.at?, ofString_target hreadable, orderValue]
  rw [Readable] at hreadable
  cases hcase : compared done field with
  | keyField =>
      rw [hcase] at hreadable hspec
      obtain ⟨names, hnames, hfield⟩ := hspec
      have hid : (q.groupRow (groupSpec done) group).value? Item.idField = some group.1 := by
        rw [hrow, if_neg fun h => absurd h.2 (by decide), hreadable.2]
        rfl
      rw [hkey, key_groupSpec, hnames] at hid
      simp only [hfirst, Option.bind_some]
      rw [Document.get?_below hid (List.cons_ne_nil _ _), Document.get?,
        GroupSpec.value?_compound, if_pos hfield]
  | output accumulator =>
      rw [hcase] at hreadable hspec
      have hvalue : (q.groupRow (groupSpec done) group).value? field =
          some (accumulator.apply group.2) := by
        rw [hrow, if_neg fun h => hreadable.2 h.1 h.2, hspec]
        rfl
      exact congrArg (·.getD .null) hvalue
  | identity =>
      rw [hcase] at hspec
      obtain ⟨rfl, hnone⟩ := hspec
      have hvalue : (q.groupRow (groupSpec done) group).value? Item.idField = some group.1 := by
        rw [hrow, if_neg fun h => absurd h.2 (by decide), hnone]
        rfl
      exact congrArg (·.getD .null) hvalue
  | memberField =>
      have hvalue : (q.groupRow (groupSpec done) group).value? firstRowField =
          some (.document first) := by
        rw [hrow, if_pos ⟨hkeeps hcase, rfl⟩, Option.map_some, Accumulator.apply, hfirst]
        rfl
      simp only [hfirst, Option.bind_some]
      rw [Document.get?_below hvalue (Path.ofString_ne_nil _)]
      rfl

/-! ### Comparing groups -/

/-- Whether a group comes before another, by the values that sorts compare. -/
def comesBefore (done : List GroupCall) (sorts : SortSpec) (a b : Value × List Document) : Bool :=
  SortSpec.compareOn (orderValue done) a b sorts.keys == .lt

/-- Sorts of groups whose fields are all different and can all be read. -/
structure SortsReadably (q : QuerySpec) (done : List GroupCall) : Prop where
  nodup : (q.assembler.groupSort.keys.map Prod.fst).Nodup
  readable : ∀ key ∈ q.assembler.groupSort.keys,
    Readable done (q.assembler.keepsFirst (groupSpec done)) key.1

/-- Sorting by a field of the rows makes the group keep its first row. -/
theorem keepsFirst_of_mem {key : String × Direction} (hkey : key ∈ q.assembler.groupSort.keys)
    (hcompared : compared done key.1 = .memberField) :
    q.assembler.keepsFirst (groupSpec done) = true := by
  rw [keepsFirst, List.any_eq_true]
  exact ⟨key, hkey, by rw [snd_retarget_groupSpec, hcompared]; rfl⟩

section Sorts

variable (hq : q.SortsReadably done)
include hq

/-- The groups are sorted by the fields asked for, each at the place where the group keeps it. -/
theorem SortsReadably.keys_groupOrder :
    (q.assembler.groupOrder (groupSpec done)).keys = q.assembler.groupSort.keys.map fun key =>
      (((compared done key.1).target key.1).1, key.2) := by
  have horder : q.assembler.groupOrder (groupSpec done) =
      SortSpec.pushAll (q.assembler.groupSort.keys.map fun key =>
        (((compared done key.1).target key.1).1, key.2)) := by
    rw [groupOrder, SortSpec.pushAll, List.foldl_map]
    simp only [retarget_groupSpec]
  rw [horder]
  -- a sort would take the place of another one only if both were read at the same place
  apply SortSpec.keys_pushAll_of_nodup
  have hfields : ((q.assembler.groupSort.keys.map fun key =>
      (((compared done key.1).target key.1).1, key.2)).map Prod.fst) =
      (q.assembler.groupSort.keys.map Prod.fst).map fun field =>
        ((compared done field).target field).1 := by
    rw [List.map_map, List.map_map]
    rfl
  rw [hfields]
  refine hq.nodup.map_on fun field hfield other hother htarget => ?_
  obtain ⟨key, hkey, rfl⟩ := List.mem_map.mp hfield
  obtain ⟨otherKey, hotherKey, rfl⟩ := List.mem_map.mp hother
  exact eq_of_target_eq (hq.readable key hkey) (hq.readable otherKey hotherKey) htarget

/-- Where a group keeps a field is its value in the key, its output, or its value in the first row.
-/
theorem SortsReadably.sortValue_eq (hgroup : group ∈ (groupSpec done).groups rows)
    {key : String × Direction} (hkey : key ∈ q.assembler.groupSort.keys) :
    SortSpec.sortValue (q.groupRow (groupSpec done) group)
      ((compared done key.1).target key.1).1 = orderValue done group key.1 :=
  sortValue_groupRow hgroup (hq.readable key hkey) (keepsFirst_of_mem hkey)

/-- The pipeline compares groups by the values that they have for the fields asked for. -/
theorem SortsReadably.groupBefore_eq {other : Value × List Document}
    (hgroup : group ∈ (groupSpec done).groups rows)
    (hother : other ∈ (groupSpec done).groups rows) :
    q.groupBefore (groupSpec done) group other =
      comesBefore done q.assembler.groupSort group other := by
  rw [groupBefore, comesBefore, SortSpec.compare, hq.keys_groupOrder]
  have hcompare := SortSpec.compareKeys_map (orderValue done) (q.groupRow (groupSpec done))
    (fun field => ((compared done field).target field).1)
    (fun key hkey => hq.sortValue_eq hgroup hkey) (fun key hkey => hq.sortValue_eq hother hkey)
  rw [hcompare]

/-- Groups whose compared values are not NaN are sorted by these values. -/
theorem SortsReadably.stablySorted {matched : List Document}
    (hnumbers : ∀ group ∈ q.groupsOf (groupSpec done) matched,
      ∀ key ∈ q.assembler.groupSort.keys, (orderValue done group key.1).isNaN = false) :
    StablySorted (comesBefore done q.assembler.groupSort)
      (q.admittedGroups (groupSpec done) matched)
      (stableSort (q.groupBefore (groupSpec done))
        (q.admittedGroups (groupSpec done) matched)) := by
  have hadmitted : ∀ group ∈ q.admittedGroups (groupSpec done) matched,
      group ∈ q.groupsOf (groupSpec done) matched :=
    fun _ hgroup => (List.mem_filter.mp hgroup).1
  have hcomparable : ∀ group ∈ q.admittedGroups (groupSpec done) matched,
      (q.assembler.groupOrder (groupSpec done)).Comparable (q.groupRow (groupSpec done) group) := by
    intro group hgroup key hkey
    rw [hq.keys_groupOrder] at hkey
    obtain ⟨asked, hasked, rfl⟩ := List.mem_map.mp hkey
    rw [hq.sortValue_eq (hadmitted group hgroup) hasked]
    exact hnumbers group (hadmitted group hgroup) asked hasked
  have hranks := (SortSpec.ranksOn_compare (q.assembler.groupOrder (groupSpec done))).comap
    (q.groupRow (groupSpec done))
  refine (stablySorted_stableSort hranks hcomparable).congr fun group hgroup other hother => ?_
  exact hq.groupBefore_eq (hadmitted group hgroup) (hadmitted other hother)

end Sorts

end QuerySpec

namespace Query

open Assembler Assembler.GroupCall

variable {filter : Filter} {made : List Call} {spec : QuerySpec}

/-- Groups are sorted by fields of the sorts that were asked for. -/
theorem exists_sort_of_mem_keys (hbuild : ((ofFilter filter).calls made).build = .ok spec)
    {key : String × Direction} (hkey : key ∈ spec.assembler.groupSort.keys) :
    ∃ sort ∈ groupSorts made, sort.1 = key.1 := by
  rw [(asks_of_build hbuild).groupSort] at hkey
  have hfield := SortSpec.mem_fields_pushAll.mp (List.mem_map_of_mem (f := Prod.fst) hkey)
  exact List.mem_map.mp hfield

/-- Sorts by fields that can each be read give group sorts that differ in their fields and can be
read. -/
theorem sortsReadably_of_build (hbuild : ((ofFilter filter).calls made).build = .ok spec)
    (hsorts : ∀ sort ∈ groupSorts made, Readable (asked made) (sortsByMember made) sort.1) :
    spec.SortsReadably (asked made) where
  nodup := by
    rw [(asks_of_build hbuild).groupSort]
    exact SortSpec.nodup_fields_pushAll _
  readable := by
    intro key hkey
    obtain ⟨sort, hsort, hname⟩ := exists_sort_of_mem_keys hbuild hkey
    rw [keepsFirst_of_build hbuild, ← hname]
    exact hsorts sort hsort

/-- A page shows the admitted groups in the order of the sorts that were asked for behind groups,
the first one first, and groups that are tied in the order of their first rows.  It does so as long
as the conditions on documents and on groups can be evaluated. -/
theorem groups_in_order (hbuild : ((ofFilter filter).calls made).build = .ok spec)
    (hgrouped : made.any Call.asksForGroups = true) (hbare : spec.IsBare)
    (hsorts : ∀ sort ∈ groupSorts made, Readable (asked made) (sortsByMember made) sort.1)
    (page : Page) (owner : Option String) (force : Bool) :
    ∃ p, spec.compile page owner force = .ok (.aggregate p) ∧
      ∀ (c : Collections) (documents matched : List Document),
        (spec.ownedCriteria owner).select documents = .ok matched →
          let g := groupSpec (asked made)
          ((∃ rows, p.run c documents = .ok rows) ↔ spec.Decides g matched) ∧
          (∀ group ∈ g.groups (spec.sort.sort matched), ∀ first, group.2.head? = some first →
            ∀ names, keyOf (asked made) = .compound names → ∀ member ∈ group.2, ∀ field ∈ names,
              Option.Rel Like (first.at? field) (member.at? field)) ∧
          ((∀ group ∈ g.groups (spec.sort.sort matched), ∀ sort ∈ groupSorts made,
              (orderValue (asked made) group sort.1).isNaN = false) →
            ∃ ordered,
              StablySorted (QuerySpec.comesBefore (asked made) (SortSpec.pushAll (groupSorts made)))
                (spec.admittedGroups g matched) ordered ∧
              ∀ rows, p.run c documents = .ok rows →
                rows = ((ordered.map (spec.shownRow g)).drop page.offset).take page.size) := by
  have hsort := (asks_of_build hbuild).groupSort
  have hreadably := sortsReadably_of_build hbuild hsorts
  obtain ⟨p, hcompile, hpage⟩ := exists_page_of_build hbuild hgrouped hbare page owner force
  refine ⟨p, hcompile, fun c documents matched hmatched => ?_⟩
  simp only [hpage, hmatched, Except.ok.injEq, exists_eq_left']
  refine ⟨⟨fun ⟨_, hdecides, _⟩ => hdecides, fun hdecides => ⟨_, hdecides, rfl⟩⟩,
    fun group hgroup first hfirst names hnames member hmember field => ?_,
    fun hnumbers => ⟨_, hsort ▸ hreadably.stablySorted fun group hgroup key hkey => ?_,
      fun rows hrows => hrows.2⟩⟩
  · have hkey : (groupSpec (asked made)).key = .compound names :=
      (key_groupSpec (asked made)).trans hnames
    exact GroupSpec.rel_at_of_mem_groups hkey hgroup hfirst hmember
  · obtain ⟨sort, hasked, hname⟩ := exists_sort_of_mem_keys hbuild hkey
    rw [← hname]
    exact hnumbers group hgroup sort hasked

/-! ### Orders of two people -/

namespace GroupOrderExample

def orders : List Document :=
  [[("_id", .int32 2), ("by", .string "ann"), ("amount", .int32 5),
      ("at", .document [("hour", .int32 9)])],
    [("_id", .int32 1), ("by", .string "bob"), ("amount", .int32 2),
      ("at", .document [("hour", .int32 8)])]]

/-- Sorts by an output, by a field that is grouped by and by one that is not. -/
def sorted : List Call :=
  [.groupBy ["by"], .calculate .sum "amount" "total", .order "total" .ascending,
    .order "by" .descending, .order "at.hour" .ascending]

def page : Page :=
  Page.of 1 50 0

/-- The value by which a group would be sorted if its identity were a field as any other. -/
def memberValue (done : List GroupCall) (group : Value × List Document) (field : String) :
    Value :=
  match compared done field with
  | .output accumulator => accumulator.apply group.2
  | _ => (group.2.head?.bind (·.at? field)).getD .null

/-- Two groups are shown in the order of their first rows, but the second has the lesser
values. -/
def OutOfOrder (made : List Call) : Prop :=
  ∃ spec p a b, ((ofFilter .empty).calls made).build = .ok spec ∧ spec.IsBare ∧
    spec.compile page none false = .ok (.aggregate p) ∧
    (groupSpec (asked made)).groups orders = [a, b] ∧
    p.run [] orders =
      .ok [spec.shownRow (groupSpec (asked made)) a, spec.shownRow (groupSpec (asked made)) b] ∧
    SortSpec.compareOn (memberValue (asked made)) b a (groupSorts made) = .lt

end GroupOrderExample

open GroupOrderExample in
theorem groups_in_order_of_three_sorts :
    ∃ spec p rows ordered, ((ofFilter .empty).calls sorted).build = .ok spec ∧
      spec.compile page none false = .ok (.aggregate p) ∧ p.run [] orders = .ok rows ∧
      StablySorted (QuerySpec.comesBefore (asked sorted) (SortSpec.pushAll (groupSorts sorted)))
        (spec.admittedGroups (groupSpec (asked sorted)) orders) ordered ∧
      rows = ((ordered.map (spec.shownRow (groupSpec (asked sorted)))).drop 0).take 50 := by
  obtain ⟨spec, pipeline, found, hbuild, hbare, hpipeline, hrun, hselect, hsort⟩ :
      ∃ spec pipeline rows, ((ofFilter .empty).calls sorted).build = .ok spec ∧ spec.IsBare ∧
        spec.compile page none false = .ok (.aggregate pipeline) ∧
        pipeline.run [] orders = .ok rows ∧
        (spec.ownedCriteria none).select orders = .ok orders ∧ spec.sort.sort orders = orders :=
    ⟨_, _, _, rfl, ⟨rfl, rfl, rfl⟩, rfl, rfl, rfl, rfl⟩
  have hsorts : ∀ sort ∈ groupSorts sorted,
      Readable (asked sorted) (sortsByMember sorted) sort.1 := by
    intro sort hmem
    have hmem : sort ∈ [("total", Direction.ascending), ("by", .descending),
      ("at.hour", .ascending)] := hmem
    simp only [List.mem_cons, List.not_mem_nil, or_false] at hmem
    rcases hmem with rfl | rfl | rfl
    · exact ⟨by decide, fun _ => by decide⟩
    · exact ⟨by decide, rfl⟩
    · trivial
  have hnumbers : ∀ group ∈ (groupSpec (asked sorted)).groups orders,
      ∀ sort ∈ groupSorts sorted, (orderValue (asked sorted) group sort.1).isNaN = false := by
    decide
  obtain ⟨p, hcompile, hpage⟩ := groups_in_order hbuild rfl hbare hsorts page none false
  cases hpipeline.symm.trans hcompile
  obtain ⟨-, -, hordered⟩ := hpage [] orders orders hselect
  rw [hsort] at hordered
  obtain ⟨ordered, hstable, hrows⟩ := hordered hnumbers
  exact ⟨spec, pipeline, found, ordered, hbuild, hpipeline, hrun, hstable, hrows found hrun⟩

open GroupOrderExample in
/-- A sort by the identity compares the keys of groups, and names with dots are not read as they
were written; outputs with the names of the identity and the first row are in the way. -/
theorem groups_out_of_order :
    OutOfOrder [.groupBy ["by"], .order "_id" .ascending] ∧
      OutOfOrder [.groupBy ["at.hour"], .order "at.hour" .ascending] ∧
      OutOfOrder [.groupBy ["by"], .calculate .sum "amount" "sum.amount",
        .order "sum.amount" .ascending] ∧
      OutOfOrder [.groupBy ["by"], .calculate .sum "amount" "_id", .order "by" .descending] ∧
      OutOfOrder [.groupBy ["by"], .calculate .sum "amount" "_first",
        .order "_first" .ascending, .order "size" .ascending] := by
  refine ⟨?_, ?_, ?_, ?_, ?_⟩
  all_goals exact ⟨_, _, _, _, rfl, ⟨rfl, rfl, rfl⟩, rfl, rfl, rfl, rfl⟩

end Query

end DocumentBase
