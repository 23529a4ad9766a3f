import DocumentBase.Pipeline.Assembler
import DocumentBase.Proofs.Grouping.Outputs
import DocumentBase.Proofs.Outcome

/-!
# What is asked about groups

Fields to group by, calculations and a count may be asked for in any order, and a call may fail.
Only the calls that succeeded decide about the group: the calculations set its outputs one after
the other, the count as the last, and its key is made of the fields that were given first.
-/

namespace DocumentBase.Assembler

/-- A call that asks for something about groups. -/
inductive GroupCall where
  | groupBy (fields : List String)
  | calculate (name : String) (accumulator : Accumulator)
  | count
deriving DecidableEq, Repr

namespace GroupCall

/-! ### Calls that change an assembler in place -/

def run (a : Assembler) : GroupCall → Outcome Assembler
  | .groupBy fields => a.groupBy fields
  | .calculate name accumulator => a.calculate name accumulator
  | .count => .ok a.count

/-- The steps of a call.  What was written before an error stays written. -/
def steps : GroupCall → ExceptT Error (StateM Assembler) Unit
  | .groupBy fields => do
    if (← get).groupedByFields then throw .alreadyGrouped
    if fields.isEmpty then throw (.validation .noGroupFields)
    (fields.forM checkField : Outcome Unit)
    let key := GroupKey.compound fields
    modify fun a => { a with group := match a.group with
      | some group => some { group with key }
      | none => some (GroupSpec.ofKey key) }
    modify fun a => { a with groupedByFields := true }
  | .calculate name accumulator => do
    checkField name
    modify fun a => { a with group := some (a.group.getD (GroupSpec.ofKey .all)) }
    modify fun a => { a with group := a.group.map (·.upsert name accumulator) }
  | .count => modify fun a => { a with counted := true }

/-- Makes a call: what it returns, and the assembler that it leaves. -/
def make (c : GroupCall) (a : Assembler) : Outcome Unit × Assembler :=
  c.steps.run.run a

/-- A call leaves its result, or nothing has been written when it fails. -/
theorem make_eq (c : GroupCall) (a : Assembler) :
    c.make a = match c.run a with
      | .ok b => (.ok (), b)
      | .error e => (.error e, a) := by
  cases c with
  | groupBy fields =>
      obtain ⟨group, grouped, counted, having, groupSort, extra⟩ := a
      rw [make, steps, run, Assembler.groupBy]
      cases grouped with
      | true => rfl
      | false =>
          cases fields with
          | nil => rfl
          | cons field rest =>
              generalize ((field :: rest).forM checkField : Outcome Unit) = checked
              cases checked with
              | error e => rfl
              | ok _ => cases group <;> rfl
  | calculate name accumulator =>
      rw [make, steps, run, Assembler.calculate]
      cases checkField name with
      | error e => rfl
      | ok _ => rfl
  | count => rfl

/-! ### Calls that succeed -/

/-- What a call needs to be accepted, whatever was asked before. -/
def Acceptable : GroupCall → Prop
  | .groupBy fields => fields ≠ [] ∧ ∀ field ∈ fields, checkField field = .ok ()
  | .calculate name _ => checkField name = .ok ()
  | .count => True

/-- The fields that a call groups by. -/
def fields? : GroupCall → Option (List String)
  | .groupBy fields => some fields
  | _ => none

/-- The output that a call sets. -/
def calculation? : GroupCall → Option (String × Accumulator)
  | .calculate name accumulator => some (name, accumulator)
  | _ => none

/-- Grouping by fields succeeds once, with fields that may be named, and keeps what was calculated.
-/
theorem groupBy_eq_ok_iff {a b : Assembler} {fields : List String} :
    a.groupBy fields = .ok b ↔ a.groupedByFields = false ∧ Acceptable (.groupBy fields) ∧
      b = { a with
        group := some { a.group.getD (GroupSpec.ofKey .all) with key := .compound fields },
        groupedByFields := true } := by
  simp only [Assembler.groupBy, Outcome.check_eq_ok, Outcome.bind_eq_ok, Outcome.pure_eq_ok,
    Acceptable, ← Outcome.forM_eq_ok, List.isEmpty_eq_false_iff]
  constructor
  · rintro ⟨hgrouped, hfields, ⟨⟩, hcheck, rfl⟩
    refine ⟨hgrouped, ⟨hfields, hcheck⟩, ?_⟩
    cases a.group <;> rfl
  · rintro ⟨hgrouped, ⟨hfields, hcheck⟩, rfl⟩
    refine ⟨hgrouped, hfields, (), hcheck, ?_⟩
    cases a.group <;> rfl

/-- A calculation succeeds whenever its name and its field may be named. -/
theorem calculate_eq_ok_iff {a b : Assembler} {name : String} {accumulator : Accumulator} :
    a.calculate name accumulator = .ok b ↔ Acceptable (.calculate name accumulator) ∧
      b = { a with
        group := some ((a.group.getD (GroupSpec.ofKey .all)).upsert name accumulator) } := by
  rw [Assembler.calculate, Outcome.bind_eq_ok, Acceptable]
  constructor
  · rintro ⟨⟨⟩, hname, hb⟩
    exact ⟨hname, (Outcome.pure_eq_ok.mp hb).symm⟩
  · rintro ⟨hname, rfl⟩
    exact ⟨(), hname, rfl⟩

/-- Only fields to group by are refused for what was asked before. -/
theorem exists_run_iff (c : GroupCall) (a : Assembler) :
    (∃ b, c.run a = .ok b) ↔ c.Acceptable ∧ (a.groupedByFields = true → c.fields? = none) := by
  cases c with
  | groupBy fields =>
      simp only [run, groupBy_eq_ok_iff, fields?, reduceCtorEq, imp_false, Bool.not_eq_true]
      rw [and_comm]
      exact ⟨fun ⟨b, hgrouped, haccepted, _⟩ => ⟨hgrouped, haccepted⟩,
        fun ⟨hgrouped, haccepted⟩ => ⟨_, hgrouped, haccepted, rfl⟩⟩
  | calculate name accumulator =>
      simp only [run, calculate_eq_ok_iff, fields?, imp_true_iff, and_true]
      exact ⟨fun ⟨_, haccepted, _⟩ => haccepted, fun haccepted => ⟨_, haccepted, rfl⟩⟩
  | count => exact iff_of_true ⟨_, rfl⟩ ⟨trivial, fun _ => rfl⟩

theorem checkField_ne_alreadyGrouped (field : String) :
    checkField field ≠ .error .alreadyGrouped := by
  unfold checkField
  split
  · nofun
  · split <;> nofun

theorem forM_checkField_ne_alreadyGrouped (fields : List String) :
    (fields.forM checkField : Outcome Unit) ≠ .error .alreadyGrouped := by
  induction fields with
  | nil => nofun
  | cons field rest ih =>
      have hfield := checkField_ne_alreadyGrouped field
      rw [List.forM_eq_forM, List.forM_cons]
      cases hcheck : checkField field with
      | error e => exact fun h => hfield (hcheck.trans h)
      | ok _ => exact ih

/-- The only thing that cannot be asked twice is to group by fields. -/
theorem run_eq_alreadyGrouped_iff (c : GroupCall) (a : Assembler) :
    c.run a = .error .alreadyGrouped ↔ a.groupedByFields = true ∧ c.fields?.isSome = true := by
  cases c with
  | groupBy fields =>
      have hcheck := forM_checkField_ne_alreadyGrouped fields
      rw [run, Assembler.groupBy]
      cases a.groupedByFields with
      | true => exact iff_of_true rfl ⟨rfl, rfl⟩
      | false =>
          refine iff_of_false (fun h => ?_) fun h => nomatch h.1
          cases fields with
          | nil => nomatch h
          | cons field rest =>
              generalize ((field :: rest).forM checkField : Outcome Unit) = checked at h hcheck
              cases checked with
              | error e => exact hcheck (congrArg _ (Except.error.inj h))
              | ok _ => nomatch h
  | calculate name accumulator =>
      have hname := checkField_ne_alreadyGrouped name
      refine iff_of_false ?_ fun h => nomatch h.2
      rw [run, Assembler.calculate]
      cases hcheck : checkField name with
      | error e => exact fun h => hname (hcheck.trans (congrArg _ (Except.error.inj h)))
      | ok _ => nofun
  | count => exact iff_of_false nofun fun h => nomatch h.2

/-- Whether a call succeeds depends on the call, and on whether fields were given already. -/
theorem make_eq_ok_iff (c : GroupCall) (a : Assembler) :
    (c.make a).1 = .ok () ↔ c.Acceptable ∧ (a.groupedByFields = true → c.fields? = none) := by
  rw [← c.exists_run_iff, make_eq]
  cases c.run a with
  | error e => exact iff_of_false nofun fun ⟨b, hb⟩ => nomatch hb
  | ok b => exact iff_of_true rfl ⟨b, rfl⟩

theorem make_eq_alreadyGrouped_iff (c : GroupCall) (a : Assembler) :
    (c.make a).1 = .error .alreadyGrouped ↔
      a.groupedByFields = true ∧ c.fields?.isSome = true := by
  rw [← c.run_eq_alreadyGrouped_iff, make_eq]
  cases c.run a with
  | error e => exact ⟨congrArg _ ∘ Except.error.inj, congrArg _ ∘ Except.error.inj⟩
  | ok b => exact iff_of_false nofun nofun

/-- A call that fails leaves the assembler as it was. -/
theorem snd_make_of_error {c : GroupCall} {a : Assembler} {e : Error}
    (h : (c.make a).1 = .error e) : (c.make a).2 = a := by
  rw [make_eq] at h ⊢
  cases hrun : c.run a with
  | error e => rfl
  | ok b =>
      rw [hrun] at h
      cases h

/-! ### What was asked -/

section Asked

variable (done : List GroupCall)

def groupings : List (List String) :=
  done.filterMap fields?

def calculations : List (String × Accumulator) :=
  done.filterMap calculation?

/-- The key of the fields that were given first. -/
def keyOf : GroupKey :=
  ((groupings done).head?.map GroupKey.compound).getD .all

/-- All outputs that calls ask for: the count comes last. -/
def outputs : List (String × Accumulator) :=
  calculations done ++ if .count ∈ done then [("count", .count)] else []

/-- An assembler has the group that calls have asked for, the count apart. -/
structure Follows (a : Assembler) : Prop where
  grouped : a.groupedByFields = true ↔ groupings done ≠ []
  counted : a.counted = true ↔ .count ∈ done
  isSome : a.group.isSome = true ↔ groupings done ≠ [] ∨ calculations done ≠ []
  group : a.group.getD (GroupSpec.ofKey .all) =
    (GroupSpec.ofKey (keyOf done)).upsertAll (calculations done)

end Asked

theorem groupings_concat (done : List GroupCall) (c : GroupCall) :
    groupings (done ++ [c]) = groupings done ++ c.fields?.toList := by
  rw [groupings, List.filterMap_append]
  cases c <;> rfl

theorem calculations_concat (done : List GroupCall) (c : GroupCall) :
    calculations (done ++ [c]) = calculations done ++ c.calculation?.toList := by
  rw [calculations, List.filterMap_append]
  cases c <;> rfl

variable {a b : Assembler} {done : List GroupCall}

theorem follows_empty : Follows [] .empty where
  grouped := by simp [groupings, Assembler.empty]
  counted := by simp [Assembler.empty]
  isSome := by simp [groupings, calculations, Assembler.empty]
  group := rfl

/-- Grouping by fields that succeeds is the first one, and sets the key. -/
theorem Follows.groupBy (h : Follows done a) {fields : List String}
    (hrun : a.groupBy fields = .ok b) : Follows (done ++ [.groupBy fields]) b := by
  obtain ⟨hgrouped, -, rfl⟩ := groupBy_eq_ok_iff.mp hrun
  have hnone : groupings done = [] := by
    by_contra hsome
    rw [h.grouped.mpr hsome] at hgrouped
    cases hgrouped
  have hgroupings : groupings (done ++ [.groupBy fields]) = [fields] := by
    rw [groupings_concat, hnone]
    rfl
  have hcalculations : calculations (done ++ [.groupBy fields]) = calculations done :=
    (calculations_concat _ _).trans (List.append_nil _)
  have hkey : keyOf (done ++ [.groupBy fields]) = .compound fields := by
    rw [keyOf, hgroupings]
    rfl
  have hcounted := h.counted
  constructor
  case grouped => simp [hgroupings]
  case counted => simpa using hcounted
  case isSome => simp [hgroupings]
  case group =>
    rw [Option.getD_some, h.group, hcalculations, hkey, ← GroupSpec.upsertAll_withKey]
    rfl

/-- A calculation sets its output and leaves the key. -/
theorem Follows.calculate (h : Follows done a) {name : String} {accumulator : Accumulator}
    (hrun : a.calculate name accumulator = .ok b) :
    Follows (done ++ [.calculate name accumulator]) b := by
  obtain ⟨-, rfl⟩ := calculate_eq_ok_iff.mp hrun
  have hgroupings : groupings (done ++ [.calculate name accumulator]) = groupings done :=
    (groupings_concat _ _).trans (List.append_nil _)
  have hcalculations : calculations (done ++ [.calculate name accumulator]) =
      calculations done ++ [(name, accumulator)] := calculations_concat _ _
  have hkey : keyOf (done ++ [.calculate name accumulator]) = keyOf done := by
    rw [keyOf, hgroupings, keyOf]
  have hcounted := h.counted
  constructor
  case grouped => exact hgroupings ▸ h.grouped
  case counted => simpa using hcounted
  case isSome => simp [hcalculations]
  case group => rw [Option.getD_some, h.group, hcalculations, hkey, GroupSpec.upsertAll_concat]

theorem Follows.count (h : Follows done a) : Follows (done ++ [.count]) a.count := by
  have hgroupings : groupings (done ++ [.count]) = groupings done :=
    (groupings_concat _ _).trans (List.append_nil _)
  have hcalculations : calculations (done ++ [.count]) = calculations done :=
    (calculations_concat _ _).trans (List.append_nil _)
  constructor
  case grouped => exact hgroupings ▸ h.grouped
  case counted => simp [Assembler.count]
  case isSome => exact hgroupings ▸ hcalculations ▸ h.isSome
  case group =>
    rw [keyOf, hgroupings, hcalculations, ← keyOf]
    exact h.group

/-- An assembler that follows the calls so far follows them after one more. -/
theorem Follows.run (h : Follows done a) {c : GroupCall} (hrun : c.run a = .ok b) :
    Follows (done ++ [c]) b := by
  cases c with
  | groupBy fields => exact h.groupBy hrun
  | calculate name accumulator => exact h.calculate hrun
  | count =>
      cases hrun
      exact h.count

/-- There is nothing to show for calls that did not succeed. -/
theorem Follows.isGrouped_eq (h : Follows done a) : a.isGrouped = !done.isEmpty := by
  rw [Bool.eq_iff_iff, isGrouped, Bool.or_eq_true, h.isSome, h.counted, Bool.not_eq_true',
    List.isEmpty_eq_false_iff_exists_mem]
  simp only [← List.isEmpty_eq_false_iff, groupings, calculations,
    List.isEmpty_eq_false_iff_exists_mem, List.mem_filterMap]
  constructor
  · rintro ((⟨_, c, hc, -⟩ | ⟨_, c, hc, -⟩) | hcount)
    · exact ⟨c, hc⟩
    · exact ⟨c, hc⟩
    · exact ⟨_, hcount⟩
  · rintro ⟨c, hc⟩
    cases c with
    | groupBy fields => exact .inl (.inl ⟨_, _, hc, rfl⟩)
    | calculate name accumulator => exact .inl (.inr ⟨_, _, hc, rfl⟩)
    | count => exact .inr hc

/-- There is a group once a call has succeeded, and the count is set behind all outputs. -/
theorem Follows.effectiveGroup_eq (h : Follows done a) :
    a.effectiveGroup =
      if done = [] then none
      else some ((GroupSpec.ofKey (keyOf done)).upsertAll (outputs done)) := by
  have hgrouped := h.isGrouped_eq
  rw [isGrouped] at hgrouped
  have hgroup : a.group = none ∨
      a.group = some ((GroupSpec.ofKey (keyOf done)).upsertAll (calculations done)) := by
    rw [← h.group]
    cases a.group with
    | none => exact .inl rfl
    | some g => exact .inr rfl
  rw [effectiveGroup, outputs]
  cases hcounted : a.counted with
  | true =>
      have hcount := h.counted.mp hcounted
      rw [if_pos rfl, h.group, if_neg (List.ne_nil_of_mem hcount), if_pos hcount,
        GroupSpec.upsertAll_concat]
  | false =>
      have hcount : .count ∉ done := fun hmem => by simp [h.counted.mpr hmem] at hcounted
      rw [hcounted, Bool.or_false] at hgrouped
      rw [if_neg Bool.false_ne_true, if_neg hcount, List.append_nil]
      by_cases hdone : done = []
      · rw [if_pos hdone]
        rw [hdone] at hgrouped
        simpa using hgrouped
      · rw [if_neg hdone]
        refine hgroup.resolve_left fun hnone => hdone (List.isEmpty_iff.mp ?_)
        simpa [hnone] using hgrouped.symm

/-! ### Sequences of calls -/

/-- The assembler after calls on an empty one, and those of the calls that succeeded. -/
def play (made : List GroupCall) : Assembler × List GroupCall :=
  made.foldl
    (fun (a, done) c =>
      match c.make a with
      | (.ok (), b) => (b, done ++ [c])
      | (.error _, b) => (b, done))
    (.empty, [])

/-- After any calls an assembler has what those asked for that succeeded. -/
theorem follows_play (made : List GroupCall) : Follows (play made).2 (play made).1 := by
  induction made using List.reverseRecOn with
  | nil => exact follows_empty
  | append_singleton made c ih =>
      rw [play, List.foldl_concat, ← play]
      generalize play made = before at ih ⊢
      obtain ⟨a, done⟩ := before
      simp only [make_eq]
      cases hrun : c.run a with
      | error e => exact ih
      | ok b => exact ih.run hrun

/-- The outputs stand in the order in which they were first asked for, and the count behind them. -/
theorem names_outputs (done : List GroupCall) :
    ((outputs done).map Prod.fst).eraseDups = ((calculations done).map Prod.fst).eraseDups ++
      if .count ∈ done ∧ "count" ∉ (calculations done).map Prod.fst then ["count"] else [] := by
  rw [outputs]
  by_cases hcount : .count ∈ done
  · rw [if_pos hcount, List.map_append, List.map_singleton, GroupSpec.eraseDups_concat]
    by_cases hname : "count" ∈ (calculations done).map Prod.fst
    · rw [if_pos (List.mem_eraseDups.mpr hname), if_neg fun h => h.2 hname, List.append_nil]
    · rw [if_neg (mt List.mem_eraseDups.mp hname), if_pos ⟨hcount, hname⟩]
  · rw [if_neg hcount, if_neg fun h => hcount h.1, List.append_nil, List.append_nil]

/-- A count takes the name of a calculation that is called like it. -/
theorem lastUnder_outputs (done : List GroupCall) (name : String) :
    GroupSpec.lastUnder name (outputs done) =
      if name = "count" ∧ .count ∈ done then some .count
      else GroupSpec.lastUnder name (calculations done) := by
  rw [outputs]
  by_cases hcount : .count ∈ done
  · rw [if_pos hcount, GroupSpec.lastUnder_concat]
    simp only [hcount, and_true, eq_comm]
  · rw [if_neg hcount, if_neg fun h => hcount h.2, List.append_nil]

/-- Whatever is asked in whatever order, the group has each output once, with what was asked last,
in the order in which the names came up, and the key of the fields that were given first.  Only
fields that come later are refused for that, and a call that fails changes nothing. -/
theorem group_of_calls (made : List GroupCall) :
    let a := (play made).1
    let done := (play made).2
    (a.effectiveGroup = none ↔ done = []) ∧
      (∀ g, a.effectiveGroup = some g →
        g.names.Nodup ∧
        g.names = ((calculations done).map Prod.fst).eraseDups ++
          (if .count ∈ done ∧ "count" ∉ (calculations done).map Prod.fst then ["count"] else []) ∧
        (∀ name accumulator, (name, accumulator) ∈ g.accumulators ↔
          (if name = "count" ∧ .count ∈ done then some .count
            else GroupSpec.lastUnder name (calculations done)) = some accumulator) ∧
        g.key = ((groupings done).head?.map GroupKey.compound).getD .all) ∧
      (∀ c : GroupCall, (c.make a).1 = .ok () ↔
        c.Acceptable ∧ (groupings done ≠ [] → c.fields? = none)) ∧
      (∀ c : GroupCall, (c.make a).1 = .error .alreadyGrouped ↔
        groupings done ≠ [] ∧ c.fields?.isSome = true) ∧
      ∀ (c : GroupCall) (e : Error), (c.make a).1 = .error e → (c.make a).2 = a := by
  intro a done
  have hfollows : Follows done a := follows_play made
  have hgroup := hfollows.effectiveGroup_eq
  refine ⟨?none, ?some, ?succeeds, ?refused, ?fails⟩
  case none =>
    rw [hgroup]
    split
    · exact iff_of_true rfl ‹_›
    · exact iff_of_false nofun ‹_›
  case some =>
    intro g hg
    rw [hgroup] at hg
    split at hg
    · cases hg
    · cases hg
      have hnodup := GroupSpec.nodup_names_upsertAll (keyOf done) (outputs done)
      refine ⟨hnodup, ?_, fun name accumulator => ?_, GroupSpec.key_upsertAll⟩
      · rw [GroupSpec.names_upsertAll, names_outputs]
      · have hlast := GroupSpec.output?_upsertAll (keyOf done) (outputs done) name
        rw [← GroupSpec.lastUnder_eq_some_iff hnodup, ← lastUnder_outputs, ← hlast]
        rfl
  case succeeds =>
    intro c
    rw [← hfollows.grouped]
    exact c.make_eq_ok_iff a
  case refused =>
    intro c
    rw [← hfollows.grouped]
    exact c.make_eq_alreadyGrouped_iff a
  case fails => exact fun _ _ => snd_make_of_error

end GroupCall

end DocumentBase.Assembler
