import DocumentBase.Proofs.Query.Calls
import DocumentBase.Proofs.Query.Stages

/-!
# Queries that can be assembled

Whether a pipeline has too many group stages is known once a query is built: a query adds the group
stages that calls gave it, and one for all that was asked about groups, and neither depends on the
page, the owner or what the pipeline is assembled for.
-/

namespace DocumentBase

theorem Slot.rank_le_of_affectsRows {slot : Slot} (h : slot.affectsRows = true) :
    slot.rank ≤ Slot.count.rank := by
  cases slot <;> first | decide | cases h

theorem Stage.affectsRows_of_isGroup {s : Stage} (h : s.isGroup = true) :
    s.slot.affectsRows = true := by
  cases s <;> first | rfl | cases h

theorem countP_eq_zero_of_isGroup {stages : List (Slot × Stage)}
    (h : ∀ entry ∈ stages, entry.2.isGroup = false) : stages.countP (·.2.isGroup) = 0 :=
  List.countP_eq_zero.mpr fun entry hentry => by simp [h entry hentry]

namespace Assembler

variable {a : Assembler} {base : List (Slot × Stage)} {purpose : Purpose}

/-- The stages for groups, if there are any. -/
def ownStages (a : Assembler) (purpose : Purpose) : List (Slot × Stage) :=
  match a.effectiveGroup with
  | some g => a.groupStages purpose g
  | none => []

theorem staged_eq (a : Assembler) (base : List (Slot × Stage)) (purpose : Purpose) :
    a.staged base purpose = base ++ a.extraFor purpose ++ a.ownStages purpose := rfl

/-- How many group stages an assembler adds to those that are given to it. -/
def groupTotal (a : Assembler) : Nat :=
  a.extra.countP (·.2.isGroup) + if a.isGrouped then 1 else 0

/-- The group comes first, and it is the only one. -/
theorem exists_groupStages (a : Assembler) (purpose : Purpose) (g : GroupSpec) :
    ∃ grouped later, a.groupStages purpose g = (.group, .group grouped) :: later ∧
      ∀ entry ∈ later, entry.2.isGroup = false := by
  unfold groupStages
  simp only [List.append_assoc]
  refine ⟨_, _, List.singleton_append, fun entry hentry => ?_⟩
  simp only [List.mem_append, Option.mem_toList, Option.map_eq_some_iff, mem_unless,
    mem_when] at hentry
  rcases hentry with ⟨criteria, -, rfl⟩ | ⟨-, rfl⟩ | ⟨-, rfl⟩
  · rfl
  · rfl
  · rfl

theorem countP_groupStages (a : Assembler) (purpose : Purpose) (g : GroupSpec) :
    (a.groupStages purpose g).countP (·.2.isGroup) = 1 := by
  obtain ⟨grouped, later, hstages, hlater⟩ := a.exists_groupStages purpose g
  rw [hstages, List.countP_cons, countP_eq_zero_of_isGroup hlater]
  rfl

/-- An assembler that was asked to group brings exactly one group of its own. -/
theorem countP_ownStages (a : Assembler) (purpose : Purpose) :
    (a.ownStages purpose).countP (·.2.isGroup) = if a.isGrouped then 1 else 0 := by
  unfold ownStages isGrouped effectiveGroup
  cases a.counted with
  | true => simp [countP_groupStages]
  | false => cases a.group <;> simp [countP_groupStages]

/-- Group stages decide which rows there are, so those that were added are never left out. -/
theorem countP_extraFor (hslots : ∀ entry ∈ a.extra, entry.1 = entry.2.slot) (purpose : Purpose) :
    (a.extraFor purpose).countP (·.2.isGroup) = a.extra.countP (·.2.isGroup) := by
  rw [extraFor, List.countP_filter]
  refine List.countP_congr fun entry hentry => ?_
  simp only [Bool.and_eq_true, and_iff_left_iff_imp]
  intro hgroup
  rw [hslots entry hentry, Stage.affectsRows_of_isGroup hgroup]
  simp

/-- The stages of a pipeline group as often as the assembler was asked for it, the raw groups
included. -/
theorem groupCount_staged (hbase : ∀ entry ∈ base, entry.2.isGroup = false)
    (hslots : ∀ entry ∈ a.extra, entry.1 = entry.2.slot) (purpose : Purpose) :
    (arrange (a.staged base purpose)).groupCount = a.groupTotal := by
  rw [(isArranged_arrange _).groupCount, staged_eq, List.countP_append, List.countP_append,
    countP_eq_zero_of_isGroup hbase, countP_extraFor hslots, countP_ownStages, groupTotal,
    Nat.zero_add]

/-- Whatever is assembled, there are too many group stages, or there are not. -/
theorem assemble_eq (hbase : ∀ entry ∈ base, entry.2.isGroup = false)
    (hslots : ∀ entry ∈ a.extra, entry.1 = entry.2.slot) (purpose : Purpose) :
    a.assemble base purpose =
      if 1 < a.groupTotal then .error (.tooManyGroups a.groupTotal)
      else .ok (arrange (a.staged base purpose)) := by
  rw [assemble, groupCount_staged hbase hslots]

theorem groupCount_le_of_assemble {p : Pipeline} (h : a.assemble base purpose = .ok p) :
    p.groupCount ≤ 1 := by
  by_contra hmany
  rw [eq_arrange_of_assemble a h] at hmany
  rw [assemble, if_pos (Nat.lt_of_not_le hmany)] at h
  cases h

theorem affectsRows_ownStages (a : Assembler) :
    ∀ entry ∈ a.ownStages .counting, entry.1.affectsRows = true := by
  unfold ownStages
  cases a.effectiveGroup with
  | none => exact List.forall_mem_nil _
  | some g =>
      simp only [groupStages_counting, ofBlocks, List.flatMap_cons, List.flatMap_nil,
        List.append_nil, List.mem_append, List.mem_map]
      rintro entry (⟨_, -, rfl⟩ | ⟨_, -, rfl⟩)
      · rfl
      · rfl

end Assembler

namespace QuerySpec

open Assembler

variable {q : QuerySpec} {owner : Option String}

/-! ### Stages of a query -/

theorem not_isGroup_selectionStages :
    ∀ entry ∈ q.selectionStages owner, entry.2.isGroup = false := by
  simp only [selectionStages, List.mem_append, Option.mem_toList, Option.map_eq_some_iff,
    mem_unless]
  rintro entry (⟨_, -, rfl⟩ | ⟨-, rfl⟩)
  · rfl
  · rfl

theorem not_isGroup_pageStages (page : Page) :
    ∀ entry ∈ q.pageStages page owner, entry.2.isGroup = false := by
  have hskip : (if 0 < page.offset then [(Slot.skip, Stage.skip page.offset)] else []) =
      if decide (0 < page.offset) then [(Slot.skip, Stage.skip page.offset)] else [] := by
    simp
  simp only [pageStages, joinStages, hskip, List.mem_append, List.mem_singleton, List.mem_map,
    mem_unless, mem_when, Option.mem_toList, Option.map_eq_some_iff]
  rintro entry
    (((((((hselect | ⟨-, rfl⟩) | ⟨-, rfl⟩) | (⟨-, rfl⟩ | ⟨_, -, rfl⟩) | ⟨_, -, rfl⟩) | ⟨-, rfl⟩) |
      rfl) | ⟨_, -, rfl⟩) | ⟨_, -, rfl⟩)
  · exact not_isGroup_selectionStages entry hselect
  all_goals rfl

theorem countingStages_cases {entry : Slot × Stage} (h : entry ∈ q.countingStages owner) :
    entry.2.isGroup = false ∧ entry.1.affectsRows = true := by
  simp only [countingStages, selectionStages, List.mem_append, Option.mem_toList,
    Option.map_eq_some_iff, mem_unless, List.mem_flatMap, List.mem_cons, List.not_mem_nil,
    or_false] at h
  rcases h with (⟨_, -, rfl⟩ | ⟨-, rfl⟩) | ⟨_, -, rfl | rfl⟩
  · exact ⟨rfl, rfl⟩
  · exact ⟨rfl, rfl⟩
  · exact ⟨rfl, rfl⟩
  · exact ⟨rfl, rfl⟩

/-! ### Compiling -/

theorem groupTotal_of_not_requiresPipeline (h : q.requiresPipeline = false) :
    q.assembler.groupTotal = 0 := by
  simp only [requiresPipeline, hasExtraStages, Bool.or_eq_false_iff] at h
  obtain ⟨⟨⟨⟨-, hgrouped⟩, hextra⟩, -⟩, -⟩ := h
  have hnone : q.assembler.extra = [] := by simpa using hextra
  rw [groupTotal, hnone, hgrouped]
  rfl

/-- A query with more than one group is refused for every page and owner. -/
theorem compile_of_groupTotal_gt (hslots : ∀ entry ∈ q.assembler.extra, entry.1 = entry.2.slot)
    (hmany : 1 < q.assembler.groupTotal) (page : Page) (owner : Option String) (force : Bool) :
    q.compile page owner force = .error (.tooManyGroups q.assembler.groupTotal) := by
  have hpipeline : q.requiresPipeline = true := by
    by_contra hfind
    rw [groupTotal_of_not_requiresPipeline (Bool.not_eq_true _ ▸ hfind)] at hmany
    exact absurd hmany (by decide)
  rw [compile, hpipeline, assemble_eq (not_isGroup_pageStages page) hslots, if_pos hmany,
    Bool.not_true, Bool.and_false, if_neg Bool.false_ne_true]
  rfl

/-- A query with at most one group compiles for every page and owner. -/
theorem exists_request_of_compile (hslots : ∀ entry ∈ q.assembler.extra, entry.1 = entry.2.slot)
    (hfew : ¬ 1 < q.assembler.groupTotal) (page : Page) (owner : Option String) (force : Bool) :
    ∃ request, q.compile page owner force = .ok request := by
  rw [compile, assemble_eq (not_isGroup_pageStages page) hslots, if_neg hfew]
  split
  · exact ⟨_, rfl⟩
  · exact ⟨_, rfl⟩

theorem exists_request_of_countRequest
    (hslots : ∀ entry ∈ q.assembler.extra, entry.1 = entry.2.slot)
    (hfew : ¬ 1 < q.assembler.groupTotal) (owner : Option String) :
    ∃ request, q.countRequest owner = .ok request := by
  have hbase : ∀ entry ∈ q.countingStages owner, entry.2.isGroup = false :=
    fun _ hentry => (countingStages_cases hentry).1
  rw [countRequest, assemble_eq hbase hslots, if_neg hfew]
  split
  · exact ⟨_, rfl⟩
  · exact ⟨_, rfl⟩

/-- A pipeline for a page holds the stages of the query, the raw ones and those of the group, by
their slots. -/
theorem isArranged_of_compile {page : Page} {force : Bool} {p : Pipeline}
    (h : q.compile page owner force = .ok (.aggregate p)) :
    IsArranged (q.pageStages page owner ++ q.assembler.extra ++ q.assembler.ownStages .results)
      p := by
  have hextra : q.assembler.extraFor .results = q.assembler.extra :=
    List.filter_eq_self.mpr fun _ _ => rfl
  rw [q.assembler.eq_arrange_of_assemble (assemble_of_compile h), ← hextra, ← staged_eq]
  exact isArranged_arrange _

/-- A pipeline that counts ends in the count, which comes after all the stages that decide how many
rows there are. -/
theorem isArranged_of_countRequest {p : Pipeline} (h : q.countRequest owner = .ok (.pipeline p)) :
    IsArranged (q.countingStages owner ++ q.assembler.extra.filter (·.1.affectsRows) ++
      q.assembler.ownStages .counting ++ [(.count, .count totalField)]) p := by
  obtain ⟨counting, hassemble, rfl⟩ := assemble_of_countRequest h
  have hextra : q.assembler.extraFor .counting = q.assembler.extra.filter (·.1.affectsRows) := rfl
  rw [q.assembler.eq_arrange_of_assemble hassemble, ← hextra, ← staged_eq]
  refine (isArranged_arrange _).concat (fun entry hentry => Slot.rank_le_of_affectsRows ?_) _
  simp only [staged_eq, hextra, List.mem_append] at hentry
  rcases hentry with (hbase | hadded) | hown
  · exact (countingStages_cases hbase).2
  · exact (List.mem_filter.mp hadded).2
  · exact affectsRows_ownStages _ entry hown

theorem groupCount_le_of_countRequest {p : Pipeline}
    (h : q.countRequest owner = .ok (.pipeline p)) : p.groupCount ≤ 1 := by
  obtain ⟨counting, hassemble, rfl⟩ := assemble_of_countRequest h
  rw [Pipeline.groupCount, List.countP_append]
  exact groupCount_le_of_assemble hassemble

/-- What building settles of a query to which stages were added: requests are compiled for every
page and for counting, and their pipelines are the stages of the query, the added stages and those
for groups in the order of their slots. -/
structure Settled (q : QuerySpec) (added : List (Slot × Stage)) : Prop where
  compiles : ∀ page owner force, ∃ request, q.compile page owner force = .ok request
  counts : ∀ owner, ∃ request, q.countRequest owner = .ok request
  page : ∀ page owner force p, q.compile page owner force = .ok (.aggregate p) →
    p.groupCount ≤ 1 ∧
      IsArranged (q.pageStages page owner ++ added ++ q.assembler.ownStages .results) p
  counting : ∀ owner p, q.countRequest owner = .ok (.pipeline p) →
    p.groupCount ≤ 1 ∧
      IsArranged (q.countingStages owner ++ added.filter (·.1.affectsRows) ++
        q.assembler.ownStages .counting ++ [(.count, .count totalField)]) p

theorem settled_of_groupTotal (hslots : ∀ entry ∈ q.assembler.extra, entry.1 = entry.2.slot)
    (hfew : ¬ 1 < q.assembler.groupTotal) : q.Settled q.assembler.extra where
  compiles := exists_request_of_compile hslots hfew
  counts := exists_request_of_countRequest hslots hfew
  page _ _ _ _ h := ⟨groupCount_le_of_assemble (assemble_of_compile h), isArranged_of_compile h⟩
  counting _ _ h := ⟨groupCount_le_of_countRequest h, isArranged_of_countRequest h⟩

end QuerySpec

namespace Query

/-! ### Calls without errors -/

/-- Whether a call adds a group stage. -/
def Call.addsGroup : Call → Bool
  | .stage s => s.isGroup
  | _ => false

/-- Whether a call asks for groups, a calculation or a count. -/
def Call.asksForGroups : Call → Bool
  | .groupBy _ | .calculate _ _ _ | .count => true
  | _ => false

theorem error_fail_ne_none (q : Query) (e : Error) : (q.fail e).error ≠ none := by
  intro h
  rw [fail] at h
  split at h
  next hsome => simp [h] at hsome
  next => cases h

theorem error_of_selectFields {q : Query} {names : List String}
    (h : (q.selectFields names).error = none) : q.error = none := by
  induction names generalizing q with
  | nil => exact h
  | cons name rest ih =>
      rw [selectFields] at h
      split at h
      next => exact absurd h (q.error_fail_ne_none _)
      next =>
        have hbefore := ih h
        split at hbefore
        · exact hbefore
        · exact hbefore

theorem error_and_isGrouped_of_orFail {α : Type} {q : Query} {step : Outcome α}
    {next : α → Query} {asks : Bool} (h : (q.orFail step next).error = none)
    (hnext : ∀ v, step = .ok v → (next v).error = q.error ∧
      (next v).assembler.isGrouped = (q.assembler.isGrouped || asks)) :
    q.error = none ∧
      (q.orFail step next).assembler.isGrouped = (q.assembler.isGrouped || asks) := by
  cases step with
  | error e => exact absurd h (q.error_fail_ne_none e)
  | ok v =>
      obtain ⟨herror, hgrouped⟩ := hnext v rfl
      exact ⟨herror.symm.trans h, hgrouped⟩

/-- A call without an error follows calls without errors, and groups are asked for by it or were
before. -/
theorem error_and_isGrouped_of_call {q : Query} {c : Call} (h : (q.call c).error = none) :
    q.error = none ∧
      (q.call c).assembler.isGrouped = (q.assembler.isGrouped || c.asksForGroups) := by
  have hsame : q.assembler.isGrouped = (q.assembler.isGrouped || false) := (Bool.or_false _).symm
  cases c with
  | narrow _ | skip _ | out _ | mergeInto _ | stage _ => exact ⟨h, hsame⟩
  | attach _ | having _ => exact error_and_isGrouped_of_orFail h fun _ _ => ⟨rfl, hsame⟩
  | order field direction =>
      refine error_and_isGrouped_of_orFail h fun _ _ => ?_
      split
      · exact ⟨rfl, hsame⟩
      · exact ⟨rfl, hsame⟩
  | select fields =>
      obtain ⟨selected, error, hselected⟩ := q.selectFields_eq fields
      rw [call, hselected]
      exact ⟨error_of_selectFields h, hsame⟩
  | limit n =>
      rw [call] at h ⊢
      split at h
      next => exact absurd h (q.error_fail_ne_none _)
      next hsome =>
        rw [if_neg hsome]
        exact ⟨h, hsame⟩
  | groupBy fields =>
      refine error_and_isGrouped_of_orFail h fun grouped hgrouped => ?_
      obtain ⟨group, rfl⟩ := Assembler.exists_group_of_groupBy hgrouped
      exact ⟨rfl, (Bool.or_true _).symm⟩
  | calculate calculation field output =>
      refine error_and_isGrouped_of_orFail h fun calculated hstep => ?_
      obtain ⟨_, -, hcalculated⟩ := Outcome.bind_eq_ok.mp hstep
      obtain ⟨group, rfl⟩ := Assembler.exists_group_of_calculate hcalculated
      exact ⟨rfl, (Bool.or_true _).symm⟩
  | count =>
      have hgrouped : q.assembler.count.isGrouped = true := Bool.or_true _
      exact ⟨h, hgrouped.trans (Bool.or_true _).symm⟩

theorem error_and_isGrouped_of_calls {q : Query} {made : List Call}
    (h : (q.calls made).error = none) :
    q.error = none ∧ (q.calls made).assembler.isGrouped =
      (q.assembler.isGrouped || made.any Call.asksForGroups) := by
  induction made generalizing q with
  | nil => exact ⟨h, (Bool.or_false _).symm⟩
  | cons c rest ih =>
      obtain ⟨hcall, hrest⟩ := ih h
      obtain ⟨hbefore, hgrouped⟩ := error_and_isGrouped_of_call hcall
      refine ⟨hbefore, hrest.trans ?_⟩
      rw [hgrouped, List.any_cons, Bool.or_assoc]

theorem extra_calls (q : Query) (made : List Call) :
    (q.calls made).assembler.extra = q.assembler.extra ++ made.flatMap Call.added := by
  induction made generalizing q with
  | nil => exact (List.append_nil _).symm
  | cons c rest ih =>
      refine (ih (q.call c)).trans ?_
      rw [extra_call, List.flatMap_cons, List.append_assoc]

theorem countP_added (made : List Call) :
    (made.flatMap Call.added).countP (·.2.isGroup) = made.countP Call.addsGroup := by
  have hcall : ∀ c : Call, c.added.countP (·.2.isGroup) = if c.addsGroup then 1 else 0 := by
    intro c
    cases c with
    | stage s => exact List.countP_singleton
    | _ => rfl
  induction made with
  | nil => rfl
  | cons c rest ih =>
      rw [List.flatMap_cons, List.countP_append, hcall, ih, List.countP_cons, Nat.add_comm]

/-! ### Building -/

/-- How many group stages calls ask for: those that they add, and one for all groups, calculations
and counts together. -/
def groupsAsked (made : List Call) : Nat :=
  made.countP Call.addsGroup + if made.any Call.asksForGroups then 1 else 0

/-- A query without a recorded error that writes its rows to one target at most. -/
structure IsSound (q : Query) : Prop where
  error : q.error = none
  filter : q.filter.error = none
  target : q.out = none ∨ q.merge = none

theorem isSound_of_build {q : Query} {spec : QuerySpec} (h : q.build = .ok spec) : q.IsSound := by
  obtain ⟨criteria, hfilter, -⟩ := build_eq h
  cases herror : q.error with
  | some e =>
      rw [build, herror] at h
      cases h
  | none =>
      constructor
      case error => exact herror
      case filter =>
        rw [Filter.build] at hfilter
        cases hnarrow : q.filter.error with
        | none => rfl
        | some e =>
            rw [hnarrow] at hfilter
            cases hfilter
      case target =>
        unfold build at h
        simp only [herror] at h
        have htargets := (Outcome.check_eq_ok.mp h).1
        cases hout : q.out with
        | none => exact .inl rfl
        | some _ => exact .inr (by simpa [hout] using htargets)

/-- After calls that all succeed, the groups are those that the calls asked for. -/
theorem groupTotal_calls {filter : Filter} {made : List Call}
    (h : ((ofFilter filter).calls made).error = none) :
    ((ofFilter filter).calls made).assembler.groupTotal = groupsAsked made := by
  have hextra : ((ofFilter filter).calls made).assembler.extra = made.flatMap Call.added :=
    extra_calls _ made
  rw [Assembler.groupTotal, hextra, countP_added, (error_and_isGrouped_of_calls h).2]
  rfl

/-- Only its first page stands between a sound query and its specification. -/
theorem IsSound.build_eq {q : Query} (h : q.IsSound) :
    q.build =
      let spec := q.spec q.filter.criteria
      spec.compile (Page.of 1 (spec.pageSize 1) spec.skip) none false >>= fun _ => .ok spec := by
  have htargets : (q.out.isSome && q.merge.isSome) = false := by
    rcases h.target with hnone | hnone
    · rw [hnone]
      rfl
    · rw [hnone]
      exact Bool.and_false _
  have hfilter : q.filter.build = .ok q.filter.criteria := by
    rw [Filter.build, h.filter]
  unfold build
  simp only [h.error, htargets, hfilter]
  rfl

/-- Two groups are found when the query is built, before any page is asked for. -/
theorem IsSound.build_of_groupTotal_gt {q : Query} (h : q.IsSound)
    (hslots : ∀ entry ∈ q.assembler.extra, entry.1 = entry.2.slot)
    (hmany : 1 < q.assembler.groupTotal) :
    q.build = .error (.tooManyGroups q.assembler.groupTotal) := by
  have hcompile := (q.spec q.filter.criteria).compile_of_groupTotal_gt hslots hmany
  simp only [h.build_eq, hcompile]
  rfl

theorem IsSound.build_of_groupTotal_le {q : Query} (h : q.IsSound)
    (hslots : ∀ entry ∈ q.assembler.extra, entry.1 = entry.2.slot)
    (hfew : ¬ 1 < q.assembler.groupTotal) : q.build = .ok (q.spec q.filter.criteria) := by
  let spec := q.spec q.filter.criteria
  obtain ⟨request, hrequest⟩ := QuerySpec.exists_request_of_compile (q := spec) hslots hfew
    (Page.of 1 (spec.pageSize 1) spec.skip) none false
  simp only [h.build_eq]
  rw [hrequest]
  rfl

/-- Building decides about all pipelines of a query at once. -/
theorem build_settles_assembly {filter : Filter} {made : List Call}
    (h : ((ofFilter filter).calls made).IsSound) :
    (∀ e, ((ofFilter filter).calls made).build = .error e ↔
        1 < groupsAsked made ∧ e = .tooManyGroups (groupsAsked made)) ∧
      ∀ spec, ((ofFilter filter).calls made).build = .ok spec →
        spec.Settled (made.flatMap Call.added) := by
  have hextra : ((ofFilter filter).calls made).assembler.extra = made.flatMap Call.added :=
    extra_calls _ made
  have hslots : ∀ entry ∈ ((ofFilter filter).calls made).assembler.extra,
      entry.1 = entry.2.slot := slot_eq_of_mem_calls (List.forall_mem_nil _)
  have htotal := groupTotal_calls h.error
  by_cases hmany : 1 < groupsAsked made
  · have hbuild := h.build_of_groupTotal_gt hslots (htotal ▸ hmany)
    rw [hbuild, htotal]
    constructor
    · intro e
      constructor
      · intro herror
        exact ⟨hmany, (Except.error.inj herror).symm⟩
      · rintro ⟨-, rfl⟩
        rfl
    · intro spec hspec
      cases hspec
  · have hbuild := h.build_of_groupTotal_le hslots (htotal ▸ hmany)
    rw [hbuild]
    constructor
    · intro e
      exact ⟨fun herror => (by cases herror), fun hgroups => absurd hgroups.1 hmany⟩
    · intro spec hspec
      cases hspec
      exact hextra ▸ QuerySpec.settled_of_groupTotal hslots (htotal ▸ hmany)

/-! ### Calls that add stages -/

namespace AssemblyExample

/-- Calls with a stage in front of the group and one that unwinds its rows. -/
def tallied : List Call :=
  [.stage (.limit 5), .stage (.unwind "tags"), .groupBy ["kind"], .count, .order "age" .ascending,
    .skip 3]

/-- A group stage beside the groups that are asked for. -/
def doubled : List Call :=
  tallied ++ [.stage (.group (GroupSpec.ofKey .all))]

end AssemblyExample

open AssemblyExample in
theorem build_settles_assembly_of_tallied_rows :
    (∃ spec, ((ofFilter .empty).calls tallied).build = .ok spec ∧
      spec.Settled [(.limit, .limit 5), (.unwind, .unwind "tags")]) ∧
      ((ofFilter .empty).calls doubled).build = .error (.tooManyGroups 2) := by
  have htallied : ((ofFilter .empty).calls tallied).IsSound := ⟨rfl, rfl, .inl rfl⟩
  have hdoubled : ((ofFilter .empty).calls doubled).IsSound := ⟨rfl, rfl, .inl rfl⟩
  have hbuild : ((ofFilter .empty).calls tallied).build =
      .ok (((ofFilter .empty).calls tallied).spec
        ((ofFilter .empty).calls tallied).filter.criteria) := rfl
  exact ⟨⟨_, hbuild, (build_settles_assembly htallied).2 _ hbuild⟩,
    ((build_settles_assembly hdoubled).1 _).mpr ⟨by decide, rfl⟩⟩

end Query

end DocumentBase
