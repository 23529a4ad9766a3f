import DocumentBase.Proofs.Pipeline.Locality

/-!
# Where the rows of a query are written

The writing stages of a compiled query are its two targets and the writing stages that were
added to it.  The target that rows are merged into has the last slot, so it decides what becomes
of the rows; a query that counts rows has no targets at all.
-/

namespace DocumentBase

/-- The collection that rows are written to. -/
def Sink.target : Sink → String
  | .replace collection | .merge collection => collection

theorem Stage.isWrite_eq (s : Stage) : s.isWrite = s.sink?.isSome := by
  cases s <;> rfl

theorem Stage.isWrite_of_sink? {s : Stage} {sink : Sink} (h : s.sink? = some sink) :
    s.isWrite = true := by
  rw [s.isWrite_eq, h]
  rfl

theorem Stage.sink?_of_not_isWrite {s : Stage} (h : s.isWrite = false) : s.sink? = none := by
  rwa [s.isWrite_eq, Option.isSome_eq_false_iff, Option.isNone_iff_eq_none] at h

theorem Stage.not_affectsRows_of_isWrite {s : Stage} (h : s.isWrite = true) :
    s.slot.affectsRows = false := by
  cases s <;> first | rfl | cases h

theorem Stage.exists_merge_of_slot {s : Stage} (h : s.slot = .merge) :
    ∃ target, s.sink? = some (.merge target) := by
  cases s with
  | merge target => exact ⟨target, rfl⟩
  | _ => cases h

theorem Stage.not_isWrite_of_isLocal {s : Stage} (h : s.isLocal = true) : s.isWrite = false := by
  rw [s.isWrite_eq, s.sink?_of_isLocal h]
  rfl

namespace Pipeline

theorem exists_mem_of_sink? {p : Pipeline} {sink : Sink} (h : p.sink? = some sink) :
    ∃ stage ∈ p, stage.sink? = some sink :=
  List.mem_filterMap.mp (List.mem_of_getLast? h)

/-- The last stages decide, if one of them writes. -/
theorem sink?_append {p last : Pipeline} {stage : Stage} (hstage : stage ∈ last)
    (hwrite : stage.isWrite = true) : (p ++ last).sink? = last.sink? := by
  rw [stage.isWrite_eq, Option.isSome_iff_exists] at hwrite
  obtain ⟨sink, hsink⟩ := hwrite
  have hlast : last.filterMap Stage.sink? ≠ [] :=
    List.ne_nil_of_mem (List.mem_filterMap.mpr ⟨stage, hstage, hsink⟩)
  rw [sink?, sink?, List.filterMap_append, List.getLast?_append_of_ne_nil _ hlast]

end Pipeline

namespace QuerySpec

variable {q : QuerySpec} {owner : Option String}

/-! ### Stages -/

theorem not_isWrite_selectionStages :
    ∀ entry ∈ q.selectionStages owner, entry.2.isWrite = false := by
  intro entry hentry
  simp only [selectionStages, List.mem_append, Option.mem_toList, Option.map_eq_some_iff,
    mem_unless] at hentry
  rcases hentry with ⟨_, -, rfl⟩ | ⟨-, rfl⟩
  · rfl
  · rfl

theorem not_isWrite_joinStages : ∀ entry ∈ q.joinStages, entry.2.isWrite = false := by
  intro entry hentry
  simp only [joinStages, List.mem_append, List.mem_map, mem_unless] at hentry
  rcases hentry with (⟨-, rfl⟩ | ⟨_, -, rfl⟩) | ⟨_, -, rfl⟩
  · rfl
  · rfl
  · rfl

/-- A stage for a page is a target of the query, or it writes nothing. -/
theorem pageStages_cases {page : Page} {entry : Slot × Stage}
    (hentry : entry ∈ q.pageStages page owner) :
    entry.2.isWrite = false ∨ (∃ target, q.out = some target ∧ entry = (.out, .out target)) ∨
      ∃ target, q.merge = some target ∧ entry = (.merge, .merge target) := by
  simp only [pageStages, List.mem_append, List.mem_singleton, mem_unless, mem_when,
    Option.mem_toList, Option.map_eq_some_iff] at hentry
  rcases hentry with
    ((((((hselect | ⟨-, rfl⟩) | ⟨-, rfl⟩) | hjoin) | hskip) | rfl) | ⟨target, hout, rfl⟩) |
      ⟨target, hmerge, rfl⟩
  · exact .inl (not_isWrite_selectionStages entry hselect)
  · exact .inl rfl
  · exact .inl rfl
  · exact .inl (not_isWrite_joinStages entry hjoin)
  · split at hskip
    · rw [List.mem_singleton.mp hskip]
      exact .inl rfl
    · cases hskip
  · exact .inl rfl
  · exact .inr (.inl ⟨target, hout, rfl⟩)
  · exact .inr (.inr ⟨target, hmerge, rfl⟩)

theorem not_isWrite_countingStages :
    ∀ entry ∈ q.countingStages owner, entry.2.isWrite = false := by
  intro entry hentry
  rcases List.mem_append.mp hentry with hselect | hjoin
  · exact not_isWrite_selectionStages entry hselect
  · obtain ⟨_, -, hmem⟩ := List.mem_flatMap.mp hjoin
    simp only [List.mem_cons, List.not_mem_nil, or_false] at hmem
    rcases hmem with rfl | rfl
    · rfl
    · rfl

end QuerySpec

namespace Assembler

variable {a : Assembler} {base : List (Slot × Stage)} {purpose : Purpose}

theorem mem_inSlot {staged : List (Slot × Stage)} {slot : Slot} {stage : Stage} :
    stage ∈ inSlot staged slot ↔ (slot, stage) ∈ staged := by
  simp [inSlot]

/-- A stage that writes is among those given or added: the stages for groups write nothing. -/
theorem mem_or_extra_of_staged {entry : Slot × Stage} (h : entry ∈ a.staged base purpose)
    (hwrite : entry.2.isWrite = true) : entry ∈ base ∨ entry ∈ a.extraFor purpose := by
  rw [staged, List.mem_append, List.mem_append] at h
  rcases h with h | h
  · exact h
  · cases hgroup : a.effectiveGroup with
    | none => simp [hgroup] at h
    | some g =>
        rw [hgroup] at h
        have hlocal := entry.2.not_isWrite_of_isLocal (a.isLocal_groupStages purpose g entry h)
        rw [hwrite] at hlocal
        cases hlocal

/-- A stage that writes was in the query or was added raw. -/
theorem exists_entry_of_assemble {p : Pipeline} (h : a.assemble base purpose = .ok p)
    {stage : Stage} (hstage : stage ∈ p) (hwrite : stage.isWrite = true) :
    ∃ slot, (slot, stage) ∈ base ∨ (slot, stage) ∈ a.extraFor purpose := by
  rw [a.eq_arrange_of_assemble h] at hstage
  obtain ⟨slot, hmem⟩ := mem_arrange.mp hstage
  exact ⟨slot, mem_or_extra_of_staged hmem hwrite⟩

end Assembler

namespace QuerySpec

variable {q : QuerySpec} {owner : Option String} {p : Pipeline} {sink : Sink}

/-! ### Compiled pipelines -/

theorem assemble_of_compile {page : Page} {force : Bool}
    (h : q.compile page owner force = .ok (.aggregate p)) :
    q.assembler.assemble (q.pageStages page owner) .results = .ok p := by
  unfold compile at h
  split at h
  · cases h
  · obtain ⟨assembled, hassemble, hrequest⟩ := Outcome.bind_eq_ok.mp h
    cases hrequest
    exact hassemble

theorem exists_pipeline_of_compile {page : Page} {force : Bool} {request : Request}
    (hpipeline : q.requiresPipeline = true) (h : q.compile page owner force = .ok request) :
    ∃ p, request = .aggregate p := by
  rw [compile, hpipeline, Bool.not_true, Bool.and_false, if_neg Bool.false_ne_true] at h
  obtain ⟨p, -, h⟩ := Outcome.bind_eq_ok.mp h
  exact ⟨p, (Outcome.pure_eq_ok.mp h).symm⟩

theorem assemble_of_countRequest (h : q.countRequest owner = .ok (.pipeline p)) :
    ∃ counting, q.assembler.assemble (q.countingStages owner) .counting = .ok counting ∧
      p = counting ++ [.count totalField] := by
  unfold countRequest at h
  split at h
  · cases h
  · obtain ⟨assembled, hassemble, hrequest⟩ := Outcome.bind_eq_ok.mp h
    cases hrequest
    exact ⟨assembled, hassemble, rfl⟩

/-- A page is written to a target of the query or by a stage that was added to it. -/
theorem sink_cases_of_compile {page : Page} {force : Bool}
    (h : q.compile page owner force = .ok (.aggregate p)) (hsink : p.sink? = some sink) :
    (∃ target, q.out = some target ∧ sink = .replace target) ∨
      (∃ target, q.merge = some target ∧ sink = .merge target) ∨
      ∃ entry ∈ q.assembler.extra, entry.2.sink? = some sink := by
  obtain ⟨stage, hstage, hstagesink⟩ := Pipeline.exists_mem_of_sink? hsink
  have hwrite := Stage.isWrite_of_sink? hstagesink
  obtain ⟨slot, hbase | hextra⟩ :=
    Assembler.exists_entry_of_assemble (assemble_of_compile h) hstage hwrite
  · rcases pageStages_cases hbase with hnone | ⟨target, hout, heq⟩ | ⟨target, hmerge, heq⟩
    · simp [hwrite] at hnone
    · cases heq
      cases hstagesink
      exact .inl ⟨target, hout, rfl⟩
    · cases heq
      cases hstagesink
      exact .inr (.inl ⟨target, hmerge, rfl⟩)
  · exact .inr (.inr ⟨_, (List.mem_filter.mp hextra).1, hstagesink⟩)

/-- What is written while rows are counted was added to the query. -/
theorem exists_extra_of_countRequest (h : q.countRequest owner = .ok (.pipeline p))
    (hsink : p.sink? = some sink) :
    ∃ entry ∈ q.assembler.extraFor .counting, entry.2.sink? = some sink := by
  obtain ⟨counting, hassemble, rfl⟩ := assemble_of_countRequest h
  obtain ⟨stage, hstage, hstagesink⟩ := Pipeline.exists_mem_of_sink? hsink
  have hwrite := Stage.isWrite_of_sink? hstagesink
  have hcounting : stage ∈ counting := by
    rcases List.mem_append.mp hstage with hmem | hmem
    · exact hmem
    · rw [List.mem_singleton.mp hmem] at hwrite
      cases hwrite
  obtain ⟨slot, hbase | hextra⟩ := Assembler.exists_entry_of_assemble hassemble hcounting hwrite
  · have hnone := not_isWrite_countingStages _ hbase
    simp [hwrite] at hnone
  · exact ⟨_, hextra, hstagesink⟩

/-! ### Queries that spare a collection -/

/-- None of the collections that a query may write to is this one. -/
structure Spares (q : QuerySpec) (name : String) : Prop where
  out : q.out ≠ some name
  merge : q.merge ≠ some name
  extra : ∀ entry ∈ q.assembler.extra, ∀ sink, entry.2.sink? = some sink → sink.target ≠ name

/-- A query that spares a collection writes to another one, if it writes at all. -/
theorem Spares.target_ne_of_compile {name : String} (hq : q.Spares name) {page : Page}
    {force : Bool} (h : q.compile page owner force = .ok (.aggregate p))
    (hsink : p.sink? = some sink) : sink.target ≠ name := by
  rcases sink_cases_of_compile h hsink with
    ⟨target, hout, rfl⟩ | ⟨target, hmerge, rfl⟩ | ⟨entry, hentry, hsink⟩
  · rintro rfl
    exact hq.out hout
  · rintro rfl
    exact hq.merge hmerge
  · exact hq.extra entry hentry sink hsink

theorem Spares.target_ne_of_countRequest {name : String} (hq : q.Spares name)
    (h : q.countRequest owner = .ok (.pipeline p)) (hsink : p.sink? = some sink) :
    sink.target ≠ name := by
  obtain ⟨entry, hentry, hentrysink⟩ := exists_extra_of_countRequest h hsink
  exact hq.extra entry (List.mem_filter.mp hentry).1 sink hentrysink

/-! ### Queries that merge their rows -/

/-- A query with a collection to merge its rows into, to which stages were added in their own
slots. -/
structure Merges (q : QuerySpec) : Prop where
  merge : q.merge.isSome = true
  slots : ∀ entry ∈ q.assembler.extra, entry.1 = entry.2.slot

/-- The rows of a page are merged, whatever other stages write. -/
theorem Merges.exists_merge_of_compile (hq : q.Merges) {page : Page} {force : Bool}
    (h : q.compile page owner force = .ok (.aggregate p)) (hsink : p.sink? = some sink) :
    ∃ target, sink = .merge target := by
  obtain ⟨target, htarget⟩ := Option.isSome_iff_exists.mp hq.merge
  let staged := q.assembler.staged (q.pageStages page owner) .results
  have hp : p = Slot.all.dropLast.flatMap (Assembler.inSlot staged) ++
      Assembler.inSlot staged .merge := by
    rw [q.assembler.eq_arrange_of_assemble (assemble_of_compile h), Assembler.arrange_eq]
    simp [Slot.all, staged]
  have hlast : Stage.merge target ∈ Assembler.inSlot staged .merge := by
    rw [Assembler.mem_inSlot]
    simp [staged, Assembler.staged, pageStages, htarget]
  rw [hp, Pipeline.sink?_append hlast rfl] at hsink
  obtain ⟨stage, hstage, hstagesink⟩ := Pipeline.exists_mem_of_sink? hsink
  have hslot : stage.slot = .merge := by
    have hwrite := Stage.isWrite_of_sink? hstagesink
    rcases Assembler.mem_or_extra_of_staged (Assembler.mem_inSlot.mp hstage) hwrite with
      hbase | hextra
    · rcases pageStages_cases hbase with hnone | ⟨_, _, heq⟩ | ⟨_, _, heq⟩
      · simp [hwrite] at hnone
      · cases heq
      · cases heq
        rfl
    · exact (hq.slots _ (List.mem_filter.mp hextra).1).symm
  obtain ⟨merged, hmerged⟩ := Stage.exists_merge_of_slot hslot
  exact ⟨merged, Option.some.inj (hstagesink.symm.trans hmerged)⟩

/-- Only stages that decide which rows there are are counted with, and none of these writes. -/
theorem Merges.sink?_of_countRequest (hq : q.Merges)
    (h : q.countRequest owner = .ok (.pipeline p)) : p.sink? = none := by
  by_contra hsome
  obtain ⟨sink, hsink⟩ := Option.ne_none_iff_exists'.mp hsome
  obtain ⟨entry, hentry, hstage⟩ := exists_extra_of_countRequest h hsink
  obtain ⟨hextra, haffects⟩ := List.mem_filter.mp hentry
  have hslot := Stage.not_affectsRows_of_isWrite (Stage.isWrite_of_sink? hstage)
  simp [hq.slots entry hextra, hslot] at haffects

end QuerySpec

/-! ### Calls of the builder -/

/-- Groups are asked for without a change to anything else. -/
theorem Assembler.exists_group_of_groupBy {a grouped : Assembler} {fields : List String}
    (h : a.groupBy fields = .ok grouped) :
    ∃ group, grouped = { a with group := some group, groupedByFields := true } := by
  obtain ⟨-, h⟩ := Outcome.check_eq_ok.mp h
  obtain ⟨-, h⟩ := Outcome.check_eq_ok.mp h
  obtain ⟨-, -, h⟩ := Outcome.bind_eq_ok.mp h
  exact ⟨_, (Outcome.pure_eq_ok.mp h).symm⟩

theorem Assembler.exists_group_of_calculate {a calculated : Assembler} {name : String}
    {accumulator : Accumulator} (h : a.calculate name accumulator = .ok calculated) :
    ∃ group, calculated = { a with group := some group } := by
  obtain ⟨-, -, h⟩ := Outcome.bind_eq_ok.mp h
  exact ⟨_, (Outcome.pure_eq_ok.mp h).symm⟩

namespace Query

def Call.added : Call → List (Slot × Stage)
  | .stage s => [(s.slot, s)]
  | _ => []

def Call.merge? : Call → Option String
  | .mergeInto target => some target
  | _ => none

/-- The stages added to a query, and the collection that its rows are merged into. -/
def targets (q : Query) : List (Slot × Stage) × Option String :=
  (q.assembler.extra, q.merge)

theorem targets_fail (q : Query) (e : Error) : (q.fail e).targets = q.targets := by
  rw [fail]
  split <;> rfl

theorem targets_orFail {α : Type} {q : Query} {step : Outcome α} {next : α → Query}
    (hnext : ∀ v, step = .ok v → (next v).targets = q.targets) :
    (q.orFail step next).targets = q.targets := by
  cases step with
  | ok v => exact hnext v rfl
  | error e => exact q.targets_fail e

theorem targets_selectFields (q : Query) (fields : List String) :
    (q.selectFields fields).targets = q.targets := by
  induction fields generalizing q with
  | nil => rfl
  | cons field rest ih =>
      rw [selectFields]
      split
      · exact q.targets_fail _
      · rw [ih]
        split <;> rfl

/-- A call adds its raw stages, and its target for merging takes the place of an earlier one. -/
theorem targets_call (q : Query) (c : Call) :
    (q.call c).targets = (q.assembler.extra ++ c.added, c.merge?.or q.merge) := by
  have hsame : (q.assembler.extra ++ [], none.or q.merge) = q.targets := by
    simp [targets]
  cases c with
  | stage s => rfl
  | mergeInto target => simp [call, targets, Call.added, Call.merge?]
  | narrow call => exact hsame.symm
  | order field direction =>
      refine (targets_orFail fun _ _ => ?_).trans hsame.symm
      split <;> rfl
  | select fields => exact (q.targets_selectFields fields).trans hsame.symm
  | attach join =>
      refine (targets_orFail fun _ _ => ?_).trans hsame.symm
      rfl
  | limit n =>
      rw [call]
      split
      · exact (q.targets_fail _).trans hsame.symm
      · exact hsame.symm
  | skip n => exact hsame.symm
  | groupBy fields =>
      refine (targets_orFail fun grouped h => ?_).trans hsame.symm
      obtain ⟨group, rfl⟩ := Assembler.exists_group_of_groupBy h
      rfl
  | calculate calculation field output =>
      refine (targets_orFail fun calculated h => ?_).trans hsame.symm
      obtain ⟨_, _, h⟩ := Outcome.bind_eq_ok.mp h
      obtain ⟨group, rfl⟩ := Assembler.exists_group_of_calculate h
      rfl
  | count => exact hsame.symm
  | having filter =>
      refine (targets_orFail fun _ _ => ?_).trans hsame.symm
      rfl
  | out target => exact hsame.symm

theorem extra_call (q : Query) (c : Call) :
    (q.call c).assembler.extra = q.assembler.extra ++ c.added :=
  congrArg Prod.fst (q.targets_call c)

theorem merge_call (q : Query) (c : Call) : (q.call c).merge = c.merge?.or q.merge :=
  congrArg Prod.snd (q.targets_call c)

/-- Calls add stages in their own slots. -/
theorem slot_eq_of_mem_calls {q : Query} {made : List Call}
    (hq : ∀ entry ∈ q.assembler.extra, entry.1 = entry.2.slot) :
    ∀ entry ∈ (q.calls made).assembler.extra, entry.1 = entry.2.slot := by
  induction made generalizing q with
  | nil => exact hq
  | cons c rest ih =>
      apply ih
      intro entry hentry
      rw [extra_call] at hentry
      rcases List.mem_append.mp hentry with hmem | hmem
      · exact hq entry hmem
      · cases c with
        | stage s => rw [List.mem_singleton.mp hmem]
        | _ => cases hmem

/-- Once a query merges its rows, later calls change no more than where they go. -/
theorem isSome_merge_calls {q : Query} {made : List Call}
    (h : q.merge.isSome = true ∨ ∃ target, Call.mergeInto target ∈ made) :
    (q.calls made).merge.isSome = true := by
  induction made generalizing q with
  | nil =>
      rcases h with h | ⟨target, hmem⟩
      · exact h
      · cases hmem
  | cons c rest ih =>
      apply ih
      rw [merge_call, Option.isSome_or]
      rcases h with h | ⟨target, hmem⟩
      · simp [h]
      · rcases List.mem_cons.mp hmem with rfl | hmem
        · exact .inl rfl
        · exact .inr ⟨target, hmem⟩

/-- A query that is built by calls, one of which asks to merge its rows into a collection. -/
def MergesRows (query : Query) : Prop :=
  ∃ filter made target, query = (ofFilter filter).calls made ∧ Call.mergeInto target ∈ made

/-- A query whose calls never replace a collection is built into one that merges at most. -/
theorem MergesRows.merges_of_build {query : Query} (hquery : query.MergesRows) {spec : QuerySpec}
    (h : query.build = .ok spec) : spec.Merges := by
  obtain ⟨filter, made, target, rfl, hmem⟩ := hquery
  obtain ⟨criteria, -, rfl⟩ := build_eq h
  refine ⟨isSome_merge_calls (.inr ⟨target, hmem⟩), slot_eq_of_mem_calls ?_⟩
  intro entry hentry
  cases hentry

/-- A query that asks for no writing to a collection. -/
structure Spares (query : Query) (name : String) : Prop where
  out : query.out ≠ some name
  merge : query.merge ≠ some name
  extra : ∀ entry ∈ query.assembler.extra, ∀ sink, entry.2.sink? = some sink →
    sink.target ≠ name

theorem Spares.spares_of_build {query : Query} {name : String} (hquery : query.Spares name)
    {spec : QuerySpec} (h : query.build = .ok spec) : spec.Spares name := by
  obtain ⟨criteria, -, rfl⟩ := build_eq h
  exact ⟨hquery.out, hquery.merge, hquery.extra⟩

end Query

end DocumentBase
