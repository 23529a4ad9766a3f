import DocumentBase.Collections
import DocumentBase.Proofs.Outcome
import DocumentBase.Proofs.Pipeline.Arrangement
import DocumentBase.Proofs.Predicate.Selection
import DocumentBase.Query

/-!
# Pipelines that stay in their collection

Lookups read other collections and writing stages change them; all other stages only see the
rows that come to them.  A query without joins and targets compiles to stages of this kind, and
for an owner the first of them selects the owner's documents.
-/

namespace DocumentBase

/-- Whether a stage neither reads nor writes other collections. -/
def Stage.isLocal : Stage → Bool
  | .lookup _ | .out _ | .merge _ => false
  | _ => true

/-- A local stage makes the same rows whatever the other collections hold. -/
theorem Stage.run_of_isLocal {s : Stage} (h : s.isLocal = true) (c₁ c₂ : Collections)
    (rows : List Document) : s.run c₁ rows = s.run c₂ rows := by
  cases s with
  | lookup join => cases h
  | out collection => cases h
  | merge collection => cases h
  | _ => rfl

theorem Stage.sink?_of_isLocal {s : Stage} (h : s.isLocal = true) : s.sink? = none := by
  cases s with
  | lookup join => cases h
  | out collection => cases h
  | merge collection => cases h
  | _ => rfl

namespace Pipeline

def IsLocal (p : Pipeline) : Prop :=
  ∀ stage ∈ p, stage.isLocal = true

/-- A local pipeline reads nothing but the rows that it is given. -/
theorem run_of_isLocal {p : Pipeline} (h : p.IsLocal) (c₁ c₂ : Collections)
    (rows : List Document) : p.run c₁ rows = p.run c₂ rows := by
  induction p generalizing rows with
  | nil => rfl
  | cons stage rest ih =>
      have hstage := stage.run_of_isLocal (h stage (by simp)) c₁ c₂ rows
      rw [run, run, hstage]
      refine congrArg _ (funext fun next => ih ?_ next)
      exact fun other hother => h other (by simp [hother])

theorem sink?_of_isLocal {p : Pipeline} (h : p.IsLocal) : p.sink? = none := by
  have hnone : p.filterMap Stage.sink? = [] :=
    List.filterMap_eq_nil_iff.mpr fun stage hstage => stage.sink?_of_isLocal (h stage hstage)
  rw [sink?, hnone]
  rfl

/-- The first stage of every pipeline that is restricted to an owner. -/
def ownership (owner : String) : Stage :=
  .select (.fieldIs Item.ownerField owner)

/-- Behind the stage for an owner there are the documents of that owner. -/
theorem run_ownership (c : Collections) (owner : String) (rest : Pipeline)
    (rows : List Document) :
    run c (ownership owner :: rest) rows = rest.run c (rows.filter (isOwned owner)) := by
  have hfirst : (ownership owner).run c rows = .ok (rows.filter (isOwned owner)) :=
    Criteria.select_owner owner rows
  rw [run, hfirst]
  rfl

end Pipeline

/-- A stage that is there on a condition. -/
theorem mem_when {b : Bool} {entry stage : Slot × Stage} :
    entry ∈ (if b then [stage] else []) ↔ b = true ∧ entry = stage := by
  cases b <;> simp

/-- A stage that is left out on a condition. -/
theorem mem_unless {b : Bool} {entry stage : Slot × Stage} :
    entry ∈ (if b then [] else [stage]) ↔ b = false ∧ entry = stage := by
  cases b <;> simp

theorem Assembler.isLocal_groupStages (a : Assembler) (purpose : Purpose) (g : GroupSpec) :
    ∀ entry ∈ a.groupStages purpose g, entry.2.isLocal = true := by
  intro entry hentry
  simp only [groupStages, List.mem_append, List.mem_singleton, Option.mem_toList,
    Option.map_eq_some_iff] at hentry
  rcases hentry with ((rfl | ⟨criteria, -, rfl⟩) | hsort) | hcleanup
  · rfl
  · rfl
  · rw [mem_unless] at hsort
    rw [hsort.2]
    rfl
  · rw [mem_when] at hcleanup
    rw [hcleanup.2]
    rfl

/-- What is assembled from local stages behind the condition on an owner. -/
theorem Assembler.assemble_ownership {a : Assembler} {owner : String}
    {base : List (Slot × Stage)} {purpose : Purpose} {p : Pipeline}
    (hextra : ∀ entry ∈ a.extra, entry.2.isLocal = true)
    (hbase : ∀ entry ∈ base, entry.2.isLocal = true)
    (h : a.assemble ((.ownership, Pipeline.ownership owner) :: base) purpose = .ok p) :
    ∃ rest : Pipeline, p = Pipeline.ownership owner :: rest ∧ rest.IsLocal := by
  have hp := a.eq_arrange_of_assemble h
  refine ⟨arrange (a.staged base purpose), ?_, ?_⟩
  · rw [hp, ← arrange_cons_ownership]
    rfl
  · intro stage hstage
    obtain ⟨slot, hmem⟩ := mem_arrange.mp hstage
    simp only [staged, List.mem_append] at hmem
    rcases hmem with (hmem | hmem) | hmem
    · exact hbase _ hmem
    · exact hextra _ (List.mem_filter.mp hmem).1
    · cases hgroup : a.effectiveGroup with
      | none => simp [hgroup] at hmem
      | some g =>
          rw [hgroup] at hmem
          exact a.isLocal_groupStages purpose g _ hmem

/-! ### Local queries -/

/-- A query that neither joins nor writes, and adds only local stages. -/
structure Query.IsLocal (q : Query) : Prop where
  joins : q.joins = []
  out : q.out = none
  merge : q.merge = none
  extra : ∀ entry ∈ q.assembler.extra, entry.2.isLocal = true

structure QuerySpec.IsLocal (q : QuerySpec) : Prop where
  joins : q.joins = []
  out : q.out = none
  merge : q.merge = none
  extra : ∀ entry ∈ q.assembler.extra, entry.2.isLocal = true

/-- A query is checked without being changed. -/
theorem Query.build_eq {q : Query} {spec : QuerySpec} (h : q.build = .ok spec) :
    ∃ criteria, q.filter.build = .ok criteria ∧ spec = q.spec criteria := by
  unfold build at h
  cases herror : q.error with
  | some e => simp [herror, throw, throwThe, MonadExceptOf.throw, bind, Except.bind] at h
  | none =>
      simp only [herror] at h
      obtain ⟨-, hchecked⟩ := Outcome.check_eq_ok.mp h
      obtain ⟨criteria, hfilter, hcompiled⟩ := Outcome.bind_eq_ok.mp hchecked
      obtain ⟨request, -, hspec⟩ := Outcome.bind_eq_ok.mp hcompiled
      exact ⟨criteria, hfilter, (Outcome.pure_eq_ok.mp hspec).symm⟩

/-- A local query is built with local stages only. -/
theorem Query.IsLocal.build {q : Query} (hq : q.IsLocal) {spec : QuerySpec}
    (h : q.build = .ok spec) : spec.IsLocal := by
  obtain ⟨criteria, -, rfl⟩ := Query.build_eq h
  exact ⟨hq.joins, hq.out, hq.merge, hq.extra⟩

namespace QuerySpec

/-- The stages that select, in a query that is restricted to an owner. -/
theorem selectionStages_owner (q : QuerySpec) (owner : String) :
    q.selectionStages (some owner) =
      (.ownership, Pipeline.ownership owner) :: q.selectionStages none := rfl

theorem isLocal_selectionStages (q : QuerySpec) :
    ∀ entry ∈ q.selectionStages none, entry.2.isLocal = true := by
  intro entry hentry
  simp only [selectionStages, Option.map_none, Option.toList_none, List.nil_append] at hentry
  rw [mem_unless] at hentry
  rw [hentry.2]
  rfl

variable {q : QuerySpec} {owner : String}

/-- The first stage for a page of an owner selects what is owned, and all others are local. -/
theorem IsLocal.pageStages (hq : q.IsLocal) (page : Page) (owner : String) :
    ∃ rest, q.pageStages page (some owner) = (.ownership, Pipeline.ownership owner) :: rest ∧
      ∀ entry ∈ rest, entry.2.isLocal = true := by
  rw [QuerySpec.pageStages, selectionStages_owner]
  refine ⟨_, rfl, ?_⟩
  have hjoins : q.joinStages = [] := by
    simp [joinStages, countedJoins, unwoundJoins, hq.joins]
  intro entry hentry
  simp only [hjoins, hq.out, hq.merge, Option.map_none, Option.toList_none, List.append_nil,
    List.append_eq, List.mem_append, List.mem_singleton] at hentry
  rcases hentry with (((hselect | hsort) | hproject) | hskip) | rfl
  · exact q.isLocal_selectionStages entry hselect
  · rw [mem_unless] at hsort
    rw [hsort.2]
    rfl
  · rw [mem_when] at hproject
    rw [hproject.2]
    rfl
  · split at hskip
    · rw [List.mem_singleton.mp hskip]
      rfl
    · simp at hskip
  · rfl

theorem IsLocal.countingStages (hq : q.IsLocal) :
    q.countingStages (some owner) =
      (.ownership, Pipeline.ownership owner) :: q.selectionStages none := by
  simp [QuerySpec.countingStages, selectionStages_owner, unwoundJoins, hq.joins]

/-- The request for a page looks at the owner's documents before anything else. -/
theorem IsLocal.compile (hq : q.IsLocal) {page : Page} {forcePipeline : Bool} {request : Request}
    (h : q.compile page (some owner) forcePipeline = .ok request) :
    (∃ found : FindRequest, request = .find found ∧
      found.criteria = q.ownedCriteria (some owner)) ∨
    (∃ rest : Pipeline, request = .aggregate (Pipeline.ownership owner :: rest) ∧
      rest.IsLocal) := by
  unfold QuerySpec.compile at h
  split at h
  · cases h
    exact Or.inl ⟨_, rfl, rfl⟩
  · right
    obtain ⟨base, hstages, hbase⟩ := hq.pageStages page owner
    rw [hstages] at h
    obtain ⟨p, hassemble, hrequest⟩ := Outcome.bind_eq_ok.mp h
    obtain ⟨rest, rfl, hrest⟩ := Assembler.assemble_ownership hq.extra hbase hassemble
    exact ⟨rest, (Outcome.pure_eq_ok.mp hrequest).symm, hrest⟩

/-- So does the request for the number of rows. -/
theorem IsLocal.countRequest (hq : q.IsLocal) {request : CountRequest}
    (h : q.countRequest (some owner) = .ok request) :
    request = .documents (q.ownedCriteria (some owner)) ∨
    (∃ rest : Pipeline, request = .pipeline (Pipeline.ownership owner :: rest) ∧
      rest.IsLocal) := by
  unfold QuerySpec.countRequest at h
  split at h
  · cases h
    exact Or.inl rfl
  · right
    rw [hq.countingStages] at h
    obtain ⟨p, hassemble, hrequest⟩ := Outcome.bind_eq_ok.mp h
    obtain ⟨rest, rfl, hrest⟩ :=
      Assembler.assemble_ownership hq.extra q.isLocal_selectionStages hassemble
    refine ⟨rest ++ [.count totalField], ?_, ?_⟩
    · rw [← Outcome.pure_eq_ok.mp hrequest]
      rfl
    intro stage hstage
    rcases List.mem_append.mp hstage with hmem | hmem
    · exact hrest stage hmem
    · rw [List.mem_singleton.mp hmem]
      rfl

/-- And so does the one for the number of distinct values. -/
theorem distinctCountPipeline_ownership {field : String} {p : Pipeline}
    (h : q.distinctCountPipeline field (some owner) = .ok p) :
    ∃ rest : Pipeline, p = Pipeline.ownership owner :: rest ∧ rest.IsLocal := by
  unfold QuerySpec.distinctCountPipeline at h
  obtain ⟨-, -, hp⟩ := Outcome.bind_eq_ok.mp h
  refine ⟨_, (Outcome.pure_eq_ok.mp hp).symm, ?_⟩
  intro stage hstage
  rcases List.mem_append.mp hstage with hmem | hmem
  · obtain ⟨entry, hentry, rfl⟩ := List.mem_map.mp hmem
    exact q.isLocal_selectionStages entry hentry
  · simp only [List.mem_cons, List.not_mem_nil, or_false] at hmem
    rcases hmem with rfl | rfl <;> rfl

end QuerySpec

end DocumentBase
