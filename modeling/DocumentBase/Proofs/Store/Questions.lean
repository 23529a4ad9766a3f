import DocumentBase.Proofs.Action.Reading
import DocumentBase.Proofs.Query.Targets
import DocumentBase.Store.Reading

/-!
# What a read asks for

A read puts a question to its collection: which rows to find and what to count, or the distinct
values of which field.  The answer is a function of the question and the collections alone.  The
identity that acts and the options of a read matter only as far as they have a part in the
question.
-/

namespace DocumentBase

open DocumentBase.Action

/-! ### Requests that write nothing -/

/-- Whether the pipeline of a request writes nothing. -/
def CountRequest.IsReadOnly : CountRequest → Prop
  | .documents _ => True
  | .pipeline p => p.sink? = none

def Request.IsReadOnly : Request → Prop
  | .find _ => True
  | .aggregate p => p.sink? = none

namespace QuerySpec

/-- A query without a target and without a writing stage. -/
structure WritesNothing (q : QuerySpec) : Prop where
  out : q.out = none
  merge : q.merge = none
  extra : ∀ entry ∈ q.assembler.extra, entry.2.isWrite = false

variable {q : QuerySpec} {owner : Option String}

/-- None of the stages that were added to the query writes. -/
theorem WritesNothing.sink?_ne_of_mem_extra (hq : q.WritesNothing) {entry : Slot × Stage}
    (hentry : entry ∈ q.assembler.extra) {sink : Sink} : entry.2.sink? ≠ some sink := by
  rw [Stage.sink?_of_not_isWrite (hq.extra entry hentry)]
  exact nofun

theorem WritesNothing.isReadOnly_of_compile (hq : q.WritesNothing) {page : Page} {force : Bool}
    {request : Request} (h : q.compile page owner force = .ok request) : request.IsReadOnly := by
  cases request with
  | find found => trivial
  | aggregate p =>
      refine Option.eq_none_iff_forall_ne_some.mpr fun sink hsink => ?_
      rcases sink_cases_of_compile h hsink with
        ⟨target, hout, -⟩ | ⟨target, hmerge, -⟩ | ⟨entry, hentry, hentrysink⟩
      · simp [hq.out] at hout
      · simp [hq.merge] at hmerge
      · exact hq.sink?_ne_of_mem_extra hentry hentrysink

/-- Counting writes nothing if no stage was added that writes. -/
theorem isReadOnly_of_countRequest_of_extra
    (hextra : ∀ entry ∈ q.assembler.extra, entry.2.isWrite = false) {request : CountRequest}
    (h : q.countRequest owner = .ok request) : request.IsReadOnly := by
  cases request with
  | documents criteria => trivial
  | pipeline p =>
      refine Option.eq_none_iff_forall_ne_some.mpr fun sink hsink => ?_
      obtain ⟨entry, hentry, hentrysink⟩ := exists_extra_of_countRequest h hsink
      have hwrite := Stage.isWrite_of_sink? hentrysink
      rw [hextra entry (List.mem_filter.mp hentry).1] at hwrite
      cases hwrite

theorem WritesNothing.isReadOnly_of_countRequest (hq : q.WritesNothing) {request : CountRequest}
    (h : q.countRequest owner = .ok request) : request.IsReadOnly :=
  isReadOnly_of_countRequest_of_extra hq.extra h

end QuerySpec

/-! ### Questions -/

/-- The number that a request for the number of rows finds. -/
def countOf (name : String) (stored : Collections) : CountRequest → Outcome Nat
  | .documents criteria => stored.count name criteria
  | .pipeline pipeline => do
    let rows ← pipeline.run stored (stored.rows name)
    return ((rows.head?.bind fun row => row.value? totalField).bind Value.count?).getD 0

/-- The request that is really counted.  The estimate of a number of documents is the number of
all documents. -/
def CountRequest.counted (exact : Bool) : CountRequest → CountRequest
  | .documents criteria => .documents (if exact then criteria else .empty)
  | .pipeline p => .pipeline p

/-- All that the answer to a read depends on, beside the collections. -/
inductive Question where
  | rows (request : Request) (total : Outcome CountRequest)
  | distinct (field : String) (criteria : Criteria) (offset size : Nat)

/-- The items of a page and the number of all rows. -/
def Question.answer (name : String) (stored : Collections) : Question → Outcome Snapshot
  | .rows request total => do
    let rows ← match request with
      | .find request => stored.find name request
      | .aggregate p => p.run stored (stored.rows name)
    let total ← countOf name stored (← total)
    return ⟨rows.map Value.document, total⟩
  | .distinct field criteria offset size => do
    let values ← stored.distinct name field criteria
    return ⟨(values.drop offset).take size, values.length⟩

variable {env : Environment} {name : String}

theorem count_empty (stored : Collections) (name : String) :
    stored.count name .empty = .ok (stored.size name) := by
  rw [Collections.count, Collections.size, Collections.rows]
  cases stored.rows? name with
  | none => rfl
  | some rows =>
      simp only [Option.getD_some]
      rw [Criteria.select_of_isEmpty rfl]
      rfl

theorem reads_aggregate {p : Pipeline} (hp : p.sink? = none) :
    Reads env (Action.change fun c => c.aggregate name p) fun c => p.run c (c.rows name) := by
  apply reads_change
  intro c
  rw [Collections.aggregate, hp]
  cases p.run c (c.rows name) <;> rfl

theorem reads_countRows {request : CountRequest} (hrequest : request.IsReadOnly)
    (exact : Bool) :
    Reads env (countRows name exact request) fun stored =>
      countOf name stored (request.counted exact) := by
  cases request with
  | pipeline p => exact (reads_aggregate hrequest).bind fun rows => reads_pure _
  | documents criteria =>
      cases exact with
      | true => exact reads_read fun stored => stored.count name criteria
      | false =>
          have hsize : Reads env (countRows name false (.documents criteria)) fun stored =>
              .ok (stored.size name) := reads_read fun stored => .ok (stored.size name)
          apply hsize.congr
          intro stored
          exact (count_empty stored name).symm

namespace PageCursor

/-- The request whose result is the total of a cursor. -/
def totalRequest (c : PageCursor) (owner : Option String) : Outcome CountRequest :=
  (c.spec.countRequest owner).map (CountRequest.counted c.view.options.exactCount)

/-- What a cursor asks for with a request. -/
def question (c : PageCursor) (owner : Option String) : PageRequest → Question
  | .rows request => .rows request (c.totalRequest owner)
  | .distinct field criteria => .distinct field criteria c.page.offset c.page.size

variable {c : PageCursor} {owner : Option String}

/-- A cursor asks for distinct values or for rows. -/
theorem request_cases {request : PageRequest} (h : c.request owner = .ok request) :
    (∃ field, c.mode = .distinct field ∧
      request = .distinct field (c.spec.distinctCriteria owner)) ∨
    (∃ force compiled, (∀ field, c.mode ≠ .distinct field) ∧
      c.spec.compile c.page owner force = .ok compiled ∧ request = .rows compiled) := by
  cases hmode : c.mode with
  | distinct field =>
      rw [PageCursor.request, hmode] at h
      cases h
      exact .inl ⟨field, rfl, rfl⟩
  | find =>
      rw [PageCursor.request, hmode] at h
      obtain ⟨compiled, hcompile, heq⟩ := Outcome.bind_eq_ok.mp h
      cases heq
      exact .inr ⟨false, compiled, nofun, hcompile, rfl⟩
  | run =>
      rw [PageCursor.request, hmode] at h
      obtain ⟨compiled, hcompile, heq⟩ := Outcome.bind_eq_ok.mp h
      cases heq
      exact .inr ⟨true, compiled, nofun, hcompile, rfl⟩

/-- Running requests that write nothing answers the question of the cursor. -/
theorem reads_answer {request : PageRequest}
    (hrows : ∀ rows, request = .rows rows → rows.IsReadOnly)
    (htotal : ∀ counted, c.spec.countRequest owner = .ok counted → counted.IsReadOnly) :
    Reads env (c.execute owner request) fun stored =>
      (c.question owner request).answer c.view.name stored := by
  cases request with
  | distinct field criteria => exact (reads_read _).bind fun _ => reads_pure _
  | rows request =>
      have hcount : ∀ rows : List Document, Reads env (do
          let total ← countRows c.view.name c.view.options.exactCount
            (← c.spec.countRequest owner)
          return (⟨rows.map Value.document, total⟩ : Snapshot)) fun stored => do
            let total ← countOf c.view.name stored (← c.totalRequest owner)
            return ⟨rows.map Value.document, total⟩ := by
        intro rows
        rw [totalRequest]
        cases hcounted : c.spec.countRequest owner with
        | error e => exact reads_lift _
        | ok counted =>
            exact (reads_countRows (htotal counted hcounted) _).bind fun _ => reads_pure _
      cases request with
      | find found => exact (reads_read _).bind hcount
      | aggregate p => exact (reads_aggregate (hrows _ rfl)).bind hcount

/-- What a cursor executes answers the question that it asks. -/
theorem reads_question (hc : c.spec.WritesNothing) {request : PageRequest}
    (hrequest : c.request owner = .ok request) :
    Reads env (c.execute owner request) fun stored =>
      (c.question owner request).answer c.view.name stored := by
  apply reads_answer
  · rintro rows rfl
    rcases request_cases hrequest with ⟨_, -, heq⟩ | ⟨_, _, -, hcompile, heq⟩
    · cases heq
    · cases heq
      exact hc.isReadOnly_of_compile hcompile
  · exact fun _ => hc.isReadOnly_of_countRequest

end PageCursor

/-! ### Snapshots in a cache -/

theorem count?_wideInteger {n m : Nat} (hn : n ≤ Value.maxWord)
    (h : (wideInteger n).count? = some m) : m = n := by
  rw [wideInteger, Value.count?] at h
  split at h
  next hpositive =>
    have hsize : Int64.size = 2 ^ 64 := rfl
    rw [Int64.toInt_ofNat', Int.bmod_def, hsize] at hpositive h
    have hword : n < 2 ^ 64 := by
      have hmax : Value.maxWord = 2 ^ 64 - 1 := rfl
      omega
    have hm := Option.some.inj h
    -- a number from `2 ^ 63` on has been read as a negative one
    split at hpositive
    next hsmall =>
      rw [if_pos hsmall] at hm
      omega
    next hlarge => omega
  next => cases h

/-- A snapshot that comes back from a cache is the one that went into it.  One whose total does
not fit into a signed word does not come back. -/
theorem Snapshot.eq_of_decode?_encode {s s' : Snapshot} (hs : s.total ≤ Value.maxWord)
    (h : Snapshot.decode? s.encode = some s') : s' = s := by
  have hdecode : Snapshot.decode? s.encode =
      (wideInteger s.total).count?.bind fun total => some ⟨s.items, total⟩ := rfl
  rw [hdecode] at h
  obtain ⟨total, htotal, hs'⟩ := Option.bind_eq_some_iff.mp h
  rw [← Option.some.inj hs', count?_wideInteger hs htotal]

end DocumentBase
