import DocumentBase.Hook.Ready
import DocumentBase.Proofs.Store.Edits
import DocumentBase.Proofs.Store.Questions

/-!
# What gets into storage

Items and the values of updates are cleaned before they are written, so whatever hooks make of
them, no key that could be taken for an operator and no code gets into storage with them.  But
an update also makes new keys, by writing at a path where there is nothing yet: its paths are
checked as whole texts and not segment by segment.  Stored documents stay clean exactly as far as
these segments are plain keys.
-/

namespace DocumentBase

open DocumentBase.Action

/-! ### Updates -/

/-- Writes of clean values at paths of plain keys keep a document clean. -/
theorem Document.Storable.setAll {d writes : Document} (hd : d.Storable)
    (h : ∀ write ∈ writes,
      (∀ segment ∈ Path.ofString write.1, PlainKey segment) ∧ write.2.Storable) :
    (d.setAll writes).Storable := by
  induction writes generalizing d with
  | nil => exact hd
  | cons write rest ih =>
      obtain ⟨⟨hplain, hv⟩, hrest⟩ := List.forall_mem_cons.mp h
      exact ih ((hd.setAt_iff hv write.1).mpr hplain) hrest

namespace Arithmetic

/-- Arithmetic makes numbers. -/
theorem kind_apply {op : Arithmetic} {field : String} {current operand result : Value}
    (h : op.apply field current operand = .ok result) : result.kind = .number := by
  simp only [apply] at h
  split at h
  · simp only [integerResult] at h
    split at h
    · cases h
      rfl
    · split at h <;> cases h
      rfl
  · split at h <;> cases h
    rfl

end Arithmetic

theorem Value.storable_of_kind {v : Value} (h : v.kind = .number) : v.Storable := by
  cases v <;> first | exact storable_of_parts_nil rfl rfl rfl | cases h

namespace Update

theorem kind_of_isNumeric {v : Value} (h : isNumeric v = true) : v.kind = .number := by
  cases v <;> first | rfl | cases h

variable {u : Update} {d after : Document}

/-- The paths where an update may make new keys.  Taking values from an array makes none. -/
def opened : Update → List String
  | .pull _ _ => []
  | u => u.named

/-- The paths where an update may make new keys have no segment that is empty or starts with a
dollar sign. -/
def MakesPlainKeys (u : Update) : Prop :=
  ∀ path ∈ u.opened, ∀ segment ∈ Path.ofString path,
    segment ≠ "" ∧ segment.toList.head? ≠ some '$'

instance : Decidable u.MakesPlainKeys :=
  inferInstanceAs (Decidable (∀ path ∈ u.opened, ∀ segment ∈ Path.ofString path, _))

theorem mem_named_of_mem_opened {path : String} (h : path ∈ u.opened) : path ∈ u.named := by
  cases u with
  | pull field values => cases h
  | _ => exact h

/-- The check of a path leaves only these two things to be asked of its segments. -/
theorem plainKey_of_checkField {path segment : String} (h : checkField path = .ok ())
    (hsegment : segment ∈ Path.ofString path) (hne : segment ≠ "")
    (hdollar : segment.toList.head? ≠ some '$') : PlainKey segment := by
  refine ⟨hne, hdollar, fun hnul => ?_⟩
  have hmem := Path.mem_toList_of_mem_ofString hsegment hnul
  rw [checkField] at h
  split at h
  · cases h
  · rw [if_pos (by simp [hmem])] at h
    cases h

theorem checkField_of_validate (h : u.validate = .ok ()) :
    ∀ path ∈ u.named, checkField path = .ok () := by
  obtain ⟨_, -, hnamed⟩ := Outcome.bind_eq_ok.mp h
  intro path hpath
  obtain ⟨⟨⟩, hfield, -⟩ := Outcome.bind_eq_ok.mp (Outcome.forM_eq_ok.mp hnamed path hpath)
  exact hfield

/-- The value of an array field that is written again is made of its items and clean ones. -/
theorem storable_appended {field : String} {current : Option Value} {values : List Value}
    {result : Value} (hcurrent : ∀ v, current = some v → v.Storable)
    (hvalues : ∀ v ∈ values, v.Storable) (h : appended field current values = .ok result) :
    result.Storable := by
  simp only [appended] at h
  split at h <;> cases h
  next items =>
    have hitems := Value.storable_array_iff.mp (hcurrent _ rfl)
    refine Value.storable_array_iff.mpr fun v hv => ?_
    exact (List.mem_append.mp hv).elim (hitems v) (hvalues v)
  next => exact Value.storable_array_iff.mpr hvalues
  next => exact Value.storable_array_iff.mpr hvalues

/-- Where an accepted update may make new keys, they are plain. -/
theorem MakesPlainKeys.plainKey {path : String} (hkeys : u.MakesPlainKeys)
    (hvalid : u.validate = .ok ()) (hpath : path ∈ u.opened) :
    ∀ segment ∈ Path.ofString path, PlainKey segment := by
  have hcheck := checkField_of_validate hvalid path (mem_named_of_mem_opened hpath)
  intro segment hsegment
  obtain ⟨hne, hdollar⟩ := hkeys path hpath segment hsegment
  exact plainKey_of_checkField hcheck hsegment hne hdollar

/-- An update that makes plain keys keeps a document clean. -/
theorem storable_change (hd : d.Storable) (hvalid : u.validate = .ok ()) (hu : u.Storable)
    (hkeys : u.MakesPlainKeys) (h : u.change d = .ok after) : after.Storable := by
  have hat : ∀ {field v}, d.at? field = some v →
      (∀ segment ∈ Path.ofString field, PlainKey segment) ∧ v.Storable :=
    fun hv => hd.of_get? hv
  have hplain : ∀ path ∈ u.opened, ∀ segment ∈ Path.ofString path, PlainKey segment :=
    fun _ => hkeys.plainKey hvalid
  obtain ⟨_, hoperands, -⟩ := Outcome.bind_eq_ok.mp hvalid
  cases u with
  | set fields =>
      cases h
      exact hd.setAll fun write hwrite =>
        ⟨hplain write.1 (List.mem_map_of_mem hwrite), (hu write hwrite).2⟩
  | push field values =>
      obtain ⟨items, hitems, hafter⟩ := Outcome.bind_eq_ok.mp h
      cases Outcome.pure_eq_ok.mp hafter
      have hstorable := storable_appended (fun v hv => (hat hv).2) hu hitems
      exact (hd.setAt_iff hstorable field).mpr (hplain field (List.mem_singleton.mpr rfl))
  | pull field values =>
      simp only [change] at h
      split at h
      next items hvalue =>
        cases h
        obtain ⟨hsegments, hitems⟩ := hat hvalue
        refine (hd.setAt_iff (Value.storable_array_iff.mpr fun v hv => ?_) field).mpr hsegments
        exact Value.storable_array_iff.mp hitems v (List.mem_filter.mp hv).1
      next =>
        cases h
        exact hd
      next => cases h
  | increment field operand =>
      have hsegments := hplain field (List.mem_singleton.mpr rfl)
      simp only [change] at h
      split at h
      next =>
        cases h
        have hnumeric : isNumeric operand = true := by
          by_contra hnot
          rw [checkOperands, if_neg hnot] at hoperands
          cases hoperands
        have hstorable := Value.storable_of_kind (kind_of_isNumeric hnumeric)
        exact (hd.setAt_iff hstorable field).mpr hsegments
      next current hcurrent =>
        obtain ⟨sum, hsum, hafter⟩ := Outcome.bind_eq_ok.mp h
        cases Outcome.pure_eq_ok.mp hafter
        have hstorable := Value.storable_of_kind (Arithmetic.kind_apply hsum)
        exact (hd.setAt_iff hstorable field).mpr hsegments
  | multiply field operand =>
      have hsegments := hplain field (List.mem_singleton.mpr rfl)
      obtain ⟨product, hproduct, hafter⟩ := Outcome.bind_eq_ok.mp h
      cases Outcome.pure_eq_ok.mp hafter
      have hstorable := Value.storable_of_kind (Arithmetic.kind_apply hproduct)
      exact (hd.setAt_iff hstorable field).mpr hsegments

end Update

/-! ### Written documents -/

namespace CollectionView

variable {v : CollectionView} {context : HookContext} {id target : Value} {item d : Document}

theorem storable_of_insertion {fresh : String} {now : Instant}
    (h : v.insertion item context fresh now = .ok d) : d.Storable := by
  obtain ⟨payload, -, h⟩ := Outcome.bind_eq_ok.mp h
  obtain ⟨given, -, h⟩ := Outcome.bind_eq_ok.mp h
  obtain ⟨cleaned, hcleaned, hstamped⟩ := Outcome.bind_eq_ok.mp h
  obtain ⟨hstorable, rfl⟩ := Document.clean_eq_ok.mp hcleaned
  cases Outcome.pure_eq_ok.mp hstamped
  exact Item.storable_stampNew hstorable (Value.storable_of_parts_nil rfl rfl rfl) _ _

/-- What is prepared for a replacement can be stored, whatever the hooks answer. -/
theorem storable_of_replacement (h : v.replacement id item context = .ok (target, d)) :
    d.Storable := by
  obtain ⟨payload, -, h⟩ := Outcome.bind_eq_ok.mp h
  obtain ⟨given, -, h⟩ := Outcome.bind_eq_ok.mp h
  cases hid : given.value? Item.idField with
  | none =>
      simp only [hid] at h
      cases h
  | some other =>
      simp only [hid] at h
      obtain ⟨cleaned, hcleaned, hpair⟩ := Outcome.bind_eq_ok.mp h
      obtain ⟨hstorable, rfl⟩ := Document.clean_eq_ok.mp hcleaned
      cases Outcome.pure_eq_ok.mp hpair
      exact hstorable

/-- The update that is sent to storage was checked and cleaned. -/
theorem valid_of_amendment {operation : Operation} {update u : Update}
    (h : v.amendment operation id update context = .ok (target, u)) :
    u.validate = .ok () ∧ u.Storable := by
  obtain ⟨payload, -, h⟩ := Outcome.bind_eq_ok.mp h
  obtain ⟨⟨other, given⟩, -, h⟩ := Outcome.bind_eq_ok.mp h
  obtain ⟨_, hvalid, h⟩ := Outcome.bind_eq_ok.mp h
  obtain ⟨cleaned, hcleaned, hpair⟩ := Outcome.bind_eq_ok.mp h
  cases Outcome.pure_eq_ok.mp hpair
  obtain ⟨hstorable, rfl⟩ := cleanUpdate_eq_ok.mp hcleaned
  exact ⟨hvalid, hstorable⟩

/-- A call comes to an update if the hook before it leaves this one to be made. -/
def Amends (v : CollectionView) (call : WriteCall) (u : Update) : Prop :=
  ∃ context operation id update target, v.context false = .ok context ∧
    call.patch? = some (operation, id, update) ∧
    v.amendment operation id update context = .ok (target, u)

/-- Without hooks a call comes to the update that it asks for. -/
theorem patch?_of_amends {call : WriteCall} {u : Update} (hooks : v.Unhooked)
    (h : v.Amends call u) : ∃ operation id, call.patch? = some (operation, id, u) := by
  obtain ⟨context, operation, id, update, target, -, hpatch, hamendment⟩ := h
  rw [v.amendment_of_no_hooks hooks] at hamendment
  obtain ⟨_, -, hamendment⟩ := Outcome.bind_eq_ok.mp hamendment
  obtain ⟨cleaned, hcleaned, hpair⟩ := Outcome.bind_eq_ok.mp hamendment
  cases Outcome.pure_eq_ok.mp hpair
  obtain ⟨-, rfl⟩ := cleanUpdate_eq_ok.mp hcleaned
  exact ⟨operation, id, hpatch⟩

end CollectionView

namespace WriteCall

variable {v : CollectionView} {context : HookContext} {c c' : Collections} {call : WriteCall}
  {operation : Operation} {written : Payload}

/-- What a call writes is clean if its update makes plain keys. -/
theorem Step.storable_written (h : call.Step v context c operation written c')
    (hcontext : v.context false = .ok context)
    (hkeys : ∀ u, v.Amends call u → u.MakesPlainKeys)
    (hc : ∀ d ∈ c.rows v.name, d.Storable) {d : Document} (hwritten : written = .item d) :
    d.Storable := by
  have hreplaced : ∀ {id target : Value} {item prepared existing : Document} {now : Instant},
      v.replacement id item context = .ok (target, prepared) →
      existing ∈ c.rows v.name → (Item.stampReplacement prepared existing now).Storable :=
    fun hprepared hexisting =>
      Item.storable_stampReplacement (v.storable_of_replacement hprepared) (hc _ hexisting) _
  cases h with
  | added hcall hprepared hstored =>
      cases hwritten
      exact v.storable_of_insertion hprepared
  | replaced hprepared hfound hstored =>
      cases hwritten
      rw [Collections.eq_of_replaceOne_some hstored]
      exact hreplaced hprepared (Collections.mem_of_findById hfound)
  | saved hid hfound hprepared hstored =>
      cases hwritten
      rw [Collections.eq_of_replaceOne_some hstored]
      exact hreplaced hprepared (Collections.mem_of_findById hfound)
  | patched hcall hprepared hstored =>
      cases hwritten
      obtain ⟨hvalid, hstorable⟩ := v.valid_of_amendment hprepared
      have hplain := hkeys _ ⟨context, _, _, _, _, hcontext, hcall, hprepared⟩
      obtain ⟨_, before, changed, -, hbefore, hchanged, rfl, -⟩ :=
        Collections.exists_change_of_updateOne hstored
      have hbefore := hc before (List.mem_of_getElem? hbefore)
      exact (Update.storable_change hbefore hvalid hstorable hplain hchanged).put
        Item.plainKey_updatedField (Value.storable_of_parts_nil rfl rfl rfl)
  | removed hprepared hstored => cases hwritten

/-- A document that is stored after a call was stored before it or is what the call has written. -/
theorem Effect.each {R : Document → Prop} (h : call.Effect v context c written c')
    (hwritten : ∀ d, written = .item d → R d) (hc : c.Each (∀ d ∈ ·, R d)) :
    c'.Each (∀ d ∈ ·, R d) := by
  cases h with
  | added =>
      refine hc.store v.name fun e he => ?_
      rcases List.mem_append.mp he with he | he
      · exact hc v.name e he
      · rw [List.mem_singleton.mp he]
        exact hwritten _ rfl
  | overwritten =>
      refine hc.store v.name fun e he => ?_
      rcases List.mem_or_eq_of_mem_set he with he | rfl
      · exact hc v.name e he
      · exact hwritten e rfl
  | removed => exact hc.store v.name fun e he => hc v.name e (List.mem_of_mem_eraseIdx he)
  | absent => exact hc

end WriteCall

/-! ### Sessions -/

/-- A query that writes nothing keeps every property of the collections. -/
theorem QuerySpec.WritesNothing.keeps {q : QuerySpec} (hq : q.WritesNothing)
    (P : Collections → Prop) : q.Keeps P where
  page := by
    intro _ _ _ _ _ hcompile hsink
    rw [show _ = none from hq.isReadOnly_of_compile hcompile] at hsink
    cases hsink
  count := by
    intro _ _ _ hcount hsink
    rw [show _ = none from hq.isReadOnly_of_countRequest hcount] at hsink
    cases hsink

/-- A step whose update, if it makes one, makes plain keys, and whose query writes nothing.  The
hooks before it may have made the update and the query into what they are. -/
def SessionStep.MakesPlainKeys (step : SessionStep) : Prop :=
  match step.call with
  | .write call => ∀ u, step.view.Amends call u → u.MakesPlainKeys
  | .read mode query => ∀ context spec, step.view.context true = .ok context →
      step.view.prepared mode.operation query context = .ok spec → spec.WritesNothing

theorem SessionStep.MakesPlainKeys.keeps {step : SessionStep} (h : step.MakesPlainKeys) :
    Keeps (Collections.Each (∀ d ∈ ·, d.Storable)) (step.call.perform step.view) := by
  obtain ⟨environment, view, call⟩ := step
  cases call with
  | write call =>
      refine StoreCall.keeps_write fun _ _ _ _ _ hcontext hc hstep => ?_
      refine hstep.effect.2.each (fun d hwritten => ?_) hc
      exact hstep.storable_written hcontext h (hc view.name) hwritten
  | read mode query =>
      refine StoreCall.keeps_read fun context spec hcontext hprepared => ?_
      exact (h context spec hcontext hprepared).keeps _

/-- Whatever the arguments and the hooks are, a session in which updates make plain keys only
stores nothing else: no key at any depth of a stored document could be taken for an operator,
and nothing in it is code. -/
theorem Session.storable_run {session : Session} (hsteps : ∀ step ∈ session, step.MakesPlainKeys)
    {w : World} (hempty : w.collections = []) (name : String) :
    ∀ d ∈ (session.run w).collections.rows name, (Value.document d).Storable := by
  have hstart : w.collections.Each (∀ d ∈ ·, d.Storable) := by
    rw [hempty]
    exact Collections.each_nil nofun
  have hend := Session.keeps (fun step hstep => (hsteps step hstep).keeps) hstart name
  exact fun d hd => Value.storable_document_iff.mpr (hend d hd)

namespace CleanlinessExample

open SessionExample

/-- The notes, as seen through a hook that lets every update mark a note as seen. -/
def marked : CollectionView :=
  { view "notes" with
    store := { Store.basic 0 with
      hooks := Hooks.empty.register "notes" ⟨.before, .update⟩
        (Hook.amending (.set [("marks.seen", .bool true)])) } }

/-- The hook mends the path of the update.  The values of the push are refused, and there is
nothing to pull. -/
def session : Session :=
  [step "notes" (.write (.insert (note (.int32 1) "a"))),
    ⟨OwnedExample.environment, marked, .write (.update (.int32 1) [("marks.$seen", .bool false)])⟩,
    step "notes" (.write (.push (.int32 1) "tags" [.document [("$a", .null)]])),
    step "notes" (.write (.pull (.int32 1) "marks.$seen" [.bool false])),
    step "notes" (.read .find Query.empty)]

def valuesAfter (session : Session) (field : String) : List (Option Value) :=
  ((session.run empty).collections.rows "notes").map fun d => d.value? field

theorem makesPlainKeys : ∀ step ∈ session, step.MakesPlainKeys := by
  have hwrites : ∀ call : WriteCall,
      (∀ operation id u, call.patch? = some (operation, id, u) → u.MakesPlainKeys) →
      (step "notes" (.write call)).MakesPlainKeys := by
    intro call hcall u hamends
    obtain ⟨operation, id, hpatch⟩ := CollectionView.patch?_of_amends (.inr rfl) hamends
    exact hcall operation id u hpatch
  have hmarked : ∀ u, marked.Amends (.update (.int32 1) [("marks.$seen", .bool false)]) u →
      u.MakesPlainKeys := by
    rintro u ⟨_, _, _, _, _, ⟨⟩, ⟨⟩, ⟨⟩⟩
    decide
  have hfind : (step "notes" (.read .find Query.empty)).MakesPlainKeys := by
    rintro _ _ ⟨⟩ ⟨⟩
    exact ⟨rfl, rfl, nofun⟩
  intro step hstep
  simp only [session, List.mem_cons, List.not_mem_nil, or_false] at hstep
  rcases hstep with rfl | rfl | rfl | rfl | rfl
  · exact hwrites _ nofun
  · exact hmarked
  · refine hwrites _ ?_
    rintro _ _ _ ⟨⟩
    decide
  · refine hwrites _ ?_
    rintro _ _ _ ⟨⟩
    decide
  · exact hfind

end CleanlinessExample

open SessionExample CleanlinessExample in
theorem Session.storable_run_of_marked_note :
    valuesAfter session "marks" = [some (.document [("seen", .bool true)])] ∧
      ∀ d ∈ (session.run empty).collections.rows "notes", (Value.document d).Storable :=
  ⟨by rfl, storable_run makesPlainKeys rfl "notes"⟩

namespace CleanlinessExample

open SessionExample

/-- A session that inserts a note and updates it. -/
def updating (call : WriteCall) : Session :=
  [step "notes" (.write (.insert (note (.int32 1) "a"))), step "notes" (.write call)]

/-- Updates at paths that pass their checks, with segments that are no plain keys. -/
def unclean : List WriteCall :=
  [.update (.int32 1) [("marks.$seen", .bool true)], .push (.int32 1) "marks..seen" [.null],
    .increment (.int32 1) "marks." (.int32 1), .multiply (.int32 1) "marks.$seen.times" (.int32 2)]

end CleanlinessExample

open SessionExample CleanlinessExample in
/-- Updates at such paths succeed, and what they store is not clean. -/
theorem Session.not_storable_run_of_unclean_paths :
    valuesAfter (updating (.update (.int32 1) [("marks.$seen", .bool true)])) "marks" =
        [some (.document [("$seen", .bool true)])] ∧
      ∀ call ∈ unclean,
        ¬ ∀ d ∈ ((updating call).run empty).collections.rows "notes", (Value.document d).Storable :=
  ⟨rfl, by decide +kernel⟩

end DocumentBase
