import DocumentBase.Proofs.Store.Amendments
import DocumentBase.Proofs.Store.Interleaving

/-!
# Writers at the same time

A replacement and a saving look up a document first and store over it later, and nobody is kept
from writing in between.  Still two writers without hooks end as one after the other: what a
replacement takes over from the document that it has found is what every other writer leaves
alone.  Only a saving may fail because the document was added or taken out after it was looked up.
-/

namespace DocumentBase

open Script

/-! ### Scripts without hooks -/

namespace WriteCall

/-- The identity whose document a call takes out. -/
def taken : WriteCall → Option Value
  | remove id => some id
  | _ => none

/-- The failure of saving an item whose identity was added in the meantime. -/
def lateAddition (name : String) (id : Value) : Error :=
  (Error.alreadyExists id.idLabel name).inOperation Operation.insert.name name

/-- The failure of saving an item whose identity was taken out in the meantime. -/
def lateRemoval (name : String) (id : Value) : Error :=
  (Error.notFound id.idLabel name).inOperation Operation.replace.name name

/-- What the scripts of calls without hooks look like, if the calls are not changes of single
fields. -/
inductive Planned (name : String) (now : Instant) : WriteCall → Script Payload → Prop
  | refused {call : WriteCall} (e : Error) : Planned name now call (.done (.error e))
  | adding {call : WriteCall} (d : Document) {next : Outcome (Option Document) → Script Payload}
      (hnext : ∀ reply, ∃ outcome, next reply = .done outcome) :
      Planned name now call (.call (.insert d) next)
  | removing (id : Value) {next : Outcome (Option Document) → Script Payload}
      (hnext : ∀ reply, ∃ outcome, next reply = .done outcome) :
      Planned name now (.remove id) (.call (.delete id) next)
  | replacing (id : Value) (item prepared : Document) {lost : Outcome Payload}
      {next overwrite : Outcome (Option Document) → Script Payload}
      (hnext : ∀ reply, (next reply).Single)
      (hnone : next (.ok none) = .done lost)
      (hsome : ∀ existing, next (.ok (some existing)) =
        .call (.replace id (Item.stampReplacement prepared existing now)) overwrite)
      (hlost : overwrite (.ok none) = .done lost) :
      Planned name now (.replace id item) (.call (.find id) next)
  | unsavable {id : Value} {item : Document}
      {next : Outcome (Option Document) → Script Payload}
      (hnext : ∀ reply, ∃ e, next reply = .done (.error e)) :
      Planned name now (.save item) (.call (.find id) next)
  | saving {id : Value} {item : Document} (d prepared : Document)
      {next add overwrite : Outcome (Option Document) → Script Payload}
      (hid : item.value? Item.idField = some id) (hd : d.value? Item.idField = some id)
      (hnext : ∀ reply, (next reply).Single)
      (hnone : next (.ok none) = .call (.insert d) add)
      (hadd : ∀ e, add (.error e) = .done (.error (e.inOperation Operation.insert.name name)))
      (hsome : ∀ existing, next (.ok (some existing)) =
        .call (.replace id (Item.stampReplacement prepared existing now)) overwrite)
      (hoverwrite : overwrite (.ok none) = .done (.error (lateRemoval name id))) :
      Planned name now (.save item) (.call (.find id) next)

variable {name : String} {now : Instant} {call : WriteCall} {s : Script Payload}
  {c c' : Collections} {outcome : Outcome Payload}

/-- The scripts of calls without hooks look up once and write once at most. -/
theorem Planned.short (h : Planned name now call s) : s.Short := by
  cases h with
  | refused e => exact .single (.done _)
  | adding d hnext => exact .single (.call _ hnext)
  | removing id hnext => exact .single (.call _ hnext)
  | replacing id item prepared hnext => exact .checked id hnext
  | unsavable hnext =>
      refine .checked _ fun reply => ?_
      obtain ⟨e, he⟩ := hnext reply
      exact he ▸ .done _
  | saving d prepared hid hd hnext => exact .checked _ hnext

/-- What a planned script makes of the collections. -/
theorem Planned.amended (h : Planned name now call s) (hrun : s.run name c = (outcome, c')) :
    c.Amended name call.taken c' := by
  obtain ⟨-, rfl⟩ := Prod.mk.inj hrun.symm
  cases h with
  | refused e => exact .untouched
  | adding d hnext =>
      rw [(Single.call _ hnext).run_snd rfl]
      exact Collections.amended_insert d _
  | removing id hnext =>
      rw [(Single.call _ hnext).run_snd rfl]
      exact Collections.amended_delete id
  | @replacing id item prepared lost next overwrite hnext hnone hsome hlost =>
      rw [run_find]
      cases hfound : c.findById name id with
      | none =>
          rw [hnone]
          exact .untouched
      | some existing =>
          rw [(hnext _).run_snd (hsome existing)]
          exact Collections.amended_replace hfound prepared now _
  | @unsavable id item next hnext =>
      obtain ⟨e, he⟩ := hnext (.ok (c.findById name id))
      rw [run_find, he]
      exact .untouched
  | @saving id item d prepared next add overwrite hid hd hnext hnone hadd hsome hoverwrite =>
      rw [run_find]
      cases hfound : c.findById name id with
      | none =>
          rw [(hnext _).run_snd hnone]
          exact Collections.amended_insert d _
      | some existing =>
          rw [(hnext _).run_snd (hsome existing)]
          exact Collections.amended_replace hfound prepared now _

/-- A computation before a script fails, or the script is what is left. -/
theorem planned_lift_bind {α : Type} (given : Outcome α) {next : α → Script Payload}
    (hnext : ∀ a, given = .ok a → Planned name now call (next a)) :
    Planned name now call (liftM given >>= next) := by
  cases given with
  | error e => exact .refused e
  | ok a => exact hnext a rfl

end WriteCall

namespace CollectionView

variable {v : CollectionView} (env : Environment) (fresh : String)

theorem planned_held_bind {α : Type} {now : Instant} {call : WriteCall} (operation : Operation)
    {s : Script α} {next : α → Script Payload}
    (h : call.Planned v.name now (s.inOperation operation v.name >>= next)) :
    call.Planned v.name now (v.held env operation s >>= next) := by
  rw [held]
  cases env.access v.name v.acquireOptions with
  | ok => exact h
  | error e => exact .refused _

variable (hooks : v.Unhooked)
include hooks

theorem told_of_no_hooks (operation : Operation) (item : Document) (context : HookContext) :
    v.told operation item context = .ok item := by
  rw [told, answer_of_no_hooks hooks]
  rfl

theorem planned_insertScript (item : Document) :
    (WriteCall.insert item).Planned v.name env.date
      ((WriteCall.insert item).script v env fresh) := by
  simp only [WriteCall.script, insertScript, told_of_no_hooks hooks, Script.bind_assoc]
  refine WriteCall.planned_lift_bind _ fun context _ => ?_
  refine WriteCall.planned_lift_bind _ fun stored _ => ?_
  refine planned_held_bind env .insert ?_
  exact .adding stored fun reply => by cases reply <;> exact ⟨_, rfl⟩

theorem planned_removeScript (id : Value) :
    (WriteCall.remove id).Planned v.name env.date
      ((WriteCall.remove id).script v env fresh) := by
  simp only [WriteCall.script, removeScript, answer_of_no_hooks hooks, Script.bind_assoc]
  refine WriteCall.planned_lift_bind _ fun context _ => ?_
  refine WriteCall.planned_lift_bind _ fun target htarget => ?_
  rw [removal_of_no_hooks hooks] at htarget
  cases htarget
  refine planned_held_bind env .remove ?_
  exact .removing id fun reply => by cases reply <;> exact ⟨_, rfl⟩

theorem planned_replaceScript (id : Value) (item : Document) :
    (WriteCall.replace id item).Planned v.name env.date
      ((WriteCall.replace id item).script v env fresh) := by
  simp only [WriteCall.script, replaceScript, told_of_no_hooks hooks, Script.bind_assoc]
  refine WriteCall.planned_lift_bind _ fun context _ => ?_
  refine WriteCall.planned_lift_bind _ fun replacement hreplacement => ?_
  rw [replacement_of_no_hooks hooks] at hreplacement
  obtain ⟨prepared, -, hpair⟩ := Outcome.bind_eq_ok.mp hreplacement
  cases hpair
  refine planned_held_bind env .replace ?_
  refine .replacing id item prepared ?_ rfl (fun _ => rfl) rfl
  intro reply
  cases reply with
  | error e => exact .done _
  | ok found =>
      cases found with
      | none => exact .done _
      | some existing =>
          exact .call _ fun reply => by rcases reply with _ | _ | _ <;> exact ⟨_, rfl⟩

theorem planned_saveScript (item : Document) :
    (WriteCall.save item).Planned v.name env.date
      ((WriteCall.save item).script v env fresh) := by
  simp only [WriteCall.script, saveScript, told_of_no_hooks hooks, Script.bind_assoc]
  refine WriteCall.planned_lift_bind _ fun context _ => ?_
  refine planned_held_bind env .replace ?_
  cases hid : item.value? Item.idField with
  | none =>
      simp only [saveRowScript, hid, saveNewScript]
      cases v.insertion item context fresh env.date with
      | error e => exact .refused _
      | ok stored => exact .adding stored fun reply => by cases reply <;> exact ⟨_, rfl⟩
  | some id =>
      have hnew : v.insertion item context fresh env.date =
          (Document.clean item).map fun cleaned =>
            Item.stampNew cleaned (.string fresh) context.identity env.date := by
        rw [insertion_of_no_hooks hooks]
        cases Document.clean item <;> rfl
      have hreplacement : v.replacement id item context =
          (Document.clean item).map fun cleaned => (id, cleaned) := by
        rw [replacement_of_no_hooks hooks, Document.put_of_value? hid]
        cases Document.clean item <;> rfl
      simp only [saveRowScript, hid, saveNewScript, saveOverScript, hnew, hreplacement]
      cases hclean : Document.clean item with
      | error e =>
          exact .unsavable fun reply => by rcases reply with _ | _ | _ <;> exact ⟨_, rfl⟩
      | ok cleaned =>
          obtain ⟨-, rfl⟩ := Document.clean_eq_ok.mp hclean
          refine .saving (Item.stampNew cleaned (.string fresh) context.identity env.date) cleaned
            hid ?_ ?_ rfl ?_ (fun _ => rfl) rfl
          · rw [Item.value?_id_stampNew, hid]
            rfl
          · intro reply
            cases reply with
            | error e => exact .done _
            | ok found =>
                cases found with
                | none => exact .call _ fun reply => by cases reply <;> exact ⟨_, rfl⟩
                | some existing =>
                    exact .call _ fun reply => by rcases reply with _ | _ | _ <;> exact ⟨_, rfl⟩
          · intro e
            exact congrArg (fun e => Script.done (.error e)) (Error.inOperation_inOperation ..)

/-- Without hooks the scripts of insertions, replacements, savings and removals are planned. -/
theorem planned_script {call : WriteCall} (hcall : call.patch? = none) :
    call.Planned v.name env.date (call.script v env fresh) := by
  cases call with
  | insert item => exact planned_insertScript env fresh hooks item
  | replace id item => exact planned_replaceScript env fresh hooks id item
  | save item => exact planned_saveScript env fresh hooks item
  | remove id => exact planned_removeScript env fresh hooks id
  | update | push | pull | increment | multiply => cases hcall

end CollectionView

/-! ### Overtaken writers -/

namespace Script

variable {α β : Type} {name : String} {c between : Collections} {id : Value} {d e : Document}

/-- There is nothing to store over. -/
theorem run_replace_of_none {next : Outcome (Option Document) → Script α}
    (hnone : c.findById name id = none) :
    (Script.call (.replace id d) next).run name c = (next (.ok none)).run name c := by
  rw [run, HandleCall.perform_replace, Collections.replaceOne,
    Collections.positionOf?_of_findById_eq_none hnone]

/-- The identity of a new document is not free. -/
theorem run_insert_of_some {next : Outcome (Option Document) → Script α}
    (hd : d.value? Item.idField = some id) (hsome : c.findById name id = some e) :
    (Script.call (.insert d) next).run name c =
      (next (.error (.alreadyExists id.idLabel name))).run name c := by
  obtain ⟨position, hposition, -⟩ := Collections.exists_positionOf?_of_findById hsome
  have hinsert : c.insertOne name d = .error (.alreadyExists id.idLabel name) := by
    simp [Collections.insertOne, hd, hposition]
  rw [run, HandleCall.perform_insert, hinsert]

/-- A script that would go on in the same way with what it finds later might as well run later. -/
theorem serial_of_same_reply {next : Outcome (Option Document) → Script α} {t : Script β}
    {a : Outcome α} {b : Outcome β} {c' : Collections} (hother : t.run name c = (b, between))
    (hrest : (next (.ok (c.findById name id))).run name between = (a, c'))
    (hsame : next (.ok (c.findById name id)) = next (.ok (between.findById name id))) :
    Serial name t (.call (.find id) next) c b a c' :=
  ⟨between, hother, by rw [run_find, ← hsame, hrest]⟩

/-- A script that goes on without a call might as well run first. -/
theorem serial_of_done {next : Outcome (Option Document) → Script α} {t : Script β}
    {a : Outcome α} {b : Outcome β} {c' : Collections} (hother : t.run name c = (b, between))
    (hrest : (next (.ok (c.findById name id))).run name between = (a, c'))
    (hdone : ∃ outcome, next (.ok (c.findById name id)) = .done outcome) :
    Serial name (.call (.find id) next) t c a b c' := by
  obtain ⟨outcome, hdone⟩ := hdone
  rw [hdone] at hrest
  cases hrest
  exact ⟨c, by rw [run_find, hdone]; rfl, hother⟩

end Script

namespace WriteCall

/-- A saving whose item was added or taken out by another writer after the look-up: it fails. -/
inductive Foiled (name : String) (before after : Collections) :
    WriteCall → Outcome Payload → Prop
  | added {item : Document} {id : Value} (hid : item.value? Item.idField = some id)
      (hbefore : before.findById name id = none) (hafter : (after.findById name id).isSome) :
      Foiled name before after (.save item) (.error (lateAddition name id))
  | removed {item : Document} {id : Value} (hid : item.value? Item.idField = some id)
      (hbefore : (before.findById name id).isSome) (hafter : after.findById name id = none) :
      Foiled name before after (.save item) (.error (lateRemoval name id))

/-- If one call stores over a document that the other one takes out, it is the only one of its
identity. -/
def Unambiguous (call other : WriteCall) (name : String) (c : Collections) : Prop :=
  ∀ id target, call.overwrites = true → call.named = some id → other.taken = some target →
    id.same target = true → (c.rows name).countP (hasId id) ≤ 1

variable {name : String} {now later : Instant} {call other : WriteCall} {s t : Script Payload}
  {c c' : Collections} {a b : Outcome Payload}

/-- A writer that is overtaken might as well have run after the other one, or before it, or it is
a saving that fails and leaves what the other one has made of the collections. -/
theorem Planned.of_overtaken (hs : call.Planned name now s) (ht : other.Planned name later t)
    (hone : call.Unambiguous other name c) (h : Overtaken name s t c a b c') :
    (Serial name s t c a b c' ∨ Serial name t s c b a c') ∨
      t.run name c = (b, c') ∧ Foiled name c c' call a := by
  obtain ⟨id, next, between, rfl, hother, hrest⟩ := h
  have hstamped : call.overwrites = true → call.named = some id → ∀ {e d},
      c.findById name id = some e → between.findById name id = some d →
      ∀ prepared, Item.stampReplacement prepared e now = Item.stampReplacement prepared d now := by
    intro hoverwrites hnamed e d he hd prepared
    have hkept := (ht.amended hother).kept (fun target => hone id target hoverwrites hnamed) he hd
    exact Item.stampReplacement_congr hkept prepared now
  cases hs with
  | @replacing _ item prepared lost _ overwrite hnext hnone hsome hlost =>
      left
      cases hbefore : c.findById name id with
      | none => exact .inl (serial_of_done hother hrest ⟨lost, by rw [hbefore, hnone]⟩)
      | some e =>
          right
          cases hafter : between.findById name id with
          | none =>
              rw [hbefore, hsome, run_replace_of_none hafter, hlost] at hrest
              exact ⟨between, hother, by rw [run_find, hafter, hnone, hrest]⟩
          | some d =>
              refine serial_of_same_reply hother hrest ?_
              rw [hbefore, hafter, hsome, hsome, hstamped rfl rfl hbefore hafter]
  | unsavable hnext =>
      obtain ⟨e, he⟩ := hnext (.ok (c.findById name id))
      exact .inl (.inl (serial_of_done hother hrest ⟨_, he⟩))
  | @saving _ item d prepared _ add overwrite hid hd hnext hnone hadd hsome hoverwrite =>
      cases hbefore : c.findById name id with
      | none =>
          cases hafter : between.findById name id with
          | none =>
              exact .inl (.inr (serial_of_same_reply hother hrest (by rw [hbefore, hafter])))
          | some e =>
              right
              rw [hbefore, hnone, run_insert_of_some hd hafter, hadd] at hrest
              cases hrest
              exact ⟨hother, .added hid hbefore (by rw [hafter]; rfl)⟩
      | some e =>
          cases hafter : between.findById name id with
          | none =>
              right
              rw [hbefore, hsome, run_replace_of_none hafter, hoverwrite] at hrest
              cases hrest
              exact ⟨hother, .removed hid (by rw [hbefore]; rfl) hafter⟩
          | some d =>
              refine .inl (.inr (serial_of_same_reply hother hrest ?_))
              rw [hbefore, hafter, hsome, hsome, hstamped rfl hid hbefore hafter]

end WriteCall

/-! ### Two writers -/

/-- Somebody who makes a call that writes, with a view, an environment and a world of their own
but for the collections. -/
structure Writer where
  view : CollectionView
  environment : Environment
  world : World
  call : WriteCall

namespace Writer

def script (x : Writer) : Script Payload :=
  x.call.script x.view x.environment (x.environment.fresh x.world.drawn)

/-- What a writer returns and makes of the collections when nobody else is there. -/
def alone (x : Writer) (c : Collections) : Outcome Payload × Collections :=
  x.call.upshot x.view x.environment { x.world with collections := c }

/-- An insertion, a replacement, a saving or a removal in a collection, without hooks. -/
structure Plain (x : Writer) (name : String) : Prop where
  hooks : x.view.Unhooked
  name_eq : x.view.name = name
  call_eq : x.call.patch? = none

variable {x y : Writer} {name : String} {c c' : Collections} {a b : Outcome Payload}

theorem Plain.planned (hx : x.Plain name) :
    x.call.Planned name x.environment.date x.script := by
  rw [← hx.name_eq]
  exact CollectionView.planned_script x.environment _ hx.hooks hx.call_eq

/-- A writer alone does what its script does. -/
theorem Plain.run_script (hx : x.Plain name) (c : Collections) :
    x.script.run name c = x.alone c := by
  rw [← hx.name_eq, alone, WriteCall.upshot_eq_run_script]
  rfl

/-- One writer after the other. -/
def InTurn (x y : Writer) (c : Collections) (a b : Outcome Payload) (c' : Collections) : Prop :=
  ∃ between, x.alone c = (a, between) ∧ y.alone between = (b, c')

theorem serial_iff (hx : x.Plain name) (hy : y.Plain name) :
    Serial name x.script y.script c a b c' ↔ x.InTurn y c a b c' := by
  simp only [Serial, InTurn, hx.run_script, hy.run_script]

/-- Two writers without hooks in one collection end as one after the other, in one of the two
orders and in results as well as in collections.  The exception is a saving whose item the other
writer adds or takes out between the look-up and the write: it fails and changes nothing. -/
theorem serializable (hx : x.Plain name) (hy : y.Plain name)
    (hxy : x.call.Unambiguous y.call name c) (hyx : y.call.Unambiguous x.call name c)
    (h : Interleaved name x.script y.script c a b c') :
    (x.InTurn y c a b c' ∨ y.InTurn x c b a c') ∨
      (y.alone c = (b, c') ∧ x.call.Foiled name c c' a) ∨
        (x.alone c = (a, c') ∧ y.call.Foiled name c c' b) := by
  simp only [← serial_iff hx hy, ← serial_iff hy hx, ← hx.run_script, ← hy.run_script]
  rcases h.cases_of_short hx.planned.short hy.planned.short with hserial | hovertaken | hovertaken
  · exact .inl hserial
  · exact (hx.planned.of_overtaken hy.planned hxy hovertaken).imp_right .inl
  · rcases hy.planned.of_overtaken hx.planned hyx hovertaken with hserial | hfoiled
    · exact .inl hserial.symm
    · exact .inr (.inr hfoiled)

end Writer

namespace WriterExample

open OwnedExample (environment)

def writer (call : WriteCall) : Writer :=
  ⟨SessionExample.view "notes", environment, SessionExample.empty, call⟩

def note (text : String) : Document :=
  SessionExample.note (.int32 1) text

def owned (text owner : String) : Document :=
  note text ++ [(Item.ownerField, .string owner)]

def saving (text : String) : Writer :=
  writer (.save (note text))

def replacing (text : String) : Writer :=
  writer (.replace (.int32 1) (note text))

def removing : Writer :=
  writer (.remove (.int32 1))

theorem plain {call : WriteCall} (hcall : call.patch? = none) : (writer call).Plain "notes" :=
  ⟨.inr rfl, rfl, hcall⟩

/-- Whether two calls have succeeded, and the texts and owners of the notes after them. -/
abbrev Sight := Bool × Bool × List (Option String × Option String)

def sight (a b : Outcome Payload) (c : Collections) : Sight :=
  (a.isOk, b.isOk, (c.rows "notes").map fun d =>
    ((d.value? "text").bind Value.text?, (d.value? Item.ownerField).bind Value.text?))

section Sights

variable (x y : Writer) (notes : List Document)

def sightAfter (schedule : List Bool) : Option Sight :=
  (interleave "notes" schedule x.script y.script [("notes", notes)]).map fun (a, b, c) =>
    sight a b c

def sightInTurn : Sight :=
  let (a, between) := x.alone [("notes", notes)]
  let (b, c) := y.alone between
  sight a b c

def sightInReverse : Sight :=
  let (b, between) := y.alone [("notes", notes)]
  let (a, c) := x.alone between
  sight a b c

/-- Two writers may end in a way in which they do not end one after the other. -/
def Unserializable : Prop :=
  ∃ a b c', Interleaved "notes" x.script y.script [("notes", notes)] a b c' ∧
    ∀ a' b' c'', (x.InTurn y [("notes", notes)] a' b' c'' ∨
      y.InTurn x [("notes", notes)] b' a' c'') → sight a b c' ≠ sight a' b' c''

theorem unserializable_of_sights {x y : Writer} {notes : List Document} (schedule : List Bool)
    (seen : Sight) (h : sightAfter x y notes schedule = some seen)
    (hturn : seen ≠ sightInTurn x y notes) (hreverse : seen ≠ sightInReverse x y notes) :
    Unserializable x y notes := by
  obtain ⟨⟨a, b, c'⟩, hrun, rfl⟩ := Option.map_eq_some_iff.mp h
  refine ⟨a, b, c', interleaved_iff.mpr ⟨schedule, hrun⟩, ?_⟩
  rintro a' b' c'' (⟨between, hfirst, hlater⟩ | ⟨between, hfirst, hlater⟩)
  · simpa only [sightInTurn, hfirst, hlater] using hturn
  · simpa only [sightInReverse, hfirst, hlater] using hreverse

end Sights

end WriterExample

open WriterExample in
/-- A saving finds the one note there is, and a removal comes next. -/
theorem Writer.serializable_of_saving_and_removing :
    ∃ a b c', Interleaved "notes" (saving "b").script removing.script [("notes", [note "a"])]
        a b c' ∧
      (((saving "b").InTurn removing [("notes", [note "a"])] a b c' ∨
          removing.InTurn (saving "b") [("notes", [note "a"])] b a c') ∨
        (removing.alone [("notes", [note "a"])] = (b, c') ∧
            (saving "b").call.Foiled "notes" [("notes", [note "a"])] c' a) ∨
          ((saving "b").alone [("notes", [note "a"])] = (a, c') ∧
            removing.call.Foiled "notes" [("notes", [note "a"])] c' b)) := by
  have hrun : (interleave "notes" [true, false, true] (saving "b").script removing.script
      [("notes", [note "a"])]).isSome = true := by decide +kernel
  obtain ⟨⟨a, b, c'⟩, hrun⟩ := Option.isSome_iff_exists.mp hrun
  have h := interleaved_iff.mpr ⟨_, hrun⟩
  have hsaving : (saving "b").call.Unambiguous removing.call "notes" [("notes", [note "a"])] := by
    intro id target _ hid _ _
    cases hid
    decide +kernel
  have hremoving :
      removing.call.Unambiguous (saving "b").call "notes" [("notes", [note "a"])] := nofun
  exact ⟨a, b, c', h, serializable (plain rfl) (plain rfl) hsaving hremoving h⟩

open WriterExample in
/-- Two savings of one item, a saving and a removal, and a replacement and a removal of one of two
documents of the same identity. -/
theorem Writer.not_serializable :
    Unserializable (saving "a") (saving "b") [] ∧
      Unserializable (saving "b") removing [note "a"] ∧
        Unserializable (replacing "b") removing [owned "a" "ann", owned "a" "bob"] := by
  refine ⟨?_, ?_, ?_⟩
  · exact unserializable_of_sights [true, false, true, false] (true, false, [(some "a", none)])
      (by decide +kernel) (by decide +kernel) (by decide +kernel)
  · exact unserializable_of_sights [true, false, true] (false, true, [])
      (by decide +kernel) (by decide +kernel) (by decide +kernel)
  · exact unserializable_of_sights [true, false, true] (true, true, [(some "b", some "ann")])
      (by decide +kernel) (by decide +kernel) (by decide +kernel)

end DocumentBase
