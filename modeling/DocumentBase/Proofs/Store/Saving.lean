import DocumentBase.Proofs.Store.Identities
import DocumentBase.Proofs.Store.Persistence
import DocumentBase.Proofs.Store.Scripts

/-!
# Saving is inserting or replacing

An item whose identity is not stored is saved as it is inserted.  An item whose identity is stored
is saved as it replaces the document with this identity, unless the hook before the replacement
sends it to another document: saving stores over that document, too, but gives the new one the
protected fields of the document that was found first.  Then two documents have one identity.
-/

namespace DocumentBase

/-! ### What a script yields -/

namespace Script

variable {α β γ : Type}

/-- What a script returns, if it does not fail, and what it makes of the collections. -/
def yield (name : String) (s : Script α) (c : Collections) : Option α × Collections :=
  ((s.run name c).1.toOption, (s.run name c).2)

variable {name : String} {c : Collections}

theorem yield_bind (s : Script α) (next : α → Script β) :
    (s >>= next).yield name c =
      match s.yield name c with
      | (some result, c') => (next result).yield name c'
      | (none, c') => (none, c') := by
  rw [yield, yield, run_bind]
  cases s.run name c with
  | mk outcome c' => cases outcome <;> rfl

theorem yield_lift_bind (outcome : Outcome α) (next : α → Script β) :
    (liftM outcome >>= next).yield name c =
      match outcome with
      | .ok result => (next result).yield name c
      | .error _ => (none, c) := by
  cases outcome <;> rfl

theorem yield_ask_bind (h : HandleCall) (next : Option Document → Script β) :
    (ask h >>= next).yield name c =
      match h.perform name c with
      | (.ok reply, c') => (next reply).yield name c'
      | (.error _, c') => (none, c') := by
  rw [yield_bind, yield, run_ask]
  cases h.perform name c with
  | mk outcome c' => cases outcome <;> rfl

theorem yield_inOperation (s : Script α) (operation : Operation) (collection : String) :
    (s.inOperation operation collection).yield name c = s.yield name c := by
  rw [yield, yield, run_inOperation]
  cases (s.run name c).1 <;> rfl

theorem yield_inOperation_bind (s : Script α) (operation : Operation) (collection : String)
    (next : α → Script β) :
    (s.inOperation operation collection >>= next).yield name c = (s >>= next).yield name c := by
  rw [yield_bind, yield_inOperation, yield_bind]

end Script

namespace CollectionView

variable (v : CollectionView) (env : Environment) {c : Collections}

theorem yield_held_bind {α β : Type} (operation : Operation) (s : Script α) (next : α → Script β) :
    (v.held env operation s >>= next).yield v.name c =
      match env.access v.name v.acquireOptions with
      | .ok () => (s >>= next).yield v.name c
      | .error _ => (none, c) := by
  rw [held]
  cases env.access v.name v.acquireOptions with
  | ok => exact Script.yield_inOperation_bind s operation v.name next
  | error => rfl

/-- A new item is saved as it is inserted. -/
theorem yield_save_of_none (fresh : String) {item : Document}
    (hnone : (item.value? Item.idField).bind (c.findById v.name) = none) :
    ((WriteCall.save item).script v env fresh).yield v.name c =
      ((WriteCall.insert item).script v env fresh).yield v.name c := by
  have hrow : ∀ {α : Type} context (next : Operation × Document → Script α),
      (v.saveRowScript env fresh context item >>= next).yield v.name c =
        (v.saveNewScript env fresh context item >>= next).yield v.name c := by
    intro α context next
    rw [saveRowScript]
    cases hid : item.value? Item.idField with
    | none => rfl
    | some id =>
        rw [hid, Option.bind_some] at hnone
        rw [Script.bind_assoc, Script.yield_ask_bind, HandleCall.perform_find, hnone]
  simp only [WriteCall.script, insertScript, saveScript, saveNewScript, Script.bind_assoc,
    Script.pure_bind, Script.yield_lift_bind, yield_held_bind, hrow, Script.yield_inOperation_bind]
  cases v.context false with
  | error => rfl
  | ok context =>
      dsimp only
      cases env.access v.name v.acquireOptions <;>
        cases v.insertion item context fresh env.date <;> rfl

/-- The end of storing over a document, given the one that the new one takes after. -/
def overScript (context : HookContext) (target : Value) (prepared existing : Document) :
    Script Payload := do
  let replaced ← Script.ask (.replace target (Item.stampReplacement prepared existing env.date))
  return .item (← v.told .replace (← v.required target replaced) context)

/-- What storing over a document yields: the hook names the document that is stored over, and
`before` the one that the new one takes after. -/
def overwriting (c : Collections) (id : Value) (item : Document)
    (before : Value → Option Document) : Option Payload × Collections :=
  match v.context false with
  | .error _ => (none, c)
  | .ok context =>
    match env.access v.name v.acquireOptions with
    | .error _ => (none, c)
    | .ok () =>
      match v.replacement id item context with
      | .error _ => (none, c)
      | .ok (target, prepared) =>
        match before target with
        | none => (none, c)
        | some existing => (v.overScript env context target prepared existing).yield v.name c

/-- Saving over a document stores one that takes after it, wherever the hook sends it. -/
theorem yield_save_of_some (fresh : String) {item existing : Document} {id : Value}
    (hid : item.value? Item.idField = some id)
    (hfound : c.findById v.name id = some existing) :
    ((WriteCall.save item).script v env fresh).yield v.name c =
      v.overwriting env c id item fun _ => some existing := by
  have hrow : ∀ {α : Type} context (next : Operation × Document → Script α),
      (v.saveRowScript env fresh context item >>= next).yield v.name c =
        (v.saveOverScript env context item id existing >>= next).yield v.name c := by
    intro α context next
    rw [saveRowScript, hid, Script.bind_assoc, Script.yield_ask_bind, HandleCall.perform_find,
      hfound]
  simp only [WriteCall.script, saveScript, saveOverScript, Script.bind_assoc,
    Script.pure_bind, Script.yield_lift_bind, yield_held_bind, hrow, overwriting]
  cases v.context false with
  | error => rfl
  | ok context =>
      dsimp only
      cases env.access v.name v.acquireOptions <;> cases v.replacement id item context <;> rfl

theorem yield_replace (fresh : String) (id : Value) (item : Document) :
    ((WriteCall.replace id item).script v env fresh).yield v.name c =
      v.overwriting env c id item (c.findById v.name) := by
  have hrow : ∀ {α : Type} target prepared (next : Option Document → Script α),
      (replaceRowScript env target prepared >>= next).yield v.name c =
        match c.findById v.name target with
        | none => (next none).yield v.name c
        | some existing =>
          (Script.ask (.replace target (Item.stampReplacement prepared existing env.date)) >>=
            next).yield v.name c := by
    intro α target prepared next
    rw [replaceRowScript, Script.bind_assoc, Script.yield_ask_bind, HandleCall.perform_find]
    cases c.findById v.name target <;> rfl
  simp only [WriteCall.script, replaceScript, Script.bind_assoc, Script.yield_lift_bind,
    yield_held_bind, hrow, overwriting]
  cases v.context false with
  | error => rfl
  | ok context =>
      dsimp only
      cases v.replacement id item context with
      | error => cases env.access v.name v.acquireOptions <;> rfl
      | ok prepared =>
          obtain ⟨target, prepared⟩ := prepared
          dsimp only
          cases env.access v.name v.acquireOptions <;> cases c.findById v.name target <;> rfl

/-- An item is sent to another document than the one that was found for it. -/
def Diverted (c : Collections) (id : Value) (item existing : Document) : Prop :=
  env.access v.name v.acquireOptions = .ok () ∧
    ∃ context target prepared other, v.context false = .ok context ∧
      v.replacement id item context = .ok (target, prepared) ∧
        c.findById v.name target = some other ∧ other ≠ existing

theorem exists_told (operation : Operation) (item : Document) (context : HookContext) :
    ∃ d, v.told operation item context = .ok d := by
  obtain ⟨d, hd⟩ := exists_item_of_kind (v.kind_answer operation (.item item) context)
  exact ⟨d, by rw [told, hd]; rfl⟩

variable (context : HookContext) {target : Value} (prepared existing : Document)

theorem yield_overScript_of_none (hnone : c.findById v.name target = none) :
    (v.overScript env context target prepared existing).yield v.name c = (none, c) := by
  simp only [overScript, Script.yield_ask_bind, HandleCall.perform_replace, Collections.replaceOne,
    Collections.positionOf?_of_findById_eq_none hnone, required, Script.yield_lift_bind]

theorem yield_overScript_of_some {position : Nat}
    (hposition : positionOf? (c.rows v.name) target = some position) :
    ∃ payload, (v.overScript env context target prepared existing).yield v.name c =
      (some payload, c.store v.name ((c.rows v.name).set position
        (Item.stampReplacement prepared existing env.date))) := by
  obtain ⟨d, hd⟩ :=
    v.exists_told .replace (Item.stampReplacement prepared existing env.date) context
  refine ⟨.item d, ?_⟩
  simp only [overScript, Script.yield_ask_bind, HandleCall.perform_replace, Collections.replaceOne,
    hposition, required, Script.yield_lift_bind, hd]
  rfl

end CollectionView

/-! ### Documents stored over -/

/-- Documents that differ in their identities have none in common. -/
theorem DifferInId.value?_ne {d e : Document} {id : Value} (h : DifferInId d e)
    (he : hasId id e = true) : d.value? Item.idField ≠ e.value? Item.idField := by
  intro heq
  obtain ⟨i, hi, hsame⟩ := hasId_iff.mp he
  have hself : i.same i = true := Value.same_trans hsame (Value.same_symm hsame)
  rw [h i i (heq.trans hi) hi] at hself
  cases hself

theorem DistinctIds.differInId {rows : List Document} {p q : Nat} {d e : Document}
    (h : DistinctIds rows) (hpq : p ≠ q) (hp : rows[p]? = some d) (hq : rows[q]? = some e) :
    DifferInId d e := by
  obtain ⟨hlt, rfl⟩ := List.getElem?_eq_some_iff.mp hp
  obtain ⟨hlt', rfl⟩ := List.getElem?_eq_some_iff.mp hq
  rcases Nat.lt_or_gt_of_ne hpq with hless | hmore
  · exact List.pairwise_iff_getElem.mp h p q hlt hlt' hless
  · exact DifferInId.symm (List.pairwise_iff_getElem.mp h q p hlt' hlt hmore)

section Rows

variable {c : Collections} {name : String} {id target : Value} {existing other : Document}
  (hfound : c.findById name id = some existing) (hother : c.findById name target = some other)
  (hne : other ≠ existing)
include hfound hother hne

theorem exists_positionOf?_ne : ∃ p q, p ≠ q ∧ positionOf? (c.rows name) target = some p ∧
    (c.rows name)[p]? = some other ∧ (c.rows name)[q]? = some existing := by
  obtain ⟨q, -, hq⟩ := Collections.exists_positionOf?_of_findById hfound
  obtain ⟨p, hposition, hp⟩ := Collections.exists_positionOf?_of_findById hother
  refine ⟨p, q, ?_, hposition, hp, hq⟩
  rintro rfl
  exact hne (Option.some.inj (hp.symm.trans hq))

/-- Replacements that take after different documents are different. -/
theorem stampReplacement_ne (hdistinct : DistinctIds (c.rows name)) (prepared : Document)
    (now : Instant) :
    Item.stampReplacement prepared other now ≠ Item.stampReplacement prepared existing now := by
  intro heq
  obtain ⟨p, q, hpq, -, hp, hq⟩ := exists_positionOf?_ne hfound hother hne
  have hfield : Item.idField ∈ Item.protectedFields := by decide
  apply (hdistinct.differInId hpq hp hq).value?_ne (Collections.hasId_of_findById hfound)
  rw [← Item.value?_stampReplacement prepared other now hfield, heq,
    Item.value?_stampReplacement prepared existing now hfield]

/-- An item that is stored over another document than the one found leaves different collections. -/
theorem store_stampReplacement_ne {position : Nat}
    (hposition : positionOf? (c.rows name) target = some position)
    (hdistinct : DistinctIds (c.rows name)) (prepared : Document) (now : Instant) :
    c.store name ((c.rows name).set position (Item.stampReplacement prepared existing now)) ≠
      c.store name ((c.rows name).set position (Item.stampReplacement prepared other now)) := by
  intro heq
  have hrows := congrArg (fun stored => (stored.rows name)[position]?) heq
  have hlt := lt_length_of_positionOf? hposition
  simp only [Collections.rows_store_self, List.getElem?_set_self hlt] at hrows
  exact stampReplacement_ne hfound hother hne hdistinct prepared now (Option.some.inj hrows).symm

/-- A replacement that is stored over another document than it takes after repeats an identity. -/
theorem not_distinctIds_set {position : Nat}
    (hposition : positionOf? (c.rows name) target = some position) (prepared : Document)
    (now : Instant) :
    ¬ DistinctIds ((c.rows name).set position (Item.stampReplacement prepared existing now)) := by
  intro hset
  obtain ⟨p, q, hpq, hp, -, hq⟩ := exists_positionOf?_ne hfound hother hne
  cases hposition.symm.trans hp
  have hdiffer := hset.differInId hpq
    (List.getElem?_set_self (lt_length_of_positionOf? hposition))
    ((List.getElem?_set_ne hpq).trans hq)
  exact hdiffer.value?_ne (Collections.hasId_of_findById hfound)
    (Item.value?_stampReplacement prepared existing now (by decide))

end Rows

/-! ### Saving -/

namespace CollectionView

variable {v : CollectionView} (env : Environment) {c : Collections} {id : Value}
  (item : Document) {existing : Document}

/-- Taking after the document that was found first and taking after the one that is stored over
both fail, or the two differ at most in the document that is stored. -/
theorem overwriting_cases (hfound : c.findById v.name id = some existing) :
    ((v.overwriting env c id item fun _ => some existing) = (none, c) ∧
      v.overwriting env c id item (c.findById v.name) = (none, c) ∧
        ¬ v.Diverted env c id item existing) ∨
    ∃ (target : Value) (prepared other : Document) (position : Nat) (first later : Payload),
      positionOf? (c.rows v.name) target = some position ∧
      c.findById v.name target = some other ∧
      (v.overwriting env c id item fun _ => some existing) =
        (some first, c.store v.name ((c.rows v.name).set position
          (Item.stampReplacement prepared existing env.date))) ∧
      v.overwriting env c id item (c.findById v.name) =
        (some later, c.store v.name ((c.rows v.name).set position
          (Item.stampReplacement prepared other env.date))) ∧
      (other = existing → first = later) ∧
      (v.Diverted env c id item existing ↔ other ≠ existing) := by
  unfold overwriting Diverted
  cases hcontext : v.context false with
  | error => simp
  | ok context =>
      cases haccess : env.access v.name v.acquireOptions with
      | error => simp
      | ok =>
          cases hreplacement : v.replacement id item context with
          | error => simp [hreplacement]
          | ok replacement =>
              obtain ⟨target, prepared⟩ := replacement
              cases hother : c.findById v.name target with
              | none =>
                  left
                  simp [hreplacement, hother,
                    v.yield_overScript_of_none env context prepared existing hother]
              | some other =>
                  obtain ⟨position, hposition, -⟩ :=
                    Collections.exists_positionOf?_of_findById hother
                  obtain ⟨first, hfirst⟩ :=
                    v.yield_overScript_of_some env context prepared existing hposition
                  obtain ⟨later, hlater⟩ :=
                    v.yield_overScript_of_some env context prepared other hposition
                  right
                  have hsame : other = existing → first = later := by
                    rintro rfl
                    cases hfirst.symm.trans hlater
                    rfl
                  refine ⟨target, prepared, other, position, first, later, hposition, hother, ?_⟩
                  simpa [hreplacement, hother, hfirst, hlater] using hsame

end CollectionView

namespace WriteCall

/-- Two calls do the same: they return the same, or both fail, and they make the same of the
collections. -/
def SameUpshot (v : CollectionView) (env : Environment) (w : World) (call other : WriteCall) :
    Prop :=
  (call.upshot v env w).1.toOption = (other.upshot v env w).1.toOption ∧
    (call.upshot v env w).2 = (other.upshot v env w).2

variable {v : CollectionView} {env : Environment} {w : World}

theorem yield_script (call : WriteCall) :
    (call.script v env (env.fresh w.drawn)).yield v.name w.collections =
      ((call.upshot v env w).1.toOption, (call.upshot v env w).2) := by
  rw [upshot_eq_run_script]
  rfl

/-- Calls have the same upshot if their scripts yield the same. -/
theorem sameUpshot_iff {call other : WriteCall} :
    SameUpshot v env w call other ↔
      (call.script v env (env.fresh w.drawn)).yield v.name w.collections =
        (other.script v env (env.fresh w.drawn)).yield v.name w.collections := by
  rw [yield_script, yield_script, Prod.mk.injEq]
  rfl

theorem isOk_upshot (call : WriteCall) : (call.upshot v env w).1.isOk =
    ((call.script v env (env.fresh w.drawn)).yield v.name w.collections).1.isSome := by
  rw [yield_script]
  cases (call.upshot v env w).1 <;> rfl

/-- Where identities are unique, an item whose identity is not stored is saved as it is inserted.
If its identity is stored, saving fails exactly when replacing fails, and does the same unless the
hook before the replacement diverts the item; then saving makes two documents of one identity. -/
theorem save_inserts_or_replaces (item : Document)
    (hdistinct : DistinctIds (w.collections.rows v.name)) :
    ((item.value? Item.idField).bind (w.collections.findById v.name) = none →
      SameUpshot v env w (.save item) (.insert item)) ∧
    ∀ id existing, item.value? Item.idField = some id →
      w.collections.findById v.name id = some existing →
        (((save item).upshot v env w).1.isOk = ((replace id item).upshot v env w).1.isOk) ∧
        (SameUpshot v env w (.save item) (.replace id item) ↔
          ¬ v.Diverted env w.collections id item existing) ∧
        (v.Diverted env w.collections id item existing →
          ¬ DistinctIds (((save item).upshot v env w).2.rows v.name)) := by
  refine ⟨fun hnone => sameUpshot_iff.mpr (v.yield_save_of_none env _ hnone), ?_⟩
  intro id existing hid hfound
  have hsave := v.yield_save_of_some env (env.fresh w.drawn) hid hfound
  have hreplace : ((replace id item).script v env (env.fresh w.drawn)).yield v.name w.collections =
      v.overwriting env w.collections id item (w.collections.findById v.name) :=
    v.yield_replace env (env.fresh w.drawn) id item
  have hcollections : ((save item).upshot v env w).2 =
      (v.overwriting env w.collections id item fun _ => some existing).2 := by
    rw [← hsave, yield_script]
  rw [isOk_upshot, isOk_upshot, sameUpshot_iff, hcollections, hsave, hreplace]
  rcases v.overwriting_cases env item hfound with
    ⟨hfirst, hlater, hstraight⟩ |
      ⟨target, prepared, other, position, first, later, hposition, hother, hfirst, hlater, hsame,
        hdiverted⟩
  · rw [hfirst, hlater]
    exact ⟨rfl, iff_of_true rfl hstraight, fun h => absurd h hstraight⟩
  · rw [hfirst, hlater, hdiverted]
    refine ⟨rfl, ?_, ?_⟩
    · constructor
      · intro heq hne
        exact store_stampReplacement_ne hfound hother hne hposition hdistinct prepared env.date
          (congrArg Prod.snd heq)
      · intro hstraight
        rw [not_not.mp hstraight, hsame (not_not.mp hstraight)]
    · intro hne
      rw [Collections.rows_store_self]
      exact not_distinctIds_set hfound hother hne hposition prepared env.date

end WriteCall

namespace SavingExample

open OwnedExample (environment)

def world : World :=
  OwnedExample.world [OwnedExample.note "1" "ann", OwnedExample.note "2" "bob"]

/-- A hook that sends every replacement to the second note. -/
def divert : Hook := fun payload _ =>
  match payload with
  | .item d => .ok (some (.item (d.put Item.idField (.string "2"))))
  | _ => .ok none

def view : CollectionView :=
  { store := { Store.basic 0 with hooks := Hooks.empty.register "notes" ⟨.before, .replace⟩ divert }
    name := "notes"
    options := .default }

def item : Document :=
  [(Item.idField, .string "1"), ("text", .string "c")]

/-- The identities and the owners of the notes after a call. -/
def heldAfter (call : WriteCall) : List (Option String × Option String) :=
  ((call.upshot view environment world).2.rows "notes").map fun d =>
    ((d.value? Item.idField).bind Value.text?, (d.value? Item.ownerField).bind Value.text?)

theorem distinctIds : DistinctIds (world.collections.rows view.name) := by
  refine List.Pairwise.cons ?_ (List.pairwise_singleton _ _)
  intro d hd i j hi hj
  cases List.mem_singleton.mp hd
  cases hi
  cases hj
  decide +kernel

end SavingExample

open SavingExample OwnedExample in
/-- The first note is stored, but saving it does not do as replacing it: the second note gets the
identity and the owner of the first. -/
theorem WriteCall.save_ne_replace :
    DistinctIds (world.collections.rows SavingExample.view.name) ∧
      item.value? Item.idField = some (.string "1") ∧
      world.collections.findById SavingExample.view.name (.string "1") = some (note "1" "ann") ∧
      heldAfter (.replace (.string "1") item) =
        [(some "1", some "ann"), (some "2", some "bob")] ∧
      heldAfter (.save item) = [(some "1", some "ann"), (some "1", some "ann")] ∧
      ¬ SameUpshot SavingExample.view environment world (.save item)
        (.replace (.string "1") item) := by
  have hreplace : heldAfter (.replace (.string "1") item) =
      [(some "1", some "ann"), (some "2", some "bob")] := by decide +kernel
  have hsave : heldAfter (.save item) = [(some "1", some "ann"), (some "1", some "ann")] := by
    decide +kernel
  refine ⟨distinctIds, rfl, rfl, hreplace, hsave, ?_⟩
  rintro ⟨-, hcollections⟩
  have hheld : heldAfter (.save item) = heldAfter (.replace (.string "1") item) := by
    rw [heldAfter, hcollections]
    rfl
  rw [hsave, hreplace] at hheld
  exact absurd hheld (by decide)

open SavingExample OwnedExample in
theorem WriteCall.save_inserts_or_replaces_of_diverted_note :
    DistinctIds (world.collections.rows SavingExample.view.name) ∧
      ¬ DistinctIds (((save item).upshot SavingExample.view environment world).2.rows "notes") := by
  have hdiverted : SavingExample.view.Diverted environment world.collections (.string "1") item
      (note "1" "ann") := by
    refine ⟨rfl, _, _, _, note "2" "bob", rfl, rfl, rfl, ?_⟩
    simp [note]
  exact ⟨distinctIds,
    ((save_inserts_or_replaces item distinctIds).2 (.string "1") _ rfl rfl).2.2 hdiverted⟩

end DocumentBase
