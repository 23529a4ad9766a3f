import DocumentBase.Proofs.Store.Edits
import DocumentBase.Proofs.Value.Exactness

/-!
# Looking documents up

Four operations of the storage are sent to the first document with an identity, and identities
are compared as in filters.  The document that is found has exactly the identity that was asked
for if comparisons take neither of the two for anything else.  An object identifier counts as
null there, like every other value without an order, and a long integer as the nearest double:
asked for one of these, the operations may find, overwrite or take out another document.
-/

namespace DocumentBase

/-- What is done with the document that has an identity. -/
inductive Lookup where
  | find
  | replace (d : Document)
  | update (u : Update) (now : Instant)
  | delete

namespace Lookup

def run (c : Collections) (name : String) (id : Value) :
    Lookup → Outcome (Option Document × Collections)
  | find => .ok (c.findById name id, c)
  | replace d => .ok (c.replaceOne name id d)
  | update u now => c.updateOne name id u now
  | delete => .ok (c.deleteOne name id)

/-- What an operation does when it has selected the document at a position: no other document is
touched. -/
def Acts (c : Collections) (name : String) (position : Nat) (selected : Document) :
    Lookup → Document → Collections → Prop
  | find, result, c' => result = selected ∧ c' = c
  | replace d, result, c' => result = d ∧ c' = c.store name ((c.rows name).set position d)
  | update u now, result, c' => u.apply now selected = .ok result ∧
      c' = c.store name ((c.rows name).set position result)
  | delete, result, c' => result = selected ∧ c' = c.store name ((c.rows name).eraseIdx position)

variable {c c' : Collections} {name : String} {id : Value} {lookup : Lookup} {result : Document}

/-- An operation that returns a document has selected the first one with the identity. -/
theorem acts_of_run (h : lookup.run c name id = .ok (some result, c')) :
    ∃ position selected, positionOf? (c.rows name) id = some position ∧
      (c.rows name)[position]? = some selected ∧
      lookup.Acts c name position selected result c' := by
  have hselected : ∀ position, positionOf? (c.rows name) id = some position →
      ∃ selected, (c.rows name)[position]? = some selected := fun position hposition =>
    ⟨_, List.getElem?_eq_getElem (lt_length_of_positionOf? hposition)⟩
  cases lookup with
  | find =>
      obtain ⟨hfound, hc⟩ := Prod.mk.inj (Except.ok.inj h)
      obtain ⟨position, hposition, hrow⟩ := Option.bind_eq_some_iff.mp hfound
      exact ⟨position, result, hposition, hrow, rfl, hc.symm⟩
  | replace d =>
      have hreplaced := Except.ok.inj h
      obtain ⟨position, hposition, hc⟩ := Collections.overwritten_of_replaceOne hreplaced
      obtain ⟨selected, hrow⟩ := hselected position hposition
      cases Collections.eq_of_replaceOne_some hreplaced
      exact ⟨position, selected, hposition, hrow, rfl, hc⟩
  | update u now =>
      obtain ⟨position, selected, changed, hposition, hrow, hchanged, rfl, hc⟩ :=
        Collections.exists_change_of_updateOne h
      refine ⟨position, selected, hposition, hrow, ?_, hc⟩
      rw [Update.apply, hchanged]
      rfl
  | delete =>
      have hdeleted := Except.ok.inj h
      simp only [Collections.deleteOne] at hdeleted
      split at hdeleted
      next position hposition =>
        obtain ⟨hrow, hc⟩ := Prod.mk.inj hdeleted
        exact ⟨position, result, hposition, hrow, rfl, hc.symm⟩
      next => cases hdeleted

/-- The document that an operation selects has an identity that is the same as the one asked
for, and the two are exactly alike unless one of them is taken for something else. -/
theorem exactly_of_run (h : lookup.run c name id = .ok (some result, c')) :
    ∃ position selected other, (c.rows name)[position]? = some selected ∧
      lookup.Acts c name position selected result c' ∧
      selected.value? Item.idField = some other ∧ other.same id = true ∧
      (other.Faithful → id.Faithful → Value.Exactly other id) := by
  obtain ⟨position, selected, hposition, hrow, hacts⟩ := acts_of_run h
  obtain ⟨other, hother, hsame⟩ := hasId_iff.mp (hasId_of_positionOf? hposition hrow)
  exact ⟨position, selected, other, hrow, hacts, hother, hsame,
    fun hfaithful hasked => Value.exactly_of_same hfaithful hasked hsame⟩

namespace LookupExample

/-- An identity that is made of others. -/
def kept : Value :=
  .array [.int64 1099511627776, .document [("a", .int32 1), ("b", .string "x")]]

/-- The same identity in other widths and with its keys in another order. -/
def asked : Value :=
  .array [.double ⟨0x4270000000000000⟩,
    .document [("b", .string "x"), ("a", .double ⟨0x3ff0000000000000⟩)]]

def note (id : Value) : Document :=
  [(Item.idField, id), ("text", .string "a")]

def notes (id : Value) : Collections :=
  [("notes", [note id])]

theorem faithful_kept : kept.Faithful := by
  have hlong : (Value.int64 1099511627776).Plain := Value.plain_of_integer rfl (by decide)
  have htext : (Value.string "x").Plain := ⟨nofun, nofun⟩
  have hfields : (Value.document [("a", .int32 1), ("b", .string "x")]).Faithful := by
    rw [Value.faithful_document_iff, List.forall_mem_cons, List.forall_mem_singleton]
    exact ⟨(Value.plain_int32 1).faithful rfl, htext.faithful rfl⟩
  rw [kept, Value.faithful_array_iff, List.forall_mem_cons, List.forall_mem_singleton]
  exact ⟨hlong.faithful rfl, hfields⟩

theorem faithful_asked : asked.Faithful := by
  have hdouble : ∀ x : Double, (Value.double x).Plain := fun _ => ⟨nofun, nofun⟩
  have htext : (Value.string "x").Plain := ⟨nofun, nofun⟩
  have hfields : (Value.document
      [("b", .string "x"), ("a", .double ⟨0x3ff0000000000000⟩)]).Faithful := by
    rw [Value.faithful_document_iff, List.forall_mem_cons, List.forall_mem_singleton]
    exact ⟨htext.faithful rfl, (hdouble _).faithful rfl⟩
  rw [asked, Value.faithful_array_iff, List.forall_mem_cons, List.forall_mem_singleton]
  exact ⟨(hdouble _).faithful rfl, hfields⟩

end LookupExample

open LookupExample in
theorem exactly_of_run_of_nested_identity :
    delete.run (notes kept) "notes" asked = .ok (some (note kept), [("notes", [])]) ∧
      Value.Exactly kept asked := by
  have hrun : delete.run (notes kept) "notes" asked = .ok (some (note kept), [("notes", [])]) :=
    rfl
  obtain ⟨position, selected, other, -, hacts, hother, -, hexactly⟩ := exactly_of_run hrun
  obtain ⟨rfl, -⟩ := hacts
  cases hother
  exact ⟨hrun, hexactly faithful_kept faithful_asked⟩

open LookupExample in
/-- Asked for another object identifier, or for the integer before the one that is stored, the
operations select the document all the same. -/
theorem run_of_other_identity :
    find.run (notes (.objectId 1)) "notes" (.objectId 2) =
        .ok (some (note (.objectId 1)), notes (.objectId 1)) ∧
      ¬ Value.Exactly (.objectId 1) (.objectId 2) ∧
      delete.run (notes (.int64 9007199254740993)) "notes" (.int64 9007199254740992) =
        .ok (some (note (.int64 9007199254740993)), [("notes", [])]) ∧
      ¬ Value.Exactly (.int64 9007199254740993) (.int64 9007199254740992) := by
  refine ⟨rfl, ?_, rfl, ?_⟩
  · rintro (_ | hv)
    cases hv
  · rintro (_ | ⟨hv, hw⟩)
    have hequal := Amount.ofInt_inj.mp (Option.some.inj (hv.trans hw.symm))
    exact absurd hequal (by decide)

end Lookup

end DocumentBase
