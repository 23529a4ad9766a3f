import Mathlib.Data.List.Perm.Basic
import DocumentBase.Proofs.Store.Persistence
import DocumentBase.Proofs.Store.Scripts

/-!
# What a call makes of a document

A single call adds a document, stores one over another that hands down its protected fields, or
takes the first one of an identity out.  So a document that is found before and after such a call
has the same protected fields, as long as no other document of its identity comes to light.
-/

namespace DocumentBase

/-! ### Replacements and identities -/

/-- What is stored over a document depends on its protected fields only. -/
theorem Item.stampReplacement_congr {existing other : Document}
    (h : ∀ field ∈ Item.protectedFields, existing.value? field = other.value? field)
    (replacement : Document) (now : Instant) :
    Item.stampReplacement replacement existing now =
      Item.stampReplacement replacement other now := by
  have hid := h Item.idField (by decide)
  have hcreated := h Item.createdField (by decide)
  have howner := h Item.ownerField (by decide)
  simp only [Item.stampReplacement, Item.protectedFields, List.foldl_cons, List.foldl_nil,
    Item.inherit, hid, hcreated, howner]

/-- Two identities that one document has are the same. -/
theorem same_of_hasId {id other : Value} {d : Document} (hid : hasId id d = true)
    (hother : hasId other d = true) : id.same other = true := by
  obtain ⟨i, hi, hsame⟩ := hasId_iff.mp hid
  obtain ⟨j, hj, hsame'⟩ := hasId_iff.mp hother
  cases hi.symm.trans hj
  exact Value.same_trans (Value.same_symm hsame) hsame'

theorem hasId_eq_hasId {id other : Value} {d : Document} (hid : hasId id d = true)
    (hother : hasId other d = true) : hasId id = hasId other := by
  have hid' : id.same other = true := same_of_hasId hid hother
  funext e
  rw [Bool.eq_iff_iff, hasId_iff, hasId_iff]
  refine exists_congr fun k => and_congr_right fun _ => ?_
  exact ⟨fun h => Value.same_trans h hid',
    fun h => Value.same_trans h (Value.same_symm hid')⟩

section Rows

variable {α : Type} {p : α → Bool} {rows : List α} {position : Nat}

/-- Once the only one is taken out, none is found. -/
theorem find?_eraseIdx_of_countP (hlt : position < rows.length) (hold : p rows[position] = true)
    (hone : rows.countP p ≤ 1) : (rows.eraseIdx position).find? p = none := by
  have hcount : (rows.eraseIdx position).countP p = 0 := by
    have hperm := (List.getElem_cons_eraseIdx_perm hlt).countP_eq p
    rw [List.countP_cons_of_pos hold] at hperm
    omega
  rw [List.find?_eq_none]
  exact List.countP_eq_zero.mp hcount

/-- Whatever takes the place of the first one is found in its stead. -/
theorem find?_set_of_findIdx? {d : α} (hposition : rows.findIdx? p = some position)
    (hnew : p d = true) : (rows.set position d).find? p = some d := by
  induction rows generalizing position with
  | nil => cases hposition
  | cons first rest ih =>
      rw [List.findIdx?_cons] at hposition
      cases hfirst : p first with
      | true =>
          rw [hfirst] at hposition
          cases hposition
          rw [List.set_cons_zero, List.find?_cons_of_pos hnew]
      | false =>
          rw [hfirst] at hposition
          obtain ⟨before, hbefore, rfl⟩ := Option.map_eq_some_iff.mp hposition
          rw [List.set_cons_succ, List.find?_cons_of_neg (by simp [hfirst]), ih hbefore]

end Rows

namespace Collections

/-- What a single call of a writer may make of a collection: a document is added, one is
overwritten by one with the same protected fields, or the first one with an identity is taken
out. -/
inductive Amended (name : String) (taken : Option Value) (c : Collections) : Collections → Prop
  | untouched : Amended name taken c c
  | added (d : Document) : Amended name taken c (c.store name (c.rows name ++ [d]))
  | overwritten (target : Value) {position : Nat} {existing d : Document}
      (hposition : positionOf? (c.rows name) target = some position)
      (hrow : (c.rows name)[position]? = some existing)
      (hkept : ∀ field ∈ Item.protectedFields, d.value? field = existing.value? field) :
      Amended name taken c (c.store name ((c.rows name).set position d))
  | removed {target : Value} {position : Nat} (htaken : taken = some target)
      (hposition : positionOf? (c.rows name) target = some position) :
      Amended name taken c (c.store name ((c.rows name).eraseIdx position))

variable {name : String} {taken : Option Value} {c c' : Collections} {id : Value}
  {d e : Document}

theorem amended_insert (d : Document) (taken : Option Value) :
    Amended name taken c ((HandleCall.insert d).perform name c).2 := by
  rw [HandleCall.perform_insert]
  cases h : c.insertOne name d with
  | ok c' =>
      rw [eq_store_of_insertOne h]
      exact .added d
  | error => exact .untouched

theorem amended_replace (hfound : c.findById name id = some e) (prepared : Document)
    (now : Instant) (taken : Option Value) :
    Amended name taken c
      ((HandleCall.replace id (Item.stampReplacement prepared e now)).perform name c).2 := by
  obtain ⟨position, hposition, hrow⟩ := exists_positionOf?_of_findById hfound
  rw [HandleCall.perform_replace, replaceOne, hposition]
  exact .overwritten id hposition hrow fun field => Item.value?_stampReplacement prepared e now

theorem amended_delete (id : Value) :
    Amended name (some id) c ((HandleCall.delete id).perform name c).2 := by
  rw [HandleCall.perform_delete, deleteOne]
  cases hposition : positionOf? (c.rows name) id with
  | some position => exact .removed rfl hposition
  | none => exact .untouched

/-- A document that is found before and after has kept its protected fields, unless a second
document of its identity is found after the first one was taken out. -/
theorem Amended.kept (h : Amended name taken c c')
    (hone : ∀ target, taken = some target → id.same target = true →
      (c.rows name).countP (hasId id) ≤ 1)
    (hbefore : c.findById name id = some e) (hafter : c'.findById name id = some d) :
    ∀ field ∈ Item.protectedFields, e.value? field = d.value? field := by
  intro field hfield
  cases h with
  | untouched =>
      cases hbefore.symm.trans hafter
      rfl
  | added new =>
      rw [findById_eq] at hbefore
      rw [findById_store_self, List.find?_append, hbefore, Option.some_or] at hafter
      cases hafter
      rfl
  | @overwritten target position existing new hposition hrow hkept =>
      obtain ⟨hlt, rfl⟩ := List.getElem?_eq_some_iff.mp hrow
      have hnew : ∀ other, hasId other new = hasId other (c.rows name)[position] :=
        hasId_congr (hkept _ (by decide))
      cases hid : hasId id (c.rows name)[position] with
      | false =>
          rw [findById_store_self, find?_set_of_not hid ((hnew id).trans hid), ← findById_eq,
            hbefore] at hafter
          cases hafter
          rfl
      | true =>
          have hsame := hasId_eq_hasId hid (hasId_getElem_of_positionOf? hposition hlt)
          have hfirst : (c.rows name).findIdx? (hasId id) = some position := hsame ▸ hposition
          rw [findById_eq, List.find?_eq_bind_findIdx?_getElem?, hfirst, Option.bind_some,
            hrow] at hbefore
          rw [findById_store_self, find?_set_of_findIdx? hfirst ((hnew id).trans hid)] at hafter
          cases hbefore
          cases hafter
          exact (hkept field hfield).symm
  | @removed target position htaken hposition =>
      have hlt := lt_length_of_positionOf? hposition
      have htarget := hasId_getElem_of_positionOf? hposition hlt
      cases hid : hasId id (c.rows name)[position] with
      | false =>
          rw [findById_store_self, find?_eraseIdx_of_not hid, ← findById_eq, hbefore] at hafter
          cases hafter
          rfl
      | true =>
          have hsame := same_of_hasId hid htarget
          rw [findById_store_self,
            find?_eraseIdx_of_countP hlt hid (hone target htaken hsame)] at hafter
          cases hafter

end Collections

end DocumentBase
