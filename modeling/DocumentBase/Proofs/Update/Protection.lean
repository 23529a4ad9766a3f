import DocumentBase.Proofs.Outcome
import DocumentBase.Proofs.Store.Atomicity
import DocumentBase.Proofs.Value.Path

/-!
# What updates leave alone

An update writes at the paths that it names, and then sets the time of the change.  Its check
compares the named paths with the protected fields as whole texts, so an accepted update never
puts a value of its own in the place of a protected field.  But it may name a path that goes on
below one: such an update makes the protected field a document.
-/

namespace DocumentBase

open DocumentBase.Path (headOf)

/-! ### Writes below a key -/

namespace Document

variable {d writes : Document} {key path : String}

/-- The document after writes at several dotted paths. -/
def setAll (d writes : Document) : Document :=
  writes.foldl (fun d (path, v) => d.setAt path v) d

/-- There is a document under a key. -/
def Nests (d : Document) (key : String) : Prop :=
  ∃ fields, d.value? key = some (.document fields)

theorem value?_setAt_of_headOf_ne (h : headOf path ≠ key) (d : Document) (v : Value) :
    (d.setAt path v).value? key = d.value? key := by
  rw [setAt, Path.ofString_eq_cons]
  by_cases hrest : (Path.ofString path).tail = []
  · rw [hrest]
    exact value?_put_ne d v h
  · rw [set_cons hrest]
    exact value?_put_ne d _ h

/-- Setting a path below a field makes a document of the field. -/
theorem nests_setAt (h : headOf path ≠ path) (d : Document) (v : Value) :
    (d.setAt path v).Nests (headOf path) := by
  rw [setAt, Path.ofString_eq_cons, set_cons (Path.tail_ofString_ne_nil h)]
  exact ⟨_, value?_put_self d _ _⟩

/-- Only a write to the key itself takes the document under it away. -/
theorem Nests.setAt (hd : d.Nests key) (h : path ≠ key) (v : Value) :
    (d.setAt path v).Nests key := by
  by_cases hhead : headOf path = key
  · subst hhead
    exact nests_setAt h.symm d v
  · obtain ⟨fields, hfields⟩ := hd
    exact ⟨fields, (value?_setAt_of_headOf_ne hhead d v).trans hfields⟩

theorem value?_setAll_of_headOf_ne (h : ∀ path ∈ keys writes, headOf path ≠ key) :
    (d.setAll writes).value? key = d.value? key := by
  induction writes generalizing d with
  | nil => rfl
  | cons write rest ih =>
      obtain ⟨hwrite, hrest⟩ := List.forall_mem_cons.mp h
      exact (ih hrest).trans (value?_setAt_of_headOf_ne hwrite d _)

theorem Nests.setAll (hd : d.Nests key) (h : ∀ path ∈ keys writes, path ≠ key) :
    (d.setAll writes).Nests key := by
  induction writes generalizing d with
  | nil => exact hd
  | cons write rest ih =>
      obtain ⟨hwrite, hrest⟩ := List.forall_mem_cons.mp h
      exact ih (hd.setAt hwrite _) hrest

theorem nests_setAll (h : ∀ path ∈ keys writes, path ≠ key)
    (hkey : ∃ path ∈ keys writes, headOf path = key) : (d.setAll writes).Nests key := by
  induction writes generalizing d with
  | nil => simp [keys] at hkey
  | cons write rest ih =>
      obtain ⟨hwrite, hrest⟩ := List.forall_mem_cons.mp h
      by_cases hhead : headOf write.1 = key
      · subst hhead
        exact (nests_setAt hwrite.symm d write.2).setAll hrest
      · obtain ⟨path, hpath, rfl⟩ := hkey
        rcases List.mem_cons.mp hpath with rfl | hpath
        · exact absurd rfl hhead
        · exact ih hrest ⟨path, hpath, rfl⟩

end Document

namespace Update

open Document

variable {u : Update} {d after : Document} {key : String}

/-- One of the paths that an update names begins with a key. -/
def Enters (u : Update) (key : String) : Prop :=
  ∃ field ∈ u.named, headOf field = key

instance : Decidable (u.Enters key) :=
  inferInstanceAs (Decidable (∃ field ∈ u.named, _))

/-- An update writes once at each path that it names, except that there may be no array to
take values from. -/
theorem exists_writes_of_change (h : u.change d = .ok after) :
    ∃ writes, after = d.setAll writes ∧
      (keys writes = u.named ∨ writes = [] ∧ ∃ field values, u = .pull field values) := by
  cases u with
  | set fields =>
      cases h
      exact ⟨fields, rfl, .inl rfl⟩
  | push field values =>
      obtain ⟨items, -, hafter⟩ := Outcome.bind_eq_ok.mp h
      cases Outcome.pure_eq_ok.mp hafter
      exact ⟨[(field, items)], rfl, .inl rfl⟩
  | pull field values =>
      simp only [change] at h
      split at h
      next items hitems =>
        cases h
        exact ⟨[(field, _)], rfl, .inl rfl⟩
      next hnone =>
        cases h
        exact ⟨[], rfl, .inr ⟨rfl, field, values, rfl⟩⟩
      next => cases h
  | increment field operand =>
      simp only [change] at h
      split at h
      next hnone =>
        cases h
        exact ⟨[(field, operand)], rfl, .inl rfl⟩
      next current hcurrent =>
        obtain ⟨sum, -, hafter⟩ := Outcome.bind_eq_ok.mp h
        cases Outcome.pure_eq_ok.mp hafter
        exact ⟨[(field, sum)], rfl, .inl rfl⟩
  | multiply field operand =>
      obtain ⟨product, -, hafter⟩ := Outcome.bind_eq_ok.mp h
      cases Outcome.pure_eq_ok.mp hafter
      exact ⟨[(field, product)], rfl, .inl rfl⟩

/-- A field whose path an update does not enter is not changed. -/
theorem value?_change_of_not_enters (h : u.change d = .ok after) (hkey : ¬ u.Enters key) :
    after.value? key = d.value? key := by
  obtain ⟨writes, rfl, hwrites⟩ := exists_writes_of_change h
  rcases hwrites with hnamed | ⟨rfl, -⟩
  · apply value?_setAll_of_headOf_ne
    intro path hpath hhead
    exact hkey ⟨path, hnamed ▸ hpath, hhead⟩
  · rfl

/-- A field that is entered, but not named as a whole, becomes a document. -/
theorem nests_change_of_enters (h : u.change d = .ok after) (hnamed : key ∉ u.named)
    (hkey : u.Enters key) :
    after.Nests key ∨
      (∃ field values, u = .pull field values) ∧ after.value? key = d.value? key := by
  obtain ⟨writes, rfl, hwrites⟩ := exists_writes_of_change h
  rcases hwrites with hkeys | ⟨rfl, hpull⟩
  · left
    rw [Enters, ← hkeys] at hkey
    exact nests_setAll (fun path hpath heq => hnamed (hkeys ▸ heq ▸ hpath)) hkey
  · exact .inr ⟨hpull, rfl⟩

/-! ### The check -/

theorem not_mem_protectedFields_of_checkMutable {field : String}
    (h : checkMutable field = .ok ()) :
    field ∉ Item.protectedFields ∧ field ≠ Item.updatedField := by
  obtain ⟨-, -, h⟩ := Outcome.bind_eq_ok.mp h
  obtain ⟨hfield, -⟩ := Outcome.check_eq_ok.mp h
  simpa using hfield

theorem not_mem_named_of_validate (h : u.validate = .ok ()) (hkey : key ∈ Item.protectedFields) :
    key ∉ u.named := by
  obtain ⟨-, -, hnamed⟩ := Outcome.bind_eq_ok.mp h
  intro hmem
  have hcheck : checkMutable key = .ok () := Outcome.forM_eq_ok.mp hnamed key hmem
  exact (not_mem_protectedFields_of_checkMutable hcheck).1 hkey

end Update

/-! ### The stored document -/

/-- An update that finds its document puts the changed one in its place, with the time set. -/
theorem Collections.exists_change_of_updateOne {c c' : Collections} {name : String} {id : Value}
    {u : Update} {now : Instant} {after : Document}
    (h : c.updateOne name id u now = .ok (some after, c')) :
    ∃ position before changed,
      positionOf? (c.rows name) id = some position ∧
      (c.rows name)[position]? = some before ∧
      u.change before = .ok changed ∧ after = changed.put Item.updatedField (.date now) ∧
      c' = c.store name ((c.rows name).set position after) := by
  obtain ⟨before, hfound, happlied, hreplaced⟩ := exists_applied_of_updateOne h
  obtain ⟨position, hposition, hrow⟩ := exists_positionOf?_of_findById hfound
  obtain ⟨changed, hchanged, happlied⟩ := Outcome.bind_eq_ok.mp happlied
  cases Outcome.pure_eq_ok.mp happlied
  rw [replaceOne, hposition] at hreplaced
  exact ⟨position, before, changed, hposition, hrow, hchanged, rfl, (Prod.mk.inj hreplaced).2.symm⟩

/-- What an accepted update puts in the place of the document that it is applied to.  The time
of the change is set.  A protected field is as it was unless the update enters it, and then it
is a document, whatever it was before; only an update that finds no array to take values from
leaves it alone even so. -/
theorem Collections.value?_of_updateOne {c c' : Collections} {name : String} {id : Value}
    {u : Update} {now : Instant} {after : Document} (hu : u.validate = .ok ())
    (h : c.updateOne name id u now = .ok (some after, c')) :
    ∃ position before,
      positionOf? (c.rows name) id = some position ∧
      (c.rows name)[position]? = some before ∧
      c' = c.store name ((c.rows name).set position after) ∧
      after.value? Item.updatedField = some (.date now) ∧
      ∀ key ∈ Item.protectedFields,
        (¬ u.Enters key → after.value? key = before.value? key) ∧
        (u.Enters key → after.Nests key ∨
          (∃ field values, u = .pull field values) ∧ after.value? key = before.value? key) := by
  obtain ⟨position, before, changed, hposition, hbefore, hchanged, hafter, hstored⟩ :=
    exists_change_of_updateOne h
  refine ⟨position, before, hposition, hbefore, hstored, ?_, ?_⟩
  · rw [hafter]
    exact Document.value?_put_self _ _ _
  · intro key hkey
    have hne : Item.updatedField ≠ key := by
      rintro rfl
      exact absurd hkey (by decide)
    have hvalue : after.value? key = changed.value? key := by
      rw [hafter]
      exact Document.value?_put_ne _ _ hne
    rw [Document.Nests, hvalue]
    constructor
    · exact Update.value?_change_of_not_enters hchanged
    · exact Update.nests_change_of_enters hchanged (Update.not_mem_named_of_validate hu hkey)

namespace ProtectionExample

def identity : Value :=
  .document [("tags", .array [.int32 1, .int32 2])]

def note : Document :=
  [("_id", identity), ("_createdDate", .date 5), ("_owner", .string "ann"), ("text", .string "a")]

def notes : Collections :=
  [("notes", [note])]

def editing : Update :=
  .set [("text", .string "b"), ("_owner.name", .string "eve")]

def edited : Document :=
  [("_id", identity), ("_createdDate", .date 5), ("_owner", .document [("name", .string "eve")]),
    ("text", .string "b"), ("_updatedDate", .date 7)]

def seen (u : Update) (key : String) : Outcome (Option Value × Option Value) := do
  u.validate
  let (after, _) ← notes.updateOne "notes" identity u 7
  return (note.value? key, after.bind fun d => d.value? key)

end ProtectionExample

open ProtectionExample in
theorem Collections.value?_of_updateOne_below_owner :
    editing.validate = .ok () ∧
    notes.updateOne "notes" identity editing 7 = .ok (some edited, [("notes", [edited])]) ∧
    ∃ position before, positionOf? [note] identity = some position ∧
      [note][position]? = some before ∧ edited.value? "_updatedDate" = some (.date 7) ∧
      edited.value? "_id" = before.value? "_id" ∧
      edited.value? "_createdDate" = before.value? "_createdDate" ∧ edited.Nests "_owner" := by
  have hupdate : notes.updateOne "notes" identity editing 7 =
      .ok (some edited, [("notes", [edited])]) := rfl
  obtain ⟨position, before, hposition, hbefore, -, htime, hkeys⟩ :=
    value?_of_updateOne (u := editing) rfl hupdate
  refine ⟨rfl, hupdate, position, before, hposition, hbefore, htime, ?_, ?_, ?_⟩
  · exact (hkeys "_id" (by decide)).1 (by decide +kernel)
  · exact (hkeys "_createdDate" (by decide)).1 (by decide +kernel)
  · rcases (hkeys "_owner" (by decide)).2 (by decide +kernel) with hnests | ⟨⟨_, _, h⟩, -⟩
    · exact hnests
    · cases h

open ProtectionExample in
/-- An update of each kind may write below a protected field. -/
theorem Collections.protectedField_changed_of_updateOne :
    seen (.set [("_owner.name", .string "eve")]) "_owner" =
      .ok (some (.string "ann"), some (.document [("name", .string "eve")])) ∧
    seen (.push "_createdDate.times" [.date 6]) "_createdDate" =
      .ok (some (.date 5), some (.document [("times", .array [.date 6])])) ∧
    seen (.pull "_id.tags" [.int32 1]) "_id" =
      .ok (some identity, some (.document [("tags", .array [.int32 2])])) ∧
    seen (.increment "_createdDate.year" (.int32 1)) "_createdDate" =
      .ok (some (.date 5), some (.document [("year", .int32 1)])) ∧
    seen (.multiply "_owner.weight" (.int32 2)) "_owner" =
      .ok (some (.string "ann"), some (.document [("weight", .int32 0)])) :=
  ⟨rfl, rfl, rfl, rfl, rfl⟩

end DocumentBase
