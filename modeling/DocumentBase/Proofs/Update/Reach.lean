import DocumentBase.Proofs.Join
import DocumentBase.Proofs.Store.Cleanliness
import DocumentBase.Proofs.Value.Reach

/-!
# What is reached beside an update

Conditions reach into arrays, by index and through each of their documents, while a write descends
through documents only and puts a new document in the place of anything else that it meets.  A write
is not noticed at a path that is apart from its own, unless the two part inside an array: then this
array is gone, and nothing is reached any more.
-/

namespace DocumentBase

open DocumentBase.Path

namespace Document

variable {p q : Path} {k : String}

/-! ### One write -/

/-- A write takes away what is reached through the array in which the paths part, and nothing
else. -/
theorem reach_set_of_apart (v : Value) (h : Apart p q) (d : Document) :
    reach q (set v p d) = if PartInArray p q d then [] else reach q d := by
  induction p generalizing q d with
  | nil => exact absurd List.nil_prefix h.1
  | cons k p ih =>
      cases q with
      | nil => exact absurd h (not_apart_nil _)
      | cons l q =>
          by_cases hkl : k = l
          · subst hkl
            have hrest : Apart p q := by simpa using apart_cons_iff.mp h
            have hp : p ≠ [] := by
              rintro rfl
              exact not_apart_nil q hrest.symm
            have hq : q ≠ [] := by
              rintro rfl
              exact not_apart_nil p hrest
            have hwritten : reach (k :: q) (set v (k :: p) d) = reach q (set v p (d.child k)) := by
              rw [set_cons hp, reach_cons, value?_put_self]
              rfl
            rw [hwritten, ih hrest]
            by_cases harray : ∃ items, d.value? k = some (.array items)
            · -- the array is replaced by a document with nothing but the written path in it
              have hchild : d.child k = [] := by
                obtain ⟨items, hitems⟩ := harray
                rw [child, hitems]
              rw [if_pos (partInArray_cons_iff.mpr (.inl harray)), hchild,
                if_neg not_partInArray_of_nil, reach_of_nil hq]
            · simp only [partInArray_cons_iff, harray, false_or, reach_cons_child hq harray]
          · have hvalue : (set v (k :: p) d).value? l = d.value? l := by
              by_cases hp : p = []
              · subst hp
                exact value?_put_ne d v hkl
              · rw [set_cons hp]
                exact value?_put_ne d _ hkl
            rw [if_neg (not_partInArray_of_ne hkl d), reach_cons, reach_cons, hvalue]

/-- After a write that does not part from a path inside an array, other writes part from it inside
the same arrays as before. -/
theorem partInArray_set_iff {p' : Path} (v : Value) (h : Apart p q) {d : Document}
    (hparts : ¬ PartInArray p q d) : PartInArray p' q (set v p d) ↔ PartInArray p' q d := by
  have hsame : ∀ shared, shared <+: q → shared ≠ [] → ¬ shared <+: p →
      get? shared (set v p d) = get? shared d := fun shared hq _ hp =>
    get?_set_of_apart v ⟨fun hle => h.1 (hle.trans hq), hp⟩ d
  simp only [partInArray_iff]
  constructor
  · rintro ⟨shared, items, hp', hq, hget⟩
    refine ⟨shared, items, hp', hq, ?_⟩
    by_cases hp : shared <+: p
    · -- the write has left documents all along its path
      obtain ⟨t, rfl⟩ := hp
      have hshared : shared ≠ [] := by
        rintro rfl
        cases hget
      have ht : t ≠ [] := by
        rintro rfl
        exact h.1 (by simpa using hq)
      have hread := get?_set_self v (p := shared ++ t) (by simp [hshared]) d
      rw [get?_append hshared ht, hget] at hread
      simp [Value.fields?] at hread
    · rw [← hget, hsame shared hq (by rintro rfl; exact hp List.nil_prefix) hp]
  · rintro ⟨shared, items, hp', hq, hget⟩
    have hp : ¬ shared <+: p := fun hp =>
      hparts (partInArray_iff.mpr ⟨shared, items, hp, hq, hget⟩)
    refine ⟨shared, items, hp', hq, ?_⟩
    rw [hsame shared hq (by rintro rfl; exact hp List.nil_prefix) hp, hget]

/-! ### Several writes -/

/-- Writes that part from a path are noticed there only if an array lay on the way of both. -/
theorem reachAt_setAll {path : String} {writes : Document}
    (h : ∀ field ∈ keys writes, ApartPaths field path) (d : Document) :
    (d.setAll writes).reachAt path =
      if ∃ field ∈ keys writes, PartInArray (ofString field) (ofString path) d then []
      else d.reachAt path := by
  induction writes generalizing d with
  | nil => simp [setAll, keys]
  | cons write rest ih =>
      obtain ⟨hwrite, hrest⟩ := List.forall_mem_cons.mp h
      have hfirst : (d.setAt write.1 write.2).reachAt path =
          if PartInArray (ofString write.1) (ofString path) d then [] else d.reachAt path :=
        reach_set_of_apart write.2 hwrite d
      have hstep : (d.setAll (write :: rest)).reachAt path = _ :=
        ih hrest (d.setAt write.1 write.2)
      have hkeys : (∃ field ∈ keys (write :: rest),
          PartInArray (ofString field) (ofString path) d) ↔
          PartInArray (ofString write.1) (ofString path) d ∨
            ∃ field ∈ keys rest, PartInArray (ofString field) (ofString path) d := by
        simp [keys]
      rw [hstep, hfirst]
      by_cases hparts : PartInArray (ofString write.1) (ofString path) d
      · rw [if_pos hparts, ite_self, if_pos (hkeys.mpr (.inl hparts))]
      · have hothers : (∃ field ∈ keys rest, PartInArray (ofString field) (ofString path)
            (d.setAt write.1 write.2)) ↔ ∃ field ∈ keys (write :: rest),
              PartInArray (ofString field) (ofString path) d := by
          rw [hkeys, or_iff_right hparts]
          exact exists_congr fun field => and_congr_right fun _ =>
            partInArray_set_iff write.2 hwrite hparts
        rw [if_neg hparts]
        simp only [hothers]

end Document

namespace Update

open Document

variable {u : Update} {d after : Document} {path : String}

/-- Values are taken from an array that is found through documents alone. -/
theorem not_partInArray_of_at? {field : String} {v : Value} (hv : d.at? field = some v)
    (h : ApartPaths field path) : ¬ PartInArray (ofString field) (ofString path) d := by
  rw [partInArray_iff]
  rintro ⟨shared, items, ⟨t, ht⟩, hshared, hget⟩
  have hne : shared ≠ [] := by
    rintro rfl
    cases hget
  have htail : t ≠ [] := by
    rintro rfl
    exact h.1 (by rw [← ht, List.append_nil]; exact hshared)
  rw [at?, ← ht, get?_append hne htail, hget] at hv
  simp [Value.fields?] at hv

theorem reachAt_change (h : u.change d = .ok after)
    (hapart : ∀ field ∈ u.named, ApartPaths field path) :
    after.reachAt path =
      if ∃ field ∈ u.opened, PartInArray (ofString field) (ofString path) d then []
      else d.reachAt path := by
  have hwrites : (∀ field values, u ≠ .pull field values) →
      ∃ writes, after = d.setAll writes ∧ keys writes = u.named ∧ u.opened = u.named := by
    intro hpull
    obtain ⟨writes, hafter, hkeys | ⟨-, field, values, hu⟩⟩ := exists_writes_of_change h
    · refine ⟨writes, hafter, hkeys, ?_⟩
      cases u with
      | pull field values => exact absurd rfl (hpull field values)
      | _ => rfl
    · exact absurd hu (hpull field values)
  cases u with
  | pull field values =>
      have hfield := hapart field (List.mem_singleton.mpr rfl)
      simp only [opened, List.not_mem_nil, false_and, exists_false, if_false]
      simp only [change] at h
      split at h
      next items hitems =>
        cases h
        exact (reach_set_of_apart _ hfield d).trans
          (if_neg (not_partInArray_of_at? hitems hfield))
      next =>
        cases h
        rfl
      next => cases h
  | _ =>
      obtain ⟨writes, rfl, hkeys, hopened⟩ := hwrites (by simp)
      rw [hopened, ← hkeys]
      exact reachAt_setAll (hkeys ▸ hapart) d

/-- What conditions reach beside an update. -/
theorem reachAt_apply {now : Instant} (h : u.apply now d = .ok after)
    (hapart : ∀ field ∈ u.named, ApartPaths field path)
    (hdate : headOf path ≠ Item.updatedField) :
    after.reachAt path =
      if ∃ field ∈ u.opened, PartInArray (ofString field) (ofString path) d then []
      else d.reachAt path := by
  obtain ⟨changed, hchanged, hafter⟩ := Outcome.bind_eq_ok.mp h
  cases Outcome.pure_eq_ok.mp hafter
  rw [← reachAt_change hchanged hapart, reachAt, reachAt, ofString_eq_cons, reach_cons, reach_cons,
    value?_put_ne _ _ hdate.symm]

namespace ReachExample

def machine : Document :=
  [("_id", .string "x"), ("size", .document [("width", .int32 3), ("holes", .array [.int32 4])]),
    ("parts", .array [.document [("n", .int32 1)], .document [("n", .int32 2)]])]

def editing : Update :=
  .set [("size.width", .int32 5), ("parts.0.n", .int32 7)]

def edited : Document :=
  [("_id", .string "x"), ("size", .document [("width", .int32 5), ("holes", .array [.int32 4])]),
    ("parts", .document [("0", .document [("n", .int32 7)])]), ("_updatedDate", .date 9)]

def seen (u : Update) (path : String) : Outcome (List Value × List Value) := do
  u.validate
  let after ← u.apply 9 machine
  return (machine.reachAt path, after.reachAt path)

end ReachExample

open ReachExample in
theorem reachAt_apply_beside_parts :
    editing.apply 9 machine = .ok edited ∧
      edited.reachAt "size.holes.0" = machine.reachAt "size.holes.0" ∧
      edited.reachAt "parts.1.n" = [] := by
  have hupdate : editing.apply 9 machine = .ok edited := by rfl
  refine ⟨hupdate, ?_, ?_⟩
  · rw [reachAt_apply hupdate (by decide +kernel) (by decide +kernel)]
    exact if_neg (by decide +kernel)
  · rw [reachAt_apply hupdate (by decide +kernel) (by decide +kernel)]
    exact if_pos (by decide +kernel)

open ReachExample in
/-- An update that enters an array takes it away, with all that was reached inside. -/
theorem reach_lost_beside_update :
    (ApartPaths "parts.0.n" "parts.1.n" ∧
      seen (.set [("parts.0.n", .int32 7)]) "parts.1.n" = .ok ([.int32 2], [])) ∧
    (ApartPaths "parts.names" "parts.n" ∧
      seen (.push "parts.names" [.string "a"]) "parts.n" = .ok ([.int32 1, .int32 2], [])) ∧
    ApartPaths "parts.total" "parts.n" ∧
      seen (.increment "parts.total" (.int32 1)) "parts.n" = .ok ([.int32 1, .int32 2], []) ∧
      seen (.multiply "parts.total" (.int32 2)) "parts.n" = .ok ([.int32 1, .int32 2], []) :=
  ⟨⟨by decide +kernel, rfl⟩, ⟨by decide +kernel, rfl⟩, by decide +kernel, rfl, rfl⟩

end Update

end DocumentBase
