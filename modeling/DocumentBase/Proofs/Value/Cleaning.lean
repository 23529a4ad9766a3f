import Mathlib.Data.List.Nodup
import DocumentBase.Proofs.Value.Sameness
import DocumentBase.Proofs.Value.Storable

/-!
# What cleaning finds wrong

Cleaning accepts what can be stored and nothing else, and gives it back as it was.  Otherwise it
names a defect, and the defect is there.  It makes no difference whether the fields of a document
are kept as they are cleaned or are put one by one into an empty document, as long as no key
stands twice.
-/

namespace DocumentBase

/-! ### Defects -/

/-- What a defect says of a value itself. -/
def Defect.Concerns : Defect → Value → Prop
  | .forbiddenKey key, v => key ∈ v.keys ∧ ¬ PlainKey key
  | .codeValue, v => v.isCode = true
  | _, _ => False

/-- A value has a defect, at some depth. -/
def Defect.IsIn (defect : Defect) (v : Value) : Prop :=
  ∃ w, Value.Within w v ∧ defect.Concerns w

theorem Defect.Concerns.isIn {defect : Defect} {v : Value} (h : defect.Concerns v) :
    defect.IsIn v :=
  ⟨v, .self v, h⟩

theorem Defect.IsIn.of_part {defect : Defect} {u v : Value} (h : defect.IsIn u)
    (hpart : u ∈ v.parts) : defect.IsIn v := by
  obtain ⟨w, hw, hconcerns⟩ := h
  exact ⟨w, .part hpart hw, hconcerns⟩

/-- A defect among some fields of a document is a defect of the document. -/
theorem Defect.IsIn.of_rest {defect : Defect} {rest : Document} (h : defect.IsIn (.document rest))
    (field : String × Value) : defect.IsIn (.document (field :: rest)) := by
  obtain ⟨w, hw, hconcerns⟩ := h
  cases hw with
  | part hpart hin =>
      exact Defect.IsIn.of_part ⟨w, hin, hconcerns⟩ (List.mem_cons_of_mem _ hpart)
  | self =>
      cases defect with
      | forbiddenKey key =>
          exact Defect.Concerns.isIn ⟨List.mem_cons_of_mem _ hconcerns.1, hconcerns.2⟩
      | codeValue => cases hconcerns
      | _ => exact hconcerns.elim

namespace Value

theorem checkKey_eq_error {key : String} {e : Error} :
    checkKey key = .error e ↔ ¬ PlainKey key ∧ e = .invalidDocument (.forbiddenKey key) := by
  rw [← isKey_iff, checkKey]
  cases isKey key <;> simp [eq_comm]

mutual

/-- An error of cleaning names a defect of the value. -/
theorem exists_defect_of_clean : ∀ {v : Value} {e : Error}, clean v = .error e →
    ∃ defect, e = .invalidDocument defect ∧ defect.IsIn v
  | .array items, e, h => by
      rw [clean, Outcome.bind_eq_error] at h
      rcases h with hitems | ⟨cleaned, -, hpure⟩
      · obtain ⟨defect, rfl, v, hv, hin⟩ := exists_defect_of_cleanItems hitems
        exact ⟨defect, rfl, hin.of_part hv⟩
      · cases hpure
  | .document fields, e, h => by
      rw [clean, Outcome.bind_eq_error] at h
      rcases h with hfields | ⟨cleaned, -, hpure⟩
      · exact exists_defect_of_cleanFields hfields
      · cases hpure
  | .code source, e, h => by
      cases h
      exact ⟨.codeValue, rfl, Defect.Concerns.isIn rfl⟩
  | .scopedCode source scope, e, h => by
      cases h
      exact ⟨.codeValue, rfl, Defect.Concerns.isIn rfl⟩
  | .null, e, h | .undefined, e, h | .minKey, e, h | .maxKey, e, h | .bool _, e, h
  | .int32 _, e, h | .int64 _, e, h | .double _, e, h | .decimal _, e, h | .string _, e, h
  | .date _, e, h | .objectId _, e, h | .timestamp _ _, e, h | .symbol _, e, h | .regex _ _, e, h
  | .binary _ _, e, h | .pointer _ _, e, h => by
      cases h

theorem exists_defect_of_cleanItems : ∀ {vs : List Value} {e : Error}, cleanItems vs = .error e →
    ∃ defect, e = .invalidDocument defect ∧ ∃ v ∈ vs, defect.IsIn v
  | [], e, h => by
      cases h
  | v :: vs, e, h => by
      rw [cleanItems, Outcome.bind_eq_error] at h
      rcases h with hv | ⟨v', -, h⟩
      · obtain ⟨defect, rfl, hin⟩ := exists_defect_of_clean hv
        exact ⟨defect, rfl, v, List.mem_cons_self, hin⟩
      · rcases Outcome.bind_eq_error.mp h with hvs | ⟨vs', -, hpure⟩
        · obtain ⟨defect, rfl, w, hw, hin⟩ := exists_defect_of_cleanItems hvs
          exact ⟨defect, rfl, w, List.mem_cons_of_mem v hw, hin⟩
        · cases hpure

theorem exists_defect_of_cleanFields : ∀ {fs : List (String × Value)} {e : Error},
    cleanFields fs = .error e → ∃ defect, e = .invalidDocument defect ∧ defect.IsIn (.document fs)
  | [], e, h => by
      cases h
  | (key, v) :: fs, e, h => by
      -- the key is looked at first, then the value, and then the fields that follow
      have hhead : v ∈ (Value.document ((key, v) :: fs)).parts := List.mem_cons_self
      rw [cleanFields, Outcome.bind_eq_error] at h
      rcases h with hkey | ⟨_, -, h⟩
      · obtain ⟨hplain, rfl⟩ := checkKey_eq_error.mp hkey
        have hdefect : (Defect.forbiddenKey key).Concerns (.document ((key, v) :: fs)) :=
          ⟨List.mem_cons_self, hplain⟩
        exact ⟨.forbiddenKey key, rfl, hdefect.isIn⟩
      rcases Outcome.bind_eq_error.mp h with hv | ⟨v', -, h⟩
      · obtain ⟨defect, rfl, hin⟩ := exists_defect_of_clean hv
        exact ⟨defect, rfl, hin.of_part hhead⟩
      rcases Outcome.bind_eq_error.mp h with hfs | ⟨fs', -, hpure⟩
      · obtain ⟨defect, rfl, hin⟩ := exists_defect_of_cleanFields hfs
        exact ⟨defect, rfl, hin.of_rest (key, v)⟩
      · cases hpure

end

/-! ### Cleaning as a rebuild -/

/-- No key stands twice in a document, at any depth. -/
def DistinctKeys (v : Value) : Prop :=
  ∀ w, Within w v → w.keys.Nodup

theorem distinctKeys_iff (v : Value) :
    v.DistinctKeys ↔ v.keys.Nodup ∧ ∀ w ∈ v.parts, w.DistinctKeys :=
  forall_within_iff v

theorem distinctKeys_of_parts_nil {v : Value} (hparts : v.parts = []) (hkeys : v.keys = []) :
    v.DistinctKeys := by
  rw [distinctKeys_iff, hparts, hkeys]
  exact ⟨List.nodup_nil, nofun⟩

theorem distinctKeys_array_iff {items : List Value} :
    (Value.array items).DistinctKeys ↔ ∀ v ∈ items, v.DistinctKeys := by
  rw [distinctKeys_iff]
  exact and_iff_right List.nodup_nil

theorem distinctKeys_document_iff {d : Document} :
    (Value.document d).DistinctKeys ↔ d.keys.Nodup ∧ ∀ field ∈ d, field.2.DistinctKeys := by
  rw [distinctKeys_iff, parts, List.forall_mem_map]
  rfl

mutual

/-- Cleans a value and puts it together anew: cleaned fields are put one by one into an empty
document. -/
def rebuild : Value → Outcome Value
  | .code _ => .error (.invalidDocument .codeValue)
  | .scopedCode _ _ => .error (.invalidDocument .codeValue)
  | .array items => do
    let items ← rebuildItems items
    return .array items
  | .document fields => do
    let fields ← rebuildFields fields []
    return .document fields
  | v => return v
termination_by structural v => v

def rebuildItems : List Value → Outcome (List Value)
  | [] => return []
  | v :: rest => do
    let v ← rebuild v
    let rest ← rebuildItems rest
    return v :: rest
termination_by structural items => items

def rebuildFields : List (String × Value) → Document → Outcome Document
  | [], rebuilt => return rebuilt
  | (key, v) :: rest, rebuilt => do
    checkKey key
    let v ← rebuild v
    rebuildFields rest (rebuilt.put key v)
termination_by structural fields => fields

end

mutual

/-- Putting fields into an empty document keeps them in their order, if no key comes twice. -/
theorem rebuild_eq_clean : ∀ {v : Value}, v.DistinctKeys → rebuild v = clean v
  | .array items, h => by
      rw [rebuild, clean, rebuildItems_eq_cleanItems (distinctKeys_array_iff.mp h)]
  | .document fields, h => by
      obtain ⟨hkeys, hfields⟩ := distinctKeys_document_iff.mp h
      rw [rebuild, clean, rebuildFields_eq_cleanFields [] hkeys hfields]
      cases cleanFields fields <;> rfl
  | .code _, _ | .scopedCode _ _, _ | .null, _ | .undefined, _ | .minKey, _ | .maxKey, _
  | .bool _, _ | .int32 _, _ | .int64 _, _ | .double _, _ | .decimal _, _ | .string _, _
  | .date _, _ | .objectId _, _ | .timestamp _ _, _ | .symbol _, _ | .regex _ _, _
  | .binary _ _, _ | .pointer _ _, _ => by
      rw [rebuild, clean] <;> nofun

theorem rebuildItems_eq_cleanItems : ∀ {vs : List Value}, (∀ v ∈ vs, v.DistinctKeys) →
    rebuildItems vs = cleanItems vs
  | [], _ => by
      rw [rebuildItems, cleanItems]
  | v :: vs, h => by
      obtain ⟨hv, hvs⟩ := List.forall_mem_cons.mp h
      rw [rebuildItems, cleanItems, rebuild_eq_clean hv, rebuildItems_eq_cleanItems hvs]

/-- The fields that are already there are left alone, and the others come behind them. -/
theorem rebuildFields_eq_cleanFields : ∀ {fs : List (String × Value)} (rebuilt : Document),
    (Document.keys (rebuilt ++ fs)).Nodup → (∀ field ∈ fs, field.2.DistinctKeys) →
    rebuildFields fs rebuilt = (cleanFields fs).map (rebuilt ++ ·)
  | [], rebuilt, _, _ => by
      rw [rebuildFields, cleanFields]
      simp [pure, Except.pure, Except.map]
  | (key, v) :: fs, rebuilt, hkeys, h => by
      obtain ⟨hv, hfs⟩ := List.forall_mem_cons.mp h
      have habsent : Document.value? rebuilt key = none := by
        rw [Document.keys, List.map_append, List.map_cons, List.nodup_middle] at hkeys
        refine Option.eq_none_iff_forall_ne_some.mpr fun w hw => (List.nodup_cons.mp hkeys).1 ?_
        have hmem : key ∈ Document.keys rebuilt := Value.mem_keys_of_value? hw
        exact List.mem_append_left _ hmem
      have hrest (w : Value) : rebuildFields fs (rebuilt.put key w) =
          (cleanFields fs).map (rebuilt ++ [(key, w)] ++ ·) := by
        rw [Document.put_of_absent habsent]
        refine rebuildFields_eq_cleanFields _ ?_ hfs
        simpa [Document.keys] using hkeys
      rw [rebuildFields, cleanFields, rebuild_eq_clean hv]
      simp only [hrest, List.append_assoc, List.singleton_append]
      cases checkKey key with
      | error e => rfl
      | ok _ =>
          cases clean v with
          | error e => rfl
          | ok w => cases cleanFields fs <;> rfl

end

end Value

/-! ### Items to be stored -/

/-- Cleaning succeeds if no key at any depth is empty, starts with a dollar sign or has a NUL, and
no value at any depth is code; then it gives the document back as it is, the order of its keys
included.  Otherwise it refuses the document and names a defect that is there.  Putting the
cleaned fields one by one into an empty document comes to the same if no key stands twice. -/
theorem Document.clean_accepts_exactly (d : Document) :
    (∀ e, d.clean = .ok e ↔ (Value.document d).Storable ∧ e = d) ∧
    (¬ (Value.document d).Storable →
      ∃ defect, d.clean = .error (.invalidDocument defect) ∧ defect.IsIn (.document d)) ∧
    ((Value.document d).DistinctKeys → Value.rebuildFields d [] = d.clean) := by
  refine ⟨fun e => ?_, fun h => ?_, fun h => ?_⟩
  · rw [Value.storable_document_iff]
    exact Document.clean_eq_ok
  · cases hclean : d.clean with
    | ok e => exact absurd (Value.storable_document_iff.mpr (Document.clean_eq_ok.mp hclean).1) h
    | error e =>
        obtain ⟨defect, rfl, hin⟩ := Value.exists_defect_of_cleanFields hclean
        exact ⟨defect, rfl, hin⟩
  · obtain ⟨hkeys, hfields⟩ := Value.distinctKeys_document_iff.mp h
    rw [Document.clean, Value.rebuildFields_eq_cleanFields [] hkeys hfields]
    cases Value.cleanFields d <;> rfl

namespace CleaningExample

def letter : Document :=
  [("to", .string "ann"), ("parts", .array [.document [("n", .int32 1), ("$where", .int32 2)]])]

end CleaningExample

open CleaningExample in
/-- A key that is refused, in a document in an array. -/
theorem Document.clean_accepts_exactly_of_operator_inside :
    ¬ (Value.document letter).Storable ∧ (Value.document letter).DistinctKeys ∧
    Value.rebuildFields letter [] = letter.clean ∧
    ∃ defect, letter.clean = .error (.invalidDocument defect) ∧ defect.IsIn (.document letter) := by
  obtain ⟨-, hrefused, hrebuilt⟩ := Document.clean_accepts_exactly letter
  have hstorable : ¬ (Value.document letter).Storable := by decide +kernel
  have hdistinct : (Value.document letter).DistinctKeys := by
    have htext : (Value.string "ann").DistinctKeys := Value.distinctKeys_of_parts_nil rfl rfl
    have hnumber (n : Int32) : (Value.int32 n).DistinctKeys :=
      Value.distinctKeys_of_parts_nil rfl rfl
    simp [letter, Value.distinctKeys_document_iff, Value.distinctKeys_array_iff, Document.keys,
      htext, hnumber]
  exact ⟨hstorable, hdistinct, hrebuilt hdistinct, hrefused hstorable⟩

end DocumentBase
