import DocumentBase.Item
import DocumentBase.Proofs.Outcome
import DocumentBase.Proofs.Value.Path
import DocumentBase.Value.Clean

/-!
# What can be stored

A value can be stored when no key in it, at any depth, could be taken for an operator, and when
no value in it is code.  Cleaning finds out whether this is so and changes nothing.  Storing a
value of this kind at a path keeps the document so if all segments of the path are plain keys;
a segment that is not one becomes a key that cleaning would not have let through.
-/

namespace DocumentBase

/-- A key that is not empty, does not start with a dollar sign and has no NUL. -/
structure PlainKey (key : String) : Prop where
  nonempty : key ≠ ""
  no_dollar : key.toList.head? ≠ some '$'
  no_nul : '\x00' ∉ key.toList

namespace Value

theorem isKey_iff {key : String} : isKey key = true ↔ PlainKey key := by
  have hempty : key.isEmpty = true ↔ key = "" := String.isEmpty_iff
  constructor
  · intro h
    simp only [isKey, Bool.not_eq_true', Bool.or_eq_false_iff, decide_eq_false_iff_not] at h
    exact ⟨fun he => by simp [hempty.mpr he] at h, h.1.2, by simpa using h.2⟩
  · rintro ⟨hne, hdollar, hnul⟩
    simp [isKey, hne, hdollar, hnul]

theorem checkKey_eq_ok {key : String} : checkKey key = .ok () ↔ PlainKey key := by
  rw [← isKey_iff, checkKey]
  cases isKey key <;> simp

/-! ### Values at any depth -/

/-- A value is another one, or is inside it at some depth. -/
inductive Within : Value → Value → Prop
  | self (v : Value) : Within v v
  | part {u v w : Value} (hpart : v ∈ w.parts) (h : Within u v) : Within u w

/-- What holds at every depth of a value holds of the value and at every depth of its parts. -/
theorem forall_within_iff {P : Value → Prop} (v : Value) :
    (∀ w, Within w v → P w) ↔ P v ∧ ∀ u ∈ v.parts, ∀ w, Within w u → P w := by
  constructor
  · intro h
    exact ⟨h v (.self v), fun u hu w hw => h w (.part hu hw)⟩
  · rintro ⟨hself, hparts⟩ w hw
    cases hw with
    | self => exact hself
    | part hpart hin => exact hparts _ hpart w hin

def keys : Value → List String
  | .document fields => Document.keys fields
  | .scopedCode _ scope => Document.keys scope
  | _ => []

def isCode : Value → Bool
  | .code _ | .scopedCode _ _ => true
  | _ => false

/-- No key at any depth could be taken for an operator, and nothing is code. -/
structure Storable (v : Value) : Prop where
  keys : ∀ w, Within w v → ∀ key ∈ w.keys, PlainKey key
  code : ∀ w, Within w v → w.isCode = false

/-- A value can be stored if it is no code, its keys are plain, and its parts can be stored. -/
theorem storable_iff (v : Value) :
    Storable v ↔ v.isCode = false ∧ (∀ key ∈ v.keys, PlainKey key) ∧ ∀ w ∈ v.parts, Storable w := by
  have hboth (w : Value) : Storable w ↔ ∀ u, Within u w → u.isCode = false ∧
      ∀ key ∈ u.keys, PlainKey key :=
    ⟨fun h u hu => ⟨h.code u hu, h.keys u hu⟩, fun h => ⟨fun u hu => (h u hu).2,
      fun u hu => (h u hu).1⟩⟩
  simp only [hboth]
  rw [forall_within_iff, and_assoc]

/-- A value without parts can be stored unless it is code. -/
theorem storable_of_parts_nil {v : Value} (hparts : v.parts = []) (hkeys : v.keys = [])
    (hcode : v.isCode = false) : Storable v := by
  rw [storable_iff, hparts, hkeys]
  exact ⟨hcode, nofun, nofun⟩

theorem storable_array_iff {items : List Value} :
    Storable (.array items) ↔ ∀ v ∈ items, Storable v := by
  rw [storable_iff]
  simp [isCode, keys, parts]

end Value

namespace Document

/-- All fields have plain keys and values that can be stored. -/
def Storable (d : Document) : Prop :=
  ∀ field ∈ d, PlainKey field.1 ∧ Value.Storable field.2

end Document

namespace Value

theorem storable_document_iff {d : Document} : Storable (.document d) ↔ d.Storable := by
  rw [storable_iff, Document.Storable]
  simp only [isCode, keys, parts, Document.keys, true_and, List.forall_mem_map]
  exact ⟨fun h field hfield => ⟨h.1 field hfield, h.2 field hfield⟩,
    fun h => ⟨fun field hfield => (h field hfield).1, fun field hfield => (h field hfield).2⟩⟩

/-! ### Cleaning -/

mutual

/-- Cleaning succeeds on what can be stored, and gives it back. -/
theorem clean_eq_ok : ∀ {v w : Value}, clean v = .ok w ↔ Storable v ∧ w = v
  | .array items, w => by
      rw [clean, Outcome.bind_eq_ok, storable_array_iff]
      constructor
      · rintro ⟨cleaned, hitems, hw⟩
        obtain ⟨hstorable, rfl⟩ := cleanItems_eq_ok.mp hitems
        exact ⟨hstorable, (Outcome.pure_eq_ok.mp hw).symm⟩
      · rintro ⟨hstorable, rfl⟩
        exact ⟨items, cleanItems_eq_ok.mpr ⟨hstorable, rfl⟩, rfl⟩
  | .document fields, w => by
      rw [clean, Outcome.bind_eq_ok, storable_document_iff]
      constructor
      · rintro ⟨cleaned, hfields, hw⟩
        obtain ⟨hstorable, rfl⟩ := cleanFields_eq_ok.mp hfields
        exact ⟨hstorable, (Outcome.pure_eq_ok.mp hw).symm⟩
      · rintro ⟨hstorable, rfl⟩
        exact ⟨fields, cleanFields_eq_ok.mpr ⟨hstorable, rfl⟩, rfl⟩
  | .code source, w => by
      rw [clean]
      exact ⟨nofun, fun h => nomatch h.1.code _ (.self _)⟩
  | .scopedCode source scope, w => by
      rw [clean]
      exact ⟨nofun, fun h => nomatch h.1.code _ (.self _)⟩
  | .null, w | .undefined, w | .minKey, w | .maxKey, w | .bool _, w | .int32 _, w | .int64 _, w
  | .double _, w | .decimal _, w | .string _, w | .date _, w | .objectId _, w | .timestamp _ _, w
  | .symbol _, w | .regex _ _, w | .binary _ _, w | .pointer _ _, w => by
      rw [clean, Outcome.pure_eq_ok, eq_comm, iff_and_self]
      · exact fun _ => storable_of_parts_nil rfl rfl rfl
      all_goals exact nofun

theorem cleanItems_eq_ok :
    ∀ {vs ws : List Value}, cleanItems vs = .ok ws ↔ (∀ v ∈ vs, Storable v) ∧ ws = vs
  | [], ws => by
      rw [cleanItems, Outcome.pure_eq_ok]
      simp [eq_comm]
  | v :: vs, ws => by
      rw [cleanItems, List.forall_mem_cons]
      constructor
      · intro h
        obtain ⟨v', hv, htail⟩ := Outcome.bind_eq_ok.mp h
        obtain ⟨vs', hvs, hws⟩ := Outcome.bind_eq_ok.mp htail
        obtain ⟨hstorable, rfl⟩ := clean_eq_ok.mp hv
        obtain ⟨hrest, rfl⟩ := cleanItems_eq_ok.mp hvs
        exact ⟨⟨hstorable, hrest⟩, (Outcome.pure_eq_ok.mp hws).symm⟩
      · rintro ⟨⟨hstorable, hrest⟩, rfl⟩
        refine Outcome.bind_eq_ok.mpr ⟨v, clean_eq_ok.mpr ⟨hstorable, rfl⟩, ?_⟩
        exact Outcome.bind_eq_ok.mpr ⟨vs, cleanItems_eq_ok.mpr ⟨hrest, rfl⟩, rfl⟩

theorem cleanFields_eq_ok :
    ∀ {fs gs : List (String × Value)}, cleanFields fs = .ok gs ↔ Document.Storable fs ∧ gs = fs
  | [], gs => by
      rw [cleanFields, Outcome.pure_eq_ok]
      simp [Document.Storable, eq_comm]
  | (key, v) :: fs, gs => by
      rw [cleanFields, Document.Storable, List.forall_mem_cons]
      constructor
      · intro h
        obtain ⟨_, hkey, hfield⟩ := Outcome.bind_eq_ok.mp h
        obtain ⟨v', hv, htail⟩ := Outcome.bind_eq_ok.mp hfield
        obtain ⟨fs', hfs, hgs⟩ := Outcome.bind_eq_ok.mp htail
        obtain ⟨hstorable, rfl⟩ := clean_eq_ok.mp hv
        obtain ⟨hrest, rfl⟩ := cleanFields_eq_ok.mp hfs
        exact ⟨⟨⟨checkKey_eq_ok.mp hkey, hstorable⟩, hrest⟩, (Outcome.pure_eq_ok.mp hgs).symm⟩
      · rintro ⟨⟨⟨hkey, hstorable⟩, hrest⟩, rfl⟩
        refine Outcome.bind_eq_ok.mpr ⟨(), checkKey_eq_ok.mpr hkey, ?_⟩
        refine Outcome.bind_eq_ok.mpr ⟨v, clean_eq_ok.mpr ⟨hstorable, rfl⟩, ?_⟩
        exact Outcome.bind_eq_ok.mpr ⟨fs, cleanFields_eq_ok.mpr ⟨hrest, rfl⟩, rfl⟩

end

/-- Cleaning accepts exactly the values that can be stored. -/
theorem isOk_clean {v : Value} : (clean v).isOk = true ↔ Storable v := by
  constructor
  · intro h
    cases hclean : clean v with
    | ok w => exact (clean_eq_ok.mp hclean).1
    | error e =>
        rw [hclean] at h
        cases h
  · intro h
    rw [clean_eq_ok.mpr ⟨h, rfl⟩]
    rfl

instance : DecidablePred Storable :=
  fun _ => decidable_of_iff _ isOk_clean

theorem mapM_clean (values : List Value) : values.mapM clean = cleanItems values := by
  induction values with
  | nil => rfl
  | cons v rest ih => rw [List.mapM_cons, ih, cleanItems]

end Value

namespace Document

variable {d e : Document} {key : String} {v : Value}

theorem clean_eq_ok : d.clean = .ok e ↔ d.Storable ∧ e = d :=
  Value.cleanFields_eq_ok

/-! ### Storing -/

theorem storable_nil : Storable [] :=
  nofun

theorem Storable.put (hd : d.Storable) (hkey : PlainKey key) (hv : v.Storable) :
    (d.put key v).Storable := by
  intro field hfield
  rcases mem_put hfield with rfl | hfield
  · exact ⟨hkey, hv⟩
  · exact hd field hfield

theorem Storable.without (hd : d.Storable) (key : String) : (d.without key).Storable :=
  fun field hfield => hd field (List.mem_filter.mp hfield).1

theorem Storable.of_value? (hd : d.Storable) (h : d.value? key = some v) :
    PlainKey key ∧ v.Storable :=
  hd (key, v) (mem_of_value? h)

theorem Storable.child (hd : d.Storable) (key : String) : (d.child key).Storable := by
  rw [Document.child]
  cases hvalue : d.value? key with
  | none => exact storable_nil
  | some v =>
      cases v with
      | document fields => exact Value.storable_document_iff.mp (hd.of_value? hvalue).2
      | _ => exact storable_nil

/-- A path that leads to a value in a document that can be stored is made of plain keys. -/
theorem Storable.of_get? {p : Path} (hd : d.Storable) (h : get? p d = some v) :
    (∀ segment ∈ p, PlainKey segment) ∧ v.Storable := by
  induction p generalizing d with
  | nil => cases h
  | cons k rest ih =>
      by_cases hrest : rest = []
      · subst hrest
        obtain ⟨hkey, hv⟩ := hd.of_value? h
        exact ⟨by simpa using hkey, hv⟩
      · rw [get?_cons hrest] at h
        obtain ⟨hsegments, hv⟩ := ih (hd.child k) h
        refine ⟨List.forall_mem_cons.mpr ⟨?_, hsegments⟩, hv⟩
        rw [Document.child] at h
        cases hvalue : d.value? k with
        | none => simp [hvalue] at h
        | some w => exact (hd.of_value? hvalue).1

/-- Storing at a path keeps a document storable exactly if the path is made of plain keys. -/
theorem Storable.set_iff {p : Path} (hp : p ≠ []) (hd : d.Storable) (hv : v.Storable) :
    (set v p d).Storable ↔ ∀ segment ∈ p, PlainKey segment := by
  constructor
  · intro h
    exact (h.of_get? (get?_set_self v hp d)).1
  · intro hplain
    induction p generalizing d with
    | nil => exact absurd rfl hp
    | cons k rest ih =>
        obtain ⟨hk, hrest⟩ := List.forall_mem_cons.mp hplain
        by_cases hnil : rest = []
        · subst hnil
          exact hd.put hk hv
        · rw [set_cons hnil]
          exact hd.put hk (Value.storable_document_iff.mpr (ih hnil (hd.child k) hrest))

/-- Setting a path stores a document whose keys are plain if and only if the segments of the path
are. -/
theorem Storable.setAt_iff (hd : d.Storable) (hv : v.Storable) (path : String) :
    (d.setAt path v).Storable ↔ ∀ segment ∈ Path.ofString path, PlainKey segment :=
  hd.set_iff (Path.ofString_ne_nil path) hv

end Document

/-! ### Items -/

namespace Item

open Document

variable {d existing : Document}

theorem plainKey_of_mem_protectedFields {field : String} (h : field ∈ protectedFields) :
    PlainKey field := by
  have hkeys : ∀ field ∈ protectedFields, Value.isKey field = true := by decide
  exact Value.isKey_iff.mp (hkeys field h)

theorem plainKey_updatedField : PlainKey updatedField :=
  Value.isKey_iff.mp (by decide)

theorem storable_stampNew (hd : d.Storable) {fresh : Value} (hfresh : fresh.Storable)
    (owner : Option String) (now : Instant) : (stampNew d fresh owner now).Storable := by
  have hid : PlainKey idField := plainKey_of_mem_protectedFields (by decide)
  have hcreated : PlainKey createdField := plainKey_of_mem_protectedFields (by decide)
  have howner : PlainKey ownerField := plainKey_of_mem_protectedFields (by decide)
  have hdate : Value.Storable (.date now) := Value.storable_of_parts_nil rfl rfl rfl
  have hidentified : (if d.has idField then d else d.put idField fresh).Storable := by
    split
    · exact hd
    · exact hd.put hid hfresh
  have hdated := (hidentified.put hcreated hdate).put plainKey_updatedField hdate
  cases owner with
  | some owner => exact hdated.put howner (Value.storable_of_parts_nil rfl rfl rfl)
  | none => exact hdated.without ownerField

theorem storable_inherit (hd : d.Storable) (hexisting : existing.Storable) (field : String) :
    (inherit existing d field).Storable := by
  rw [inherit]
  cases hvalue : existing.value? field with
  | none => exact hd.without field
  | some v =>
      obtain ⟨hkey, hv⟩ := hexisting.of_value? hvalue
      exact hd.put hkey hv

theorem storable_stampReplacement (hd : d.Storable) (hexisting : existing.Storable)
    (now : Instant) : (stampReplacement d existing now).Storable := by
  have hinherited : ∀ fields : List String,
      (fields.foldl (inherit existing) d).Storable := by
    intro fields
    induction fields generalizing d with
    | nil => exact hd
    | cons field rest ih => exact ih (storable_inherit hd hexisting field)
  exact (hinherited _).put plainKey_updatedField (Value.storable_of_parts_nil rfl rfl rfl)

end Item

end DocumentBase
