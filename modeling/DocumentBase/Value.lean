import DocumentBase.Calendar
import DocumentBase.Number.Decimal128

/-!
# Values and documents

A document is a list of fields in the order in which they were first written: storing under
a key that is present replaces the value and keeps the place.  Two lemmas about each
operation on documents say what is read afterwards under the key that was written and under
any other key.
-/

namespace DocumentBase

inductive Value where
  | null
  | undefined
  | minKey
  | maxKey
  | bool (b : Bool)
  | int32 (n : Int32)
  | int64 (n : Int64)
  | double (x : Double)
  | decimal (x : Decimal128)
  | string (text : String)
  | date (instant : Int)
  | objectId (id : BitVec 96)
  | timestamp (seconds increment : UInt32)
  | symbol (text : String)
  | regex (pattern options : String)
  | binary (subtype : UInt8) (bytes : List UInt8)
  | pointer (collection : String) (id : BitVec 96)
  | code (source : String)
  | scopedCode (source : String) (scope : List (String × Value))
  | array (items : List Value)
  | document (fields : List (String × Value))
deriving Repr, Inhabited

abbrev Document := List (String × Value)

namespace Document

def value? : Document → String → Option Value
  | [], _ => none
  | (k, v) :: rest, key => if k = key then some v else value? rest key

/-- Stores under `key`, in place if the key is present and at the end otherwise. -/
def put : Document → String → Value → Document
  | [], key, value => [(key, value)]
  | (k, v) :: rest, key, value =>
    if k = key then (k, value) :: rest else (k, v) :: put rest key value

/-- The document without `key`, the other fields in their order. -/
def without (d : Document) (key : String) : Document :=
  d.filter fun field => field.1 ≠ key

def has (d : Document) (key : String) : Bool :=
  (d.value? key).isSome

def keys (d : Document) : List String :=
  d.map Prod.fst

/-- Fields written one after the other into an empty document. -/
def ofFields (fields : List (String × Value)) : Document :=
  fields.foldl (fun d field => d.put field.1 field.2) []

@[simp]
theorem value?_nil (key : String) : value? [] key = none := rfl

theorem value?_cons (k : String) (v : Value) (rest : Document) (key : String) :
    value? ((k, v) :: rest) key = if k = key then some v else value? rest key := rfl

@[simp]
theorem value?_put_self (d : Document) (key : String) (value : Value) :
    (d.put key value).value? key = some value := by
  induction d with
  | nil => simp [put, value?]
  | cons field rest ih =>
    obtain ⟨k, v⟩ := field
    by_cases h : k = key <;> simp [put, value?, h, ih]

theorem value?_put_ne (d : Document) {key other : String} (value : Value) (h : key ≠ other) :
    (d.put key value).value? other = d.value? other := by
  induction d with
  | nil => simp [put, value?, h]
  | cons field rest ih =>
    obtain ⟨k, v⟩ := field
    by_cases hk : k = key
    · subst hk
      simp [put, value?, h]
    · simp [put, value?, hk, ih]

@[simp]
theorem put_put_self (d : Document) (key : String) (first second : Value) :
    (d.put key first).put key second = d.put key second := by
  induction d with
  | nil => simp [put]
  | cons field rest ih =>
    obtain ⟨k, v⟩ := field
    by_cases h : k = key <;> simp [put, h, ih]

@[simp]
theorem value?_without_self (d : Document) (key : String) :
    (d.without key).value? key = none := by
  induction d with
  | nil => rfl
  | cons field rest ih =>
    obtain ⟨k, v⟩ := field
    by_cases h : k = key
    · simpa [without, h] using ih
    · simpa [without, value?, h] using ih

theorem value?_without_ne (d : Document) {key other : String} (h : key ≠ other) :
    (d.without key).value? other = d.value? other := by
  induction d with
  | nil => rfl
  | cons field rest ih =>
    obtain ⟨k, v⟩ := field
    by_cases hk : k = key
    · subst hk
      simpa [without, value?, h] using ih
    · by_cases ho : k = other
      · simp [without, value?, ho, Ne.symm h]
      · simpa [without, value?, hk, ho] using ih

theorem mem_of_value? {d : Document} {key : String} {value : Value}
    (h : d.value? key = some value) : (key, value) ∈ d := by
  induction d with
  | nil => simp at h
  | cons field rest ih =>
    obtain ⟨k, v⟩ := field
    by_cases hk : k = key
    · simp_all [value?]
    · exact List.mem_cons_of_mem _ (ih (by simpa [value?, hk] using h))

theorem mem_put {d : Document} {key : String} {v : Value} {field : String × Value}
    (h : field ∈ d.put key v) : field = (key, v) ∨ field ∈ d := by
  induction d with
  | nil => exact .inl (List.mem_singleton.mp h)
  | cons first rest ih =>
      obtain ⟨k, w⟩ := first
      rw [put] at h
      by_cases hk : k = key
      · subst hk
        rw [if_pos rfl] at h
        exact (List.mem_cons.mp h).imp_right (List.mem_cons_of_mem _)
      · rw [if_neg hk] at h
        rcases List.mem_cons.mp h with rfl | h
        · exact .inr List.mem_cons_self
        · exact (ih h).imp_right (List.mem_cons_of_mem _)

end Document

namespace Value

/-- The values directly inside a value. -/
def parts : Value → List Value
  | .array items => items
  | .document fields => fields.map Prod.snd
  | .scopedCode _ scope => scope.map Prod.snd
  | _ => []

/-- The name of a value's type in messages. -/
def typeName : Value → String
  | .null => "Null"
  | .undefined => "Undefined"
  | .minKey => "MinKey"
  | .maxKey => "MaxKey"
  | .bool _ => "Boolean"
  | .int32 _ => "Int32"
  | .int64 _ => "Int64"
  | .double _ => "Double"
  | .decimal _ => "Decimal128"
  | .string _ => "String"
  | .date _ => "DateTime"
  | .objectId _ => "ObjectId"
  | .timestamp _ _ => "Timestamp"
  | .symbol _ => "Symbol"
  | .regex _ _ => "RegularExpression"
  | .binary _ _ => "Binary"
  | .pointer _ _ => "DbPointer"
  | .code _ => "JavaScriptCode"
  | .scopedCode _ _ => "JavaScriptCodeWithScope"
  | .array _ => "Array"
  | .document _ => "EmbeddedDocument"

def text? : Value → Option String
  | .string text => some text
  | _ => none

def items? : Value → Option (List Value)
  | .array items => some items
  | _ => none

def fields? : Value → Option Document
  | .document fields => some fields
  | _ => none

mutual

/-- Whether two values are written the same way, with one exception: all NaNs are alike. -/
def identical : Value → Value → Bool
  | .null, .null => true
  | .undefined, .undefined => true
  | .minKey, .minKey => true
  | .maxKey, .maxKey => true
  | .bool a, .bool b => a == b
  | .int32 a, .int32 b => a == b
  | .int64 a, .int64 b => a == b
  | .double a, .double b => a.canonical == b.canonical
  | .decimal a, .decimal b => a == b
  | .string a, .string b => a == b
  | .date a, .date b => a == b
  | .objectId a, .objectId b => a == b
  | .timestamp s i, .timestamp t j => s == t && i == j
  | .symbol a, .symbol b => a == b
  | .regex p o, .regex q r => p == q && o == r
  | .binary s a, .binary t b => s == t && a == b
  | .pointer c a, .pointer d b => c == d && a == b
  | .code a, .code b => a == b
  | .scopedCode a s, .scopedCode b t => a == b && identicalFields s t
  | .array a, .array b => identicalItems a b
  | .document a, .document b => identicalFields a b
  | _, _ => false
termination_by structural v _ => v

def identicalItems : List Value → List Value → Bool
  | [], [] => true
  | v :: vs, w :: ws => identical v w && identicalItems vs ws
  | _, _ => false
termination_by structural vs _ => vs

def identicalFields : List (String × Value) → List (String × Value) → Bool
  | [], [] => true
  | (k, v) :: vs, (l, w) :: ws => k == l && identical v w && identicalFields vs ws
  | _, _ => false
termination_by structural vs _ => vs

end

end Value

end DocumentBase
