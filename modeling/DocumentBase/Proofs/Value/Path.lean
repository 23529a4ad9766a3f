import Mathlib.Data.List.Basic
import DocumentBase.Value.Path

/-!
# Reading and writing at paths

What is stored at a path is read there, and is not noticed at any path that is apart from it,
that is, at a path of which it is no beginning and that is no beginning of it.
-/

namespace DocumentBase

namespace Path

/-- Neither path is a beginning of the other. -/
def Apart (p q : Path) : Prop :=
  ¬ p <+: q ∧ ¬ q <+: p

instance (p q : Path) : Decidable (Apart p q) :=
  inferInstanceAs (Decidable (_ ∧ _))

theorem Apart.symm {p q : Path} (h : Apart p q) : Apart q p :=
  ⟨h.2, h.1⟩

theorem not_apart_nil (p : Path) : ¬ Apart p [] :=
  fun h => h.2 (List.nil_prefix)

theorem apart_cons_iff {k l : String} {p q : Path} :
    Apart (k :: p) (l :: q) ↔ k ≠ l ∨ Apart p q := by
  simp only [Apart, List.cons_prefix_cons, not_and]
  constructor
  · rintro ⟨hpq, hqp⟩
    by_cases hkl : k = l
    · exact Or.inr ⟨hpq hkl, hqp hkl.symm⟩
    · exact Or.inl hkl
  · rintro (hkl | ⟨hpq, hqp⟩)
    · exact ⟨fun h => absurd h hkl, fun h => absurd h.symm hkl⟩
    · exact ⟨fun _ => hpq, fun _ => hqp⟩

/-! ### The first field of a dotted path -/

/-- The field of a document that a dotted path begins with. -/
def headOf (path : String) : String :=
  (Path.ofString path).headD ""

theorem ofString_eq_cons (path : String) :
    Path.ofString path = headOf path :: (Path.ofString path).tail := by
  rw [headOf]
  cases h : Path.ofString path with
  | nil => exact absurd h (ofString_ne_nil path)
  | cons k rest => rfl

theorem segments_eq_singleton {text segment : List Char} (h : segments text = [segment]) :
    text = segment := by
  induction text generalizing segment with
  | nil => simpa [segments] using h
  | cons c rest ih =>
      rw [segments] at h
      by_cases hc : c = '.'
      · rw [if_pos hc] at h
        exact absurd (List.cons.inj h).2 (segments_ne_nil rest)
      · rw [if_neg hc] at h
        cases hrest : segments rest with
        | nil => exact absurd hrest (segments_ne_nil rest)
        | cons first others =>
            rw [hrest] at h
            obtain ⟨rfl, rfl⟩ := List.cons.inj h
            rw [ih hrest]

/-- Segments have no characters but those of the text. -/
theorem mem_of_mem_segments {text segment : List Char} {c : Char}
    (hsegment : segment ∈ segments text) (hc : c ∈ segment) : c ∈ text := by
  induction text generalizing segment with
  | nil =>
      rw [segments, List.mem_singleton] at hsegment
      rwa [hsegment] at hc
  | cons first rest ih =>
      rw [segments] at hsegment
      by_cases hdot : first = '.'
      · rw [if_pos hdot] at hsegment
        rcases List.mem_cons.mp hsegment with rfl | hrest
        · cases hc
        · exact List.mem_cons_of_mem _ (ih hrest hc)
      · rw [if_neg hdot] at hsegment
        cases hrest : segments rest with
        | nil => exact absurd hrest (segments_ne_nil rest)
        | cons head others =>
            rw [hrest] at hsegment ih
            rcases List.mem_cons.mp hsegment with rfl | hother
            · rcases List.mem_cons.mp hc with rfl | hc
              · exact List.mem_cons_self
              · exact List.mem_cons_of_mem _ (ih List.mem_cons_self hc)
            · exact List.mem_cons_of_mem _ (ih (List.mem_cons_of_mem _ hother) hc)

theorem mem_toList_of_mem_ofString {path segment : String} {c : Char}
    (hsegment : segment ∈ ofString path) (hc : c ∈ segment.toList) : c ∈ path.toList := by
  obtain ⟨characters, hmem, rfl⟩ := List.mem_map.mp hsegment
  rw [String.toList_ofList] at hc
  exact mem_of_mem_segments hmem hc

/-- A text is its own first segment, or goes on behind it with a dot. -/
theorem eq_or_prefix_of_segments {text first : List Char} {others : List (List Char)}
    (h : segments text = first :: others) : text = first ∨ first ++ ['.'] <+: text := by
  induction text generalizing first others with
  | nil =>
      cases h
      exact .inl rfl
  | cons c rest ih =>
      rw [segments] at h
      by_cases hc : c = '.'
      · rw [if_pos hc] at h
        cases h
        subst hc
        exact .inr (List.prefix_append ['.'] rest)
      · rw [if_neg hc] at h
        cases hrest : segments rest with
        | nil => exact absurd hrest (segments_ne_nil rest)
        | cons segment more =>
            rw [hrest] at h
            cases h
            rcases ih hrest with rfl | hprefix
            · exact .inl rfl
            · exact .inr (List.cons_prefix_cons.mpr ⟨rfl, hprefix⟩)

/-- A path that begins with a field is the field or lies below it. -/
theorem eq_or_prefix_of_headOf {path key : String} (h : headOf path = key) :
    path = key ∨ (key ++ ".").toList <+: path.toList := by
  have hsegments : ∃ first others, segments path.toList = first :: others ∧
      String.ofList first = key := by
    cases hsplit : segments path.toList with
    | nil => exact absurd hsplit (segments_ne_nil _)
    | cons first others =>
        rw [headOf, ofString, hsplit] at h
        exact ⟨first, others, rfl, h⟩
  obtain ⟨first, others, hsplit, rfl⟩ := hsegments
  rcases eq_or_prefix_of_segments hsplit with htext | hprefix
  · left
    rw [← htext, String.ofList_toList]
  · right
    simpa using hprefix

/-- A text is cut at its first dot. -/
theorem segments_append_dot {first : List Char} (h : '.' ∉ first) (rest : List Char) :
    segments (first ++ '.' :: rest) = first :: segments rest := by
  induction first with
  | nil => rfl
  | cons c later ih =>
      rw [List.mem_cons, not_or] at h
      rw [List.cons_append, segments, if_neg (Ne.symm h.1), ih h.2]

theorem segments_of_no_dot {text : List Char} (h : '.' ∉ text) : segments text = [text] := by
  induction text with
  | nil => rfl
  | cons c rest ih =>
      rw [List.mem_cons, not_or] at h
      rw [segments, if_neg (Ne.symm h.1), ih h.2]

theorem ofString_of_no_dot {name : String} (h : '.' ∉ name.toList) :
    Path.ofString name = [name] := by
  rw [ofString, segments_of_no_dot h, List.map_singleton, String.ofList_toList]

/-- A path below a field. -/
theorem ofString_below {name : String} (h : '.' ∉ name.toList) (rest : String) :
    Path.ofString (name ++ "." ++ rest) = name :: Path.ofString rest := by
  have htext : (name ++ "." ++ rest).toList = name.toList ++ '.' :: rest.toList := by
    simp [String.toList_append]
  rw [ofString, htext, segments_append_dot h, List.map_cons, String.ofList_toList, ofString]

/-- A path that names more than its first field has further segments. -/
theorem tail_ofString_ne_nil {path : String} (h : headOf path ≠ path) :
    (Path.ofString path).tail ≠ [] := by
  intro htail
  apply h
  have hsingle : Path.ofString path = [headOf path] := by
    rw [ofString_eq_cons, htail]
  rw [ofString] at hsingle
  obtain ⟨segment, hsegments, hsegment⟩ := List.map_eq_singleton_iff.mp hsingle
  rw [← hsegment, ← segments_eq_singleton hsegments, String.ofList_toList]

end Path

namespace Document

open DocumentBase.Path

/-! ### One step of a path -/

@[simp]
theorem get?_of_nil (p : Path) : get? p [] = none := by
  cases p with
  | nil => rfl
  | cons k rest => cases rest <;> rfl

theorem get?_cons {k : String} {p : Path} (hp : p ≠ []) (d : Document) :
    get? (k :: p) d = get? p (d.child k) := by
  cases p with
  | nil => exact absurd rfl hp
  | cons l rest =>
      rw [get?, child]
      · cases d.value? k with
        | none => simp
        | some v => cases v <;> simp
      · simp

/-- Reading inside a document that stands at the first segment. -/
theorem get?_below {k : String} {d fields : Document} (h : d.value? k = some (.document fields))
    {p : Path} (hp : p ≠ []) : get? (k :: p) d = get? p fields := by
  rw [get?_cons hp, child, h]

theorem set_cons {k : String} {p : Path} (hp : p ≠ []) (v : Value) (d : Document) :
    set v (k :: p) d = d.put k (.document (set v p (d.child k))) := by
  cases p with
  | nil => exact absurd rfl hp
  | cons l rest => rw [set]; simp

@[simp]
theorem remove_of_nil (p : Path) : (remove p []).2 = [] := by
  cases p with
  | nil => rfl
  | cons k rest => cases rest <;> rfl

/-- A value without what is at a path below it. -/
def removeBelow (p : Path) : Value → Value
  | .document fields => .document (remove p fields).2
  | v => v

theorem value?_remove_cons {k : String} {p : Path} (hp : p ≠ []) (d : Document) (l : String) :
    (remove (k :: p) d).2.value? l =
      if k = l then (d.value? k).map (removeBelow p) else d.value? l := by
  cases p with
  | nil => exact absurd rfl hp
  | cons m rest =>
      rw [remove]
      · by_cases hl : k = l
        · subst hl
          cases hk : d.value? k with
          | none => simp [hk]
          | some v => cases v <;> simp [hk, removeBelow]
        · rw [if_neg hl]
          cases hk : d.value? k with
          | none => rfl
          | some v => cases v <;> first | rfl | exact value?_put_ne d _ hl
      · simp

@[simp]
theorem child_put_self (d : Document) (k : String) (fields : Document) :
    (d.put k (.document fields)).child k = fields := by
  simp [child]

theorem child_put_ne (d : Document) {k l : String} (v : Value) (h : k ≠ l) :
    (d.put k v).child l = d.child l := by
  rw [child, child, value?_put_ne d v h]

theorem child_remove_cons {k : String} {p : Path} (hp : p ≠ []) (d : Document) :
    (remove (k :: p) d).2.child k = (remove p (d.child k)).2 := by
  rw [child, child, value?_remove_cons hp, if_pos rfl]
  cases d.value? k with
  | none => simp
  | some v => cases v <;> simp [removeBelow]

theorem put_of_value? {d : Document} {k : String} {v : Value} (h : d.value? k = some v) :
    d.put k v = d := by
  induction d with
  | nil => simp at h
  | cons field rest ih =>
      obtain ⟨l, w⟩ := field
      rw [value?_cons] at h
      by_cases hl : l = k
      · rw [if_pos hl, Option.some.injEq] at h
        simp [put, hl, h]
      · rw [if_neg hl] at h
        simp [put, hl, ih h]

theorem put_of_absent {d : Document} {k : String} (h : d.value? k = none) (v : Value) :
    d.put k v = d ++ [(k, v)] := by
  induction d with
  | nil => rfl
  | cons field rest ih =>
      obtain ⟨l, w⟩ := field
      rw [value?_cons] at h
      split at h
      · cases h
      next hl => rw [put, if_neg hl, ih h, List.cons_append]

/-! ### Whole paths -/

theorem get?_set_self (v : Value) {p : Path} (hp : p ≠ []) (d : Document) :
    get? p (set v p d) = some v := by
  induction p generalizing d with
  | nil => exact absurd rfl hp
  | cons k rest ih =>
      by_cases hrest : rest = []
      · subst hrest
        exact value?_put_self d k v
      · rw [set_cons hrest, get?_cons hrest, child_put_self]
        exact ih hrest _

/-- A value stored at one path is not seen at another one that is apart from it. -/
theorem get?_set_of_apart (v : Value) {p q : Path} (h : Apart p q) (d : Document) :
    get? q (set v p d) = get? q d := by
  induction p generalizing q d with
  | nil => exact absurd (List.nil_prefix) h.1
  | cons k p ih =>
      cases q with
      | nil => exact absurd (List.nil_prefix) h.2
      | cons l q =>
          by_cases hp : p = []
          · subst hp
            have hkl : k ≠ l := by
              rintro rfl
              exact h.1 (List.cons_prefix_cons.mpr ⟨rfl, List.nil_prefix⟩)
            by_cases hq : q = []
            · subst hq
              exact value?_put_ne d v hkl
            · rw [get?_cons hq, get?_cons hq, set, child_put_ne d v hkl]
          · rw [set_cons hp]
            by_cases hkl : k = l
            · subst hkl
              have hrest : Apart p q := by simpa using apart_cons_iff.mp h
              have hq : q ≠ [] := by
                rintro rfl
                exact not_apart_nil p hrest
              rw [get?_cons hq, get?_cons hq, child_put_self, ih hrest]
            · by_cases hq : q = []
              · subst hq
                exact value?_put_ne d _ hkl
              · rw [get?_cons hq, get?_cons hq, child_put_ne d _ hkl]

theorem get?_remove_of_apart {p q : Path} (h : Apart p q) (d : Document) :
    get? q (remove p d).2 = get? q d := by
  induction p generalizing q d with
  | nil => exact absurd (List.nil_prefix) h.1
  | cons k p ih =>
      cases q with
      | nil => exact absurd (List.nil_prefix) h.2
      | cons l q =>
          by_cases hkl : k = l
          · subst hkl
            have hrest : Apart p q := by simpa using apart_cons_iff.mp h
            have hp : p ≠ [] := by
              rintro rfl
              exact not_apart_nil q hrest.symm
            have hq : q ≠ [] := by
              rintro rfl
              exact not_apart_nil p hrest
            rw [get?_cons hq, get?_cons hq, child_remove_cons hp, ih hrest]
          · have hvalue : (remove (k :: p) d).2.value? l = d.value? l := by
              by_cases hp : p = []
              · subst hp
                exact value?_without_ne d hkl
              · rw [value?_remove_cons hp, if_neg hkl]
            by_cases hq : q = []
            · subst hq
              exact hvalue
            · rw [get?_cons hq, get?_cons hq, child, child, hvalue]

/-- The later of two values stored at a path counts. -/
theorem set_set_self (v w : Value) (p : Path) (d : Document) : set w p (set v p d) = set w p d := by
  induction p generalizing d with
  | nil => rfl
  | cons k rest ih =>
      by_cases hrest : rest = []
      · subst hrest
        exact put_put_self d k v w
      · rw [set_cons hrest, set_cons hrest, set_cons hrest, child_put_self, put_put_self, ih]

theorem get?_remove_self (p : Path) (d : Document) : get? p (remove p d).2 = none := by
  induction p generalizing d with
  | nil => rfl
  | cons k rest ih =>
      by_cases hrest : rest = []
      · subst hrest
        exact value?_without_self d k
      · rw [get?_cons hrest, child_remove_cons hrest]
        exact ih _

/-- A longer path goes on inside what is at the shorter one. -/
theorem get?_append {p q : Path} (hp : p ≠ []) (hq : q ≠ []) (d : Document) :
    get? (p ++ q) d = (get? p d).bind fun v => get? q (v.fields?.getD []) := by
  induction p generalizing d with
  | nil => exact absurd rfl hp
  | cons k rest ih =>
      rw [List.cons_append, get?_cons (by simp [hq])]
      by_cases hrest : rest = []
      · subst hrest
        rw [List.nil_append, child, get?]
        cases d.value? k with
        | none => simp
        | some v => cases v <;> simp [Value.fields?]
      · rw [ih hrest, get?_cons hrest]

/-- Storing again what is at a path changes nothing. -/
theorem set_of_get? {v : Value} {p : Path} {d : Document} (h : get? p d = some v) :
    set v p d = d := by
  induction p generalizing d with
  | nil => rfl
  | cons k rest ih =>
      by_cases hrest : rest = []
      · subst hrest
        exact put_of_value? h
      · rw [get?_cons hrest] at h
        rw [set_cons hrest, ih h]
        apply put_of_value?
        rw [child] at h ⊢
        cases hk : d.value? k with
        | none => simp [hk] at h
        | some w => cases w <;> simp_all

end Document

end DocumentBase
