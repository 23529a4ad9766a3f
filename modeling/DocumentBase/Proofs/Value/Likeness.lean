import DocumentBase.Proofs.Value.Path
import DocumentBase.Proofs.Value.Sameness

/-!
# Values that cannot be told apart

Like values are equal, or the same, or documents with like values under the same keys.  Nothing
that looks at values through comparisons tells them apart, and storing like values in like
places keeps documents alike.  Sameness alone would not do, for a NaN is not the same as itself.
-/

namespace DocumentBase

theorem Double.compare?_congr {x y : Double} (h : x.same y = true) (z : Double) :
    x.compare? z = y.compare? z := by
  simp only [same, Bool.and_eq_true, Bool.not_eq_true', beq_iff_eq] at h
  simp [compare?, h.1.1, h.1.2, h.2]

/-! ### Related lists -/

section Lists

variable {α β : Type} {R : α → α → Prop} {S : β → β → Prop} {xs ys : List α}

theorem any_congr {f : α → Bool} (h : List.Forall₂ R xs ys) (hf : ∀ x y, R x y → f x = f y) :
    xs.any f = ys.any f := by
  induction h with
  | nil => rfl
  | cons hxy _ ih => rw [List.any_cons, List.any_cons, hf _ _ hxy, ih]

theorem isEmpty_congr (h : List.Forall₂ R xs ys) : xs.isEmpty = ys.isEmpty := by
  cases h <;> rfl

theorem rel_getElem? (h : List.Forall₂ R xs ys) (i : Nat) : Option.Rel R xs[i]? ys[i]? := by
  induction h generalizing i with
  | nil => exact .none
  | cons hxy _ ih =>
      cases i with
      | zero => exact .some hxy
      | succ i => exact ih i

theorem forall₂_map {f g : α → β} (h : List.Forall₂ R xs ys) (hfg : ∀ x y, R x y → S (f x) (g y)) :
    List.Forall₂ S (xs.map f) (ys.map g) := by
  induction h with
  | nil => exact .nil
  | cons hxy _ ih => exact .cons (hfg _ _ hxy) ih

theorem forall₂_flatMap {f g : α → List β} (h : List.Forall₂ R xs ys)
    (hfg : ∀ x y, R x y → List.Forall₂ S (f x) (g y)) :
    List.Forall₂ S (xs.flatMap f) (ys.flatMap g) := by
  induction h with
  | nil => exact .nil
  | cons hxy _ ih => exact List.rel_append (hfg _ _ hxy) ih

end Lists

/-! ### Likeness -/

namespace Value

inductive Like : Value → Value → Prop
  | refl (v : Value) : Like v v
  | same {v w : Value} (h : v.same w = true) : Like v w
  | document {a b : Document}
      (hkeys : ∀ key, (a.value? key).isSome = (b.value? key).isSome)
      (hvalues : ∀ key v w, a.value? key = some v → b.value? key = some w → Like v w) :
      Like (.document a) (.document b)

/-- Comparing with like values gives like answers. -/
theorem Like.same_eq {v w : Value} (h : Like v w) (x : Value) : v.same x = w.same x := by
  induction h generalizing x with
  | refl v => rfl
  | same h =>
      rw [Bool.eq_iff_iff]
      exact ⟨fun hv => same_trans (same_symm h) hv, fun hw => same_trans h hw⟩
  | @document a b hkeys hvalues ih =>
      have hrel : ∀ (c : Document) key,
          Option.Rel (fun v w => v.same w = true) (a.value? key) (c.value? key) ↔
            Option.Rel (fun v w => v.same w = true) (b.value? key) (c.value? key) := by
        intro c key
        have hkey := hkeys key
        cases ha : a.value? key <;> cases hb : b.value? key <;> simp [ha, hb] at hkey
        · rfl
        · rename_i v w
          have hsame := ih key v w ha hb
          cases c.value? key <;> simp [hsame]
      rw [Bool.eq_iff_iff]
      cases x with
      | document c =>
          rw [same_document_iff, same_document_iff]
          exact forall_congr' (hrel c)
      | _ => simp [Value.same, sameScalar, number?, kind]

theorem Like.same_right {v w : Value} (h : Like v w) (x : Value) : x.same v = x.same w := by
  rw [same_comm x v, same_comm x w, h.same_eq]

/-- What like values have in common on the outside. -/
inductive LikeView : Value → Value → Prop
  | equal (v : Value) : LikeView v v
  | array {a b : List Value} (h : List.Forall₂ Like a b) : LikeView (.array a) (.array b)
  | document {a b : Document} (h : ∀ key, Option.Rel Like (a.value? key) (b.value? key)) :
      LikeView (.document a) (.document b)
  | scalar {v w : Value} (h : sameScalar v w = true) : LikeView v w

theorem Like.view {v w : Value} (h : Like v w) : LikeView v w := by
  have himp : ∀ {a b : Option Value}, Option.Rel (fun v w => v.same w = true) a b →
      Option.Rel Like a b := by
    intro a b hab
    cases hab with
    | none => exact .none
    | some h => exact .some (.same h)
  cases h with
  | refl => exact .equal v
  | same h =>
      cases (same_iff_view v w).mp h with
      | array hitems => exact .array (hitems.imp fun _ _ => .same)
      | document hfields => exact .document fun key => himp (hfields key)
      | scalar hscalar => exact .scalar hscalar
  | @document a b hkeys hvalues =>
      refine .document fun key => ?_
      have hkey := hkeys key
      cases ha : a.value? key <;> cases hb : b.value? key <;> simp [ha, hb] at hkey
      · exact .none
      · exact .some (hvalues key _ _ ha hb)

theorem like_document_iff {a b : Document} :
    Like (.document a) (.document b) ↔ ∀ key, Option.Rel Like (a.value? key) (b.value? key) := by
  constructor
  · intro h key
    cases h.view with
    | equal =>
        cases a.value? key with
        | none => exact .none
        | some v => exact .some (.refl v)
    | document h => exact h key
    | scalar h => simp [not_sameScalar_document] at h
  · intro h
    refine .document (fun key => ?_) fun key v w hv hw => ?_
    · have hkey := h key
      generalize a.value? key = x at *
      generalize b.value? key = y at *
      cases hkey <;> rfl
    · have hkey := h key
      rw [hv, hw] at hkey
      cases hkey
      assumption

/-! ### What is seen of like values -/

theorem text?_of_number {v : Value} {x : Double} (h : v.number? = some x) : v.text? = none := by
  cases v <;> first | rfl | simp [number?] at h

theorem text?_of_null {v : Value} (h : v.kind = .null) : v.text? = none := by
  cases v <;> first | rfl | simp [kind] at h

/-- A value that holds no others is neither an array nor a document. -/
theorem holdsNothing_of_sameScalar {v w : Value} (h : sameScalar v w = true) :
    v.items? = none ∧ v.fields? = none := by
  have hflip := sameScalar_symm h
  cases v with
  | array items => simp [not_sameScalar_array] at hflip
  | document fields => simp [not_sameScalar_document] at hflip
  | _ => exact ⟨rfl, rfl⟩

theorem Like.items? {v w : Value} (h : Like v w) :
    Option.Rel (List.Forall₂ Like) v.items? w.items? := by
  cases h.view with
  | equal =>
      cases v.items? with
      | none => exact .none
      | some items => exact .some (List.forall₂_same.mpr fun _ _ => .refl _)
  | array hitems => exact .some hitems
  | document _ => exact .none
  | scalar hscalar =>
      rw [(holdsNothing_of_sameScalar hscalar).1,
        (holdsNothing_of_sameScalar (sameScalar_symm hscalar)).1]
      exact .none

theorem Like.fields? {v w : Value} (h : Like v w) :
    Option.Rel (fun a b => Like (.document a) (.document b)) v.fields? w.fields? := by
  cases h.view with
  | equal =>
      cases v.fields? with
      | none => exact .none
      | some fields => exact .some (.refl _)
  | array _ => exact .none
  | document hfields => exact .some (like_document_iff.mpr hfields)
  | scalar hscalar =>
      rw [(holdsNothing_of_sameScalar hscalar).2,
        (holdsNothing_of_sameScalar (sameScalar_symm hscalar)).2]
      exact .none

theorem Like.text?_eq {v w : Value} (h : Like v w) : v.text? = w.text? := by
  cases h.view with
  | equal => rfl
  | array _ => rfl
  | document _ => rfl
  | scalar hscalar =>
      rw [sameScalar_iff] at hscalar
      rcases hscalar with ⟨b, rfl, rfl⟩ | ⟨t, rfl, rfl⟩ | ⟨i, rfl, rfl⟩ | ⟨x, y, hx, hy, -⟩ |
        ⟨hv, hw⟩
      · rfl
      · rfl
      · rfl
      · rw [text?_of_number hx, text?_of_number hy]
      · rw [text?_of_null hv, text?_of_null hw]

theorem compare?_of_number {v : Value} {x : Double} (h : v.number? = some x) (z : Value) :
    v.compare? z = z.number?.bind x.compare? := by
  cases v <;> simp [number?] at h <;> subst h <;> cases z <;> simp [compare?, number?]

theorem compare?_of_null {v : Value} (h : v.kind = .null) (z : Value) : v.compare? z = none := by
  cases v <;> simp [kind] at h <;> cases z <;> simp [compare?, number?]

theorem Like.compare?_eq {v w : Value} (h : Like v w) (x : Value) :
    v.compare? x = w.compare? x := by
  cases h.view with
  | equal => rfl
  | array _ => cases x <;> rfl
  | document _ => cases x <;> rfl
  | scalar h =>
      rw [sameScalar_iff] at h
      rcases h with ⟨b, rfl, rfl⟩ | ⟨t, rfl, rfl⟩ | ⟨i, rfl, rfl⟩ | ⟨y, z, hy, hz, hyz⟩ | ⟨hv, hw⟩
      · rfl
      · rfl
      · rfl
      · rw [compare?_of_number hy, compare?_of_number hz]
        cases x.number? with
        | none => rfl
        | some n => exact Double.compare?_congr hyz n
      · rw [compare?_of_null hv, compare?_of_null hw]

theorem rel_refl (x : Option Value) : Option.Rel Like x x := by
  cases x with
  | none => exact .none
  | some v => exact .some (.refl v)

/-! ### What is reached in like values -/

/-- Going on behind a field that holds like values, or none. -/
theorem forall₂_reach_of_rel {p : Path}
    (ih : ∀ {v w : Value}, Like v w → List.Forall₂ Like (reach p v) (reach p w))
    {x y : Option Value} (h : Option.Rel Like x y) :
    List.Forall₂ Like ((x.map (reach p)).getD []) ((y.map (reach p)).getD []) := by
  cases h with
  | none => exact .nil
  | some hvw => exact ih hvw

/-- What is reached behind the first segment, for each way of holding other values. -/
theorem reach_cons (k : String) (rest : Path) (v : Value) :
    reach (k :: rest) v =
      match v.fields?, v.items? with
      | some fields, _ => ((Document.value? fields k).map (reach rest)).getD []
      | none, some items =>
        (((Path.index? k).bind fun i => items[i]?).map (reach rest)).getD [] ++
          items.flatMap fun item =>
            ((item.fields?.bind fun fields => Document.value? fields k).map (reach rest)).getD []
      | none, none => [] := by
  cases v with
  | array items =>
      simp only [reach, fields?, items?]
      refine congrArg _ (List.flatMap_congr ?_)
      intro item _
      cases item <;> rfl
  | _ => rfl

theorem rel_field {v w : Value} (h : Like v w) (k : String) :
    Option.Rel Like (v.fields?.bind fun fields => Document.value? fields k)
      (w.fields?.bind fun fields => Document.value? fields k) := by
  have hfields := h.fields?
  generalize v.fields? = x at *
  generalize w.fields? = y at *
  cases hfields with
  | none => exact .none
  | some hab => exact like_document_iff.mp hab k

/-- Like values have like parts at every path. -/
theorem Like.reach (p : Path) {v w : Value} (h : Like v w) :
    List.Forall₂ Like (reach p v) (reach p w) := by
  induction p generalizing v w with
  | nil => exact .cons h .nil
  | cons k rest ih =>
      have hfields := h.fields?
      have hitems := h.items?
      rw [reach_cons, reach_cons]
      generalize v.fields? = x at *
      generalize w.fields? = y at *
      cases hfields with
      | some hab => exact forall₂_reach_of_rel ih (like_document_iff.mp hab k)
      | none =>
          generalize v.items? = vs at *
          generalize w.items? = ws at *
          cases hitems with
          | none => exact .nil
          | some hboth =>
              apply List.rel_append
              · apply forall₂_reach_of_rel ih
                cases Path.index? k with
                | none => exact .none
                | some i => exact rel_getElem? hboth i
              · apply forall₂_flatMap hboth
                intro item other hlike
                exact forall₂_reach_of_rel ih (rel_field hlike k)

end Value

namespace Document

open Value

/-! ### Like values at a path -/

/-- Two documents have like values at a path, or none. -/
def LikeAt (q : Path) (a b : Document) : Prop :=
  Option.Rel Like (get? q a) (get? q b)

theorem LikeAt.refl (q : Path) (d : Document) : LikeAt q d d :=
  rel_refl _

theorem child_eq (d : Document) (k : String) :
    d.child k = ((d.value? k).bind Value.fields?).getD [] := by
  rw [child]
  cases d.value? k with
  | none => rfl
  | some v => cases v <;> rfl

theorem rel_child {k : String} {a b : Document}
    (h : Option.Rel Like (a.value? k) (b.value? k)) (l : String) :
    Option.Rel Like ((a.child k).value? l) ((b.child k).value? l) := by
  rw [child_eq, child_eq]
  generalize a.value? k = x at *
  generalize b.value? k = y at *
  cases h with
  | none => exact .none
  | some hvw =>
      rename_i v w
      have hfields := hvw.fields?
      simp only [Option.bind_some]
      generalize v.fields? = fields at *
      generalize w.fields? = others at *
      cases hfields with
      | none => exact .none
      | some hab => exact like_document_iff.mp hab l

/-- Whatever is read inside a field that holds like values is alike. -/
theorem likeAt_of_head {k : String} {a b : Document}
    (h : Option.Rel Like (a.value? k) (b.value? k)) (rest : Path) : LikeAt (k :: rest) a b := by
  induction rest generalizing k a b with
  | nil => exact h
  | cons l rest ih =>
      have hrest : (l :: rest) ≠ [] := by simp
      rw [LikeAt, get?_cons hrest, get?_cons hrest]
      exact ih (rel_child h l)

/-! ### Like documents stay alike -/

theorem rel_put {k : String} {a b : Document} {v w : Value} (hvw : Like v w) {l : String}
    (h : k ≠ l → Option.Rel Like (a.value? l) (b.value? l)) :
    Option.Rel Like ((a.put k v).value? l) ((b.put k w).value? l) := by
  by_cases hl : k = l
  · subst hl
    rw [value?_put_self, value?_put_self]
    exact .some hvw
  · rw [value?_put_ne a v hl, value?_put_ne b w hl]
    exact h hl

theorem rel_set {p : Path} {v w : Value} (hvw : Like v w) {a b : Document}
    (h : ∀ l, Option.Rel Like (a.value? l) (b.value? l)) (l : String) :
    Option.Rel Like ((set v p a).value? l) ((set w p b).value? l) := by
  induction p generalizing a b l with
  | nil => exact h l
  | cons k rest ih =>
      by_cases hrest : rest = []
      · subst hrest
        exact rel_put hvw fun _ => h l
      · rw [set_cons hrest, set_cons hrest]
        refine rel_put (like_document_iff.mpr fun m => ?_) fun _ => h l
        exact ih (rel_child (h k)) m

theorem removeBelow_eq (p : Path) (v : Value) :
    removeBelow p v = (v.fields?.map fun fields => .document (remove p fields).2).getD v := by
  cases v <;> rfl

/-- Removing below a field, given what removing does to like documents. -/
theorem rel_removeBelow {p : Path}
    (ih : ∀ {a b : Document}, (∀ l, Option.Rel Like (a.value? l) (b.value? l)) →
      ∀ l, Option.Rel Like ((remove p a).2.value? l) ((remove p b).2.value? l))
    {x y : Option Value} (h : Option.Rel Like x y) :
    Option.Rel Like (x.map (removeBelow p)) (y.map (removeBelow p)) := by
  cases h with
  | none => exact .none
  | some hvw =>
      rename_i v w
      have hfields := hvw.fields?
      rw [Option.map_some, Option.map_some, removeBelow_eq, removeBelow_eq]
      apply Option.Rel.some
      generalize v.fields? = fields at *
      generalize w.fields? = others at *
      cases hfields with
      | none => exact hvw
      | some hab => exact like_document_iff.mpr (ih (like_document_iff.mp hab))

theorem rel_remove {p : Path} {a b : Document}
    (h : ∀ l, Option.Rel Like (a.value? l) (b.value? l)) (l : String) :
    Option.Rel Like ((remove p a).2.value? l) ((remove p b).2.value? l) := by
  induction p generalizing a b l with
  | nil => exact h l
  | cons k rest ih =>
      by_cases hrest : rest = []
      · subst hrest
        by_cases hl : k = l
        · subst hl
          simp only [remove, value?_without_self]
          exact .none
        · simp only [remove, value?_without_ne _ hl]
          exact h l
      · rw [value?_remove_cons hrest, value?_remove_cons hrest]
        by_cases hl : k = l
        · rw [if_pos hl, if_pos hl]
          exact rel_removeBelow (fun hab => ih hab) (h k)
        · rw [if_neg hl, if_neg hl]
          exact h l

/-! ### Writing in documents that are alike at a path -/

/-- Setting like values keeps documents alike at a path. -/
theorem LikeAt.set {p q : Path} {v w : Value} (hvw : Like v w) {a b : Document}
    (h : LikeAt q a b) : LikeAt q (set v p a) (set w p b) := by
  induction p generalizing q a b with
  | nil => exact h
  | cons k p ih =>
      cases q with
      | nil => exact .none
      | cons l q =>
          by_cases hl : k = l
          · subst hl
            by_cases hp : p = []
            · subst hp
              exact likeAt_of_head (rel_put hvw fun hk => absurd rfl hk) q
            · rw [set_cons hp, set_cons hp]
              by_cases hq : q = []
              · -- the field itself is read, and not something inside it
                subst hq
                have hbelow := rel_set (p := p) hvw (rel_child h)
                exact rel_put (like_document_iff.mpr hbelow) fun _ => h
              · rw [LikeAt, get?_cons hq, get?_cons hq] at *
                rw [child_put_self, child_put_self]
                exact ih h
          · have hapart : Path.Apart (k :: p) (l :: q) := Path.apart_cons_iff.mpr (Or.inl hl)
            rw [LikeAt, get?_set_of_apart v hapart, get?_set_of_apart w hapart]
            exact h

theorem LikeAt.remove {p q : Path} {a b : Document} (h : LikeAt q a b) :
    LikeAt q (remove p a).2 (remove p b).2 := by
  induction p generalizing q a b with
  | nil => exact h
  | cons k p ih =>
      cases q with
      | nil => exact .none
      | cons l q =>
          by_cases hl : k = l
          · subst hl
            by_cases hp : p = []
            · subst hp
              apply likeAt_of_head
              simp only [Document.remove, value?_without_self]
              exact .none
            · by_cases hq : q = []
              · subst hq
                rw [LikeAt, get?, get?, value?_remove_cons hp, value?_remove_cons hp, if_pos rfl,
                  if_pos rfl]
                exact rel_removeBelow (fun hab => rel_remove hab) h
              · rw [LikeAt, get?_cons hq, get?_cons hq] at *
                rw [child_remove_cons hp, child_remove_cons hp]
                exact ih h
          · have hapart : Path.Apart (k :: p) (l :: q) := Path.apart_cons_iff.mpr (Or.inl hl)
            rw [LikeAt, get?_remove_of_apart hapart, get?_remove_of_apart hapart]
            exact h

end Document

end DocumentBase
