import DocumentBase.Pipeline.Execution
import DocumentBase.Proofs.Value.Likeness

/-!
# Joins on rows that are alike

Which documents a join attaches depends on the values at its field only, and into how many
rows an output is unwound on the values there.  Rows that are alike at these places stay alike,
also when other joins write to one of them alone, as long as they write somewhere else.
-/

namespace DocumentBase

open Value Document

/-- Two rows are alike at some dotted paths. -/
def LikeOn (paths : List String) (r s : Document) : Prop :=
  ∀ path ∈ paths, LikeAt (Path.ofString path) r s

/-- Writing at one dotted path is not noticed at the other. -/
def ApartPaths (path other : String) : Prop :=
  Path.Apart (Path.ofString path) (Path.ofString other)

instance (path other : String) : Decidable (ApartPaths path other) :=
  inferInstanceAs (Decidable (Path.Apart _ _))

namespace Join

variable {j : Join} {r s : Document}

/-- A row refers to the items of an array at the field, to a single value there, or to nothing. -/
theorem references_eq (row : Document) :
    j.references row = ((row.at? j.field).map fun v => v.items?.getD [v]).getD [] := by
  rw [references]
  cases row.at? j.field with
  | none => rfl
  | some v => cases v <;> rfl

theorem forall₂_references (h : LikeAt (Path.ofString j.field) r s) :
    List.Forall₂ Like (j.references r) (j.references s) := by
  rw [references_eq, references_eq, at?, at?]
  rw [LikeAt] at h
  generalize get? (Path.ofString j.field) r = x at *
  generalize get? (Path.ofString j.field) s = y at *
  cases h with
  | none => exact .nil
  | some hvw =>
      rename_i v w
      have hitems := hvw.items?
      simp only [Option.map_some, Option.getD_some]
      generalize v.items? = vs at *
      generalize w.items? = ws at *
      cases hitems with
      | none => exact .cons hvw .nil
      | some hboth => exact hboth

/-- A join attaches the same documents to rows that are alike at its field. -/
theorem attached_congr (h : LikeAt (Path.ofString j.field) r s) (targets : List Document) :
    j.attached targets r = j.attached targets s := by
  have haccepts : j.accepts (j.references r) = j.accepts (j.references s) := by
    funext target
    have hany : ∀ v : Value, ((j.references r).any fun reference => v.same reference) =
        (j.references s).any fun reference => v.same reference := by
      intro v
      exact any_congr (forall₂_references h) fun _ _ hxy => hxy.same_right v
    simp only [accepts, hany]
  rw [attached, attached, haccepts]

/-- A join makes like rows of like ones, at paths where they are alike. -/
theorem likeAt_run {q : Path} (hfield : LikeAt (Path.ofString j.field) r s) (h : LikeAt q r s)
    (targets : List Document) : LikeAt q (j.run targets r) (j.run targets s) := by
  rw [run, run, attached_congr hfield]
  exact h.set (.refl _)

theorem likeAt_output (hfield : LikeAt (Path.ofString j.field) r s) (targets : List Document) :
    LikeAt (Path.ofString j.output) (j.run targets r) (j.run targets s) := by
  have hpath := Path.ofString_ne_nil j.output
  rw [run, run, attached_congr hfield, LikeAt, setAt, setAt, get?_set_self _ hpath,
    get?_set_self _ hpath]
  exact .some (.refl _)

/-- A join is not noticed at a path that parts from its output. -/
theorem likeAt_run_left {q : Path} (hapart : Path.Apart (Path.ofString j.output) q)
    (h : LikeAt q r s) (targets : List Document) : LikeAt q (j.run targets r) s := by
  rw [run, setAt, LikeAt, get?_set_of_apart _ hapart]
  exact h

/-! ### Several joins -/

/-- Joins in this order do not disturb each other: what is not unwound is not written over the
field of a later join that is, nor over the output of an earlier one. -/
def Undisturbed (first later : Join) : Prop :=
  (first.unwound = false → later.unwound = true → ApartPaths first.output later.field) ∧
    (first.unwound = true → later.unwound = false → ApartPaths later.output first.output)

instance (first later : Join) : Decidable (Undisturbed first later) :=
  inferInstanceAs (Decidable (_ ∧ _))

/-- A row after several joins. -/
def runAll (collections : Collections) (joins : List Join) (row : Document) : Document :=
  joins.foldl (fun row j => j.run (collections.rows j.collection) row) row

def fieldsOf (joins : List Join) : List String :=
  (joins.filter (·.unwound)).map (·.field)

def outputsOf (joins : List Join) : List String :=
  (joins.filter (·.unwound)).map (·.output)

theorem fieldsOf_cons_of_pos {rest : List Join} (h : j.unwound = true) :
    fieldsOf (j :: rest) = j.field :: fieldsOf rest := by
  simp [fieldsOf, h]

theorem fieldsOf_cons_of_neg {rest : List Join} (h : ¬ j.unwound = true) :
    fieldsOf (j :: rest) = fieldsOf rest := by
  simp [fieldsOf, h]

/-- After all joins, and after those alone that are unwound, the outputs of the latter are
alike. -/
theorem likeOn_runAll (collections : Collections) {joins : List Join} (done : List String)
    (hundisturbed : joins.Pairwise Undisturbed)
    (hfields : LikeOn (fieldsOf joins) r s) (hdone : LikeOn done r s)
    (hapart : ∀ path ∈ done, ∀ j ∈ joins, j.unwound = false → ApartPaths j.output path) :
    LikeOn (done ++ outputsOf joins) (runAll collections joins r)
      (runAll collections (joins.filter (·.unwound)) s) := by
  induction joins generalizing done r s with
  | nil => simpa [outputsOf, runAll] using hdone
  | cons j rest ih =>
      obtain ⟨hj, hrest⟩ := List.pairwise_cons.mp hundisturbed
      have hlater : ∀ path ∈ done, ∀ k ∈ rest, k.unwound = false →
          ApartPaths k.output path := fun path hpath k hk => hapart path hpath k (by simp [hk])
      by_cases hunwound : j.unwound = true
      · rw [fieldsOf_cons_of_pos hunwound] at hfields
        have hfield : LikeAt (Path.ofString j.field) r s := hfields j.field (by simp)
        have hfields' : LikeOn (fieldsOf rest) (j.run (collections.rows j.collection) r)
            (j.run (collections.rows j.collection) s) := fun path hpath =>
          likeAt_run hfield (hfields path (by simp [hpath])) _
        have hdone' : LikeOn (done ++ [j.output]) (j.run (collections.rows j.collection) r)
            (j.run (collections.rows j.collection) s) := by
          intro path hpath
          rcases List.mem_append.mp hpath with hpath | hpath
          · exact likeAt_run hfield (hdone path hpath) _
          · rw [List.mem_singleton.mp hpath]
            exact likeAt_output hfield _
        have hlater' : ∀ path ∈ done ++ [j.output], ∀ k ∈ rest, k.unwound = false →
            ApartPaths k.output path := by
          intro path hpath k hk hplain
          rcases List.mem_append.mp hpath with hpath | hpath
          · exact hlater path hpath k hk hplain
          · rw [List.mem_singleton.mp hpath]
            exact (hj k hk).2 hunwound hplain
        have hall := ih (done ++ [j.output]) hrest hfields' hdone' hlater'
        simpa [outputsOf, List.filter_cons_of_pos hunwound, runAll] using hall
      · have hplain : j.unwound = false := by simpa using hunwound
        rw [fieldsOf_cons_of_neg hunwound] at hfields
        have hfields' : LikeOn (fieldsOf rest) (j.run (collections.rows j.collection) r) s := by
          intro path hpath
          obtain ⟨k, hk, rfl⟩ := List.mem_map.mp hpath
          rw [List.mem_filter] at hk
          exact likeAt_run_left ((hj k hk.1).1 hplain hk.2) (hfields k.field hpath) _
        have hdone' : LikeOn done (j.run (collections.rows j.collection) r) s := fun path hpath =>
          likeAt_run_left (hapart path hpath j (by simp) hplain) (hdone path hpath) _
        have hall := ih done hrest hfields' hdone' hlater
        simpa [outputsOf, List.filter_cons_of_neg hunwound, runAll] using hall

end Join

/-! ### Unwinding -/

/-- A row is unwound into rows with one item each, or stays without its array if that is empty, or
stays as it is. -/
theorem unwindRow_eq (path : String) (row : Document) :
    unwindRow path row =
      match (row.at? path).bind Value.items? with
      | some [] => [row.removeAt path]
      | some items => items.map fun item => row.setAt path item
      | none => [row] := by
  rw [unwindRow]
  cases row.at? path with
  | none => rfl
  | some v =>
      cases v with
      | array items => cases items <;> rfl
      | _ => rfl

/-- Rows that are alike at an output are unwound into as many rows, which are alike in pairs. -/
theorem forall₂_unwindRow {path : String} {paths : List String} {r s : Document}
    (hpath : path ∈ paths) (h : LikeOn paths r s) :
    List.Forall₂ (LikeOn paths) (unwindRow path r) (unwindRow path s) := by
  have hitems : Option.Rel (List.Forall₂ Like) ((r.at? path).bind Value.items?)
      ((s.at? path).bind Value.items?) := by
    have hread := h path hpath
    rw [LikeAt] at hread
    rw [at?, at?]
    generalize get? (Path.ofString path) r = x at *
    generalize get? (Path.ofString path) s = y at *
    cases hread with
    | none => exact .none
    | some hvw => exact hvw.items?
  rw [unwindRow_eq, unwindRow_eq]
  generalize (r.at? path).bind Value.items? = vs at *
  generalize (s.at? path).bind Value.items? = ws at *
  cases hitems with
  | none => exact .cons h .nil
  | some hboth =>
      cases hboth with
      | nil => exact .cons (fun other hother => (h other hother).remove) .nil
      | cons hfirst hrest =>
          exact forall₂_map (.cons hfirst hrest) fun v w hvw other hother =>
            (h other hother).set hvw

/-- The rows that a row is unwound into at several paths. -/
def unwindAll (paths : List String) (rows : List Document) : List Document :=
  paths.foldl (fun rows path => rows.flatMap (unwindRow path)) rows

theorem forall₂_unwindAll {unwound paths : List String} (hunwound : ∀ path ∈ unwound, path ∈ paths)
    {rs ss : List Document} (h : List.Forall₂ (LikeOn paths) rs ss) :
    List.Forall₂ (LikeOn paths) (unwindAll unwound rs) (unwindAll unwound ss) := by
  induction unwound generalizing rs ss with
  | nil => exact h
  | cons path rest ih =>
      have hpath := hunwound path (by simp)
      apply ih fun other hother => hunwound other (by simp [hother])
      exact forall₂_flatMap h fun _ _ hrs => forall₂_unwindRow hpath hrs

end DocumentBase
