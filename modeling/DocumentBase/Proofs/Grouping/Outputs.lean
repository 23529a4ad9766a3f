import Mathlib.Data.List.Nodup
import DocumentBase.Proofs.Grouping

/-!
# Outputs of groups

An output has the accumulator that was set last under its name.  Outputs that are set one after
the other come in the order in which their names were used first.
-/

namespace DocumentBase.GroupSpec

/-- What was given last under a name. -/
def lastUnder (name : String) (entries : List (String × Accumulator)) : Option Accumulator :=
  (entries.filter (·.1 = name)).getLast?.map Prod.snd

/-- The accumulator whose value an output has: of several with one name the last. -/
def output? (g : GroupSpec) (name : String) : Option Accumulator :=
  lastUnder name g.accumulators

def names (g : GroupSpec) : List String :=
  g.accumulators.map Prod.fst

/-- Sets the accumulators of outputs, one after the other. -/
def upsertAll (g : GroupSpec) (entries : List (String × Accumulator)) : GroupSpec :=
  entries.foldl (fun g entry => g.upsert entry.1 entry.2) g

variable {g : GroupSpec} {name : String} {accumulator : Accumulator}
  {entries : List (String × Accumulator)}

/-! ### What was given last -/

theorem lastUnder_concat (entry : String × Accumulator) :
    lastUnder name (entries ++ [entry]) =
      if entry.1 = name then some entry.2 else lastUnder name entries := by
  rw [lastUnder, List.filter_append]
  by_cases hname : entry.1 = name
  · simp [hname]
  · simp [hname, lastUnder]

theorem isSome_lastUnder_iff :
    (lastUnder name entries).isSome = true ↔ name ∈ entries.map Prod.fst := by
  simp [lastUnder]

theorem mem_of_lastUnder (h : lastUnder name entries = some accumulator) :
    (name, accumulator) ∈ entries := by
  obtain ⟨entry, hentry, rfl⟩ := Option.map_eq_some_iff.mp h
  obtain ⟨hmem, hname⟩ := List.mem_filter.mp (List.mem_of_getLast? hentry)
  rw [decide_eq_true_eq] at hname
  exact hname ▸ hmem

/-- Where names are not used twice, there is nothing else than what was given last. -/
theorem lastUnder_eq_some_iff (h : (entries.map Prod.fst).Nodup) :
    lastUnder name entries = some accumulator ↔ (name, accumulator) ∈ entries := by
  refine ⟨mem_of_lastUnder, fun hmem => ?_⟩
  have hsome := isSome_lastUnder_iff.mpr (List.mem_map_of_mem (f := Prod.fst) hmem)
  obtain ⟨last, hlast⟩ := Option.isSome_iff_exists.mp hsome
  have heq := List.inj_on_of_nodup_map h (mem_of_lastUnder hlast) hmem rfl
  exact hlast.trans (congrArg some (congrArg Prod.snd heq))

theorem hasOutput_iff : g.hasOutput name = true ↔ name ∈ g.names := by
  simp [hasOutput, names]

/-- The value of an output, and the key where no output takes its place. -/
theorem value?_summary_eq (key : Value) (members : List Document) :
    (g.summary key members).value? name =
      ((g.output? name).map fun accumulator => accumulator.apply members).or
        (Document.value? [(Item.idField, key)] name) := by
  rw [value?_summary, output?, lastUnder, Option.map_map]
  rfl

/-- The row for a group holds every output under its name. -/
theorem value?_summary_of_output (h : g.output? name = some accumulator) (key : Value)
    (members : List Document) :
    (g.summary key members).value? name = some (accumulator.apply members) := by
  rw [value?_summary_eq, h]
  rfl

/-! ### Setting outputs -/

theorem key_upsert (name : String) (accumulator : Accumulator) :
    (g.upsert name accumulator).key = g.key := by
  unfold upsert
  split <;> rfl

/-- An output takes the place of the one with its name, or the last place. -/
theorem names_upsert (name : String) (accumulator : Accumulator) :
    (g.upsert name accumulator).names =
      if name ∈ g.names then g.names else g.names ++ [name] := by
  unfold upsert
  by_cases hname : g.hasOutput name = true
  · rw [if_pos hname, if_pos (hasOutput_iff.mp hname), names, names, List.map_map]
    refine List.map_congr_left fun entry _ => ?_
    rw [Function.comp_apply]
    split
    · exact Eq.symm ‹_›
    · rfl
  · rw [if_neg hname, if_neg (mt hasOutput_iff.mpr hname), names, List.map_append]
    rfl

/-- An output that is there is set wherever it stands. -/
theorem lastUnder_set (h : name ∈ entries.map Prod.fst) :
    lastUnder name (entries.map fun entry =>
      if entry.1 = name then (name, accumulator) else entry) = some accumulator := by
  induction entries using List.reverseRecOn with
  | nil => cases h
  | append_singleton entries entry ih =>
      rw [List.map_append, List.map_singleton, lastUnder_concat]
      by_cases hentry : entry.1 = name
      · rw [if_pos hentry, if_pos rfl]
      · rw [if_neg hentry, if_neg hentry]
        rw [List.map_append, List.mem_append, List.map_singleton, List.mem_singleton] at h
        exact ih (h.resolve_right (Ne.symm hentry))

/-- What is set under a name is found there, and other outputs are as before. -/
theorem output?_upsert (name other : String) (accumulator : Accumulator) :
    (g.upsert other accumulator).output? name =
      if other = name then some accumulator else g.output? name := by
  by_cases hother : other = name
  · subst hother
    rw [if_pos rfl, output?, upsert]
    split
    · exact lastUnder_set (hasOutput_iff.mp ‹_›)
    · exact (lastUnder_concat _).trans (if_pos rfl)
  · rw [if_neg hother, output?, lastUnder, filter_upsert_ne hother]
    rfl

theorem key_upsertAll : (g.upsertAll entries).key = g.key := by
  induction entries generalizing g with
  | nil => rfl
  | cons entry rest ih => exact ih.trans (key_upsert _ _)

theorem upsertAll_concat (entry : String × Accumulator) :
    g.upsertAll (entries ++ [entry]) = (g.upsertAll entries).upsert entry.1 entry.2 :=
  List.foldl_concat _ _ _ _

/-- Outputs are set without a look at the key. -/
theorem upsertAll_withKey (key : GroupKey) :
    ({ g with key } : GroupSpec).upsertAll entries = { g.upsertAll entries with key } := by
  have hupsert : ∀ (g : GroupSpec) (name : String) (accumulator : Accumulator),
      ({ g with key } : GroupSpec).upsert name accumulator =
        { g.upsert name accumulator with key } := by
    intro g name accumulator
    have houtput : ({ g with key } : GroupSpec).hasOutput name = g.hasOutput name := rfl
    rw [upsert, upsert, houtput]
    split <;> rfl
  induction entries generalizing g with
  | nil => rfl
  | cons entry rest ih =>
      rw [upsertAll, List.foldl_cons, hupsert]
      exact ih

theorem eraseDups_concat (names : List String) (name : String) :
    (names ++ [name]).eraseDups =
      if name ∈ names.eraseDups then names.eraseDups else names.eraseDups ++ [name] := by
  rw [List.eraseDups_append]
  by_cases hname : name ∈ names
  · simp [hname, List.removeAll]
  · simp [hname, List.removeAll, List.eraseDups_cons]

/-- Outputs that are set again keep their first places. -/
theorem names_upsertAll (key : GroupKey) :
    ((ofKey key).upsertAll entries).names = (entries.map Prod.fst).eraseDups := by
  induction entries using List.reverseRecOn with
  | nil => rfl
  | append_singleton entries entry ih =>
      rw [upsertAll_concat, names_upsert, ih, List.map_append, List.map_singleton,
        eraseDups_concat]

theorem nodup_names_upsertAll (key : GroupKey) (entries : List (String × Accumulator)) :
    ((ofKey key).upsertAll entries).names.Nodup := by
  induction entries using List.reverseRecOn with
  | nil => exact List.nodup_nil
  | append_singleton entries entry ih =>
      rw [upsertAll_concat, names_upsert]
      split
      · exact ih
      · rename_i hname
        exact List.concat_eq_append ▸ List.Nodup.concat hname ih

/-- Of several outputs with one name the last one counts. -/
theorem output?_upsertAll (key : GroupKey) (entries : List (String × Accumulator))
    (name : String) : ((ofKey key).upsertAll entries).output? name = lastUnder name entries := by
  induction entries using List.reverseRecOn with
  | nil => rfl
  | append_singleton entries entry ih =>
      rw [upsertAll_concat, output?_upsert, ih, lastUnder_concat]

end DocumentBase.GroupSpec
