import Mathlib.Data.List.Nodup
import DocumentBase.Filter
import DocumentBase.Proofs.Value.NormalForm

/-!
# Calls that are skipped

A filter remembers which assertion last wrote each operator and skips an assertion that would write
what is there.  Beside it stands a filter that never skips: whatever the calls are, both have the
same error and the same criteria, NaNs being alike.  What carries the comparison is that every
remembered assertion still has its operand in the criteria.  The same holds of a filter that
compares digests of assertions in place of the assertions, as long as no digests collide.
-/

namespace DocumentBase

/-! ### Operands in criteria -/

namespace Criteria

/-- The operand that criteria have for an operator of a field. -/
def operand? (c : Criteria) (field operator : String) : Option Value :=
  ((c.document.value? field).bind Value.fields?).bind fun operators =>
    Document.value? operators operator

theorem operand?_merge_self (c : Criteria) (field operator : String) (operand : Value)
    (other : String) :
    (c.merge field operator operand).operand? field other =
      if operator = other then some operand else c.operand? field other := by
  have hput : ∀ operators : Document, Document.value? (operators.put operator operand) other =
      if operator = other then some operand else operators.value? other := by
    intro operators
    split
    next h => rw [← h, Document.value?_put_self]
    next h => exact operators.value?_put_ne operand h
  simp only [operand?, merge]
  cases c.document.value? field with
  | none => simp [Value.fields?, Document.value?]
  | some v => cases v <;> simp [Value.fields?, Document.value?, hput]

theorem operand?_merge_ne (c : Criteria) {field elsewhere : String} (hne : field ≠ elsewhere)
    (operator : String) (operand : Value) (other : String) :
    (c.merge field operator operand).operand? elsewhere other = c.operand? elsewhere other := by
  simp only [operand?, merge]
  split <;> rw [Document.value?_put_ne _ _ hne]

/-- Writing an operand that is there changes nothing. -/
theorem merge_of_operand? {c : Criteria} {field operator : String} {operand : Value}
    (h : c.operand? field operator = some operand) : c.merge field operator operand = c := by
  obtain ⟨operators, hfields, hoperand⟩ := Option.bind_eq_some_iff.mp h
  obtain ⟨v, hv, hoperators⟩ := Option.bind_eq_some_iff.mp hfields
  cases v with
  | document fields =>
      cases hoperators
      simp only [merge, hv, Document.put_of_value? hoperand, Document.put_of_value? hv]
  | _ => cases hoperators

/-- The operators of one field, written one after the other. -/
def mergeAll (c : Criteria) (field : String) (writes : List (String × Value)) : Criteria :=
  writes.foldl (fun c (operator, operand) => c.merge field operator operand) c

theorem mergeAll_cons (c : Criteria) (field operator : String) (operand : Value)
    (rest : List (String × Value)) :
    c.mergeAll field ((operator, operand) :: rest) =
      (c.merge field operator operand).mergeAll field rest := rfl

section MergeAll

variable {c : Criteria} {field operator : String} {operand : Value}
  {writes : List (String × Value)}

theorem operand?_mergeAll_of_not_mem (h : operator ∉ writes.map Prod.fst) :
    (c.mergeAll field writes).operand? field operator = c.operand? field operator := by
  induction writes generalizing c with
  | nil => rfl
  | cons first rest ih =>
      rw [List.map_cons, List.mem_cons, not_or] at h
      rw [mergeAll_cons, ih h.2, operand?_merge_self, if_neg (Ne.symm h.1)]

/-- Of operators that are all different each one has its operand afterwards. -/
theorem operand?_mergeAll_of_mem (hdistinct : (writes.map Prod.fst).Nodup)
    (h : (operator, operand) ∈ writes) :
    (c.mergeAll field writes).operand? field operator = some operand := by
  induction writes generalizing c with
  | nil => cases h
  | cons first rest ih =>
      obtain ⟨hfirst, hrest⟩ := List.nodup_cons.mp hdistinct
      rw [mergeAll_cons]
      rcases List.mem_cons.mp h with rfl | hmem
      · rw [operand?_mergeAll_of_not_mem hfirst, operand?_merge_self, if_pos rfl]
      · exact ih hrest hmem

theorem operand?_mergeAll_ne {elsewhere : String} (hne : field ≠ elsewhere) :
    (c.mergeAll field writes).operand? elsewhere operator = c.operand? elsewhere operator := by
  induction writes generalizing c with
  | nil => rfl
  | cons first rest ih => rw [mergeAll_cons, ih, operand?_merge_ne c hne]

/-- Operators that are there with their operands are merged without a change. -/
theorem mergeAll_of_operand?
    (h : ∀ operator operand, (operator, operand) ∈ writes →
      c.operand? field operator = some operand) : c.mergeAll field writes = c := by
  induction writes with
  | nil => rfl
  | cons first rest ih =>
      rw [mergeAll_cons, merge_of_operand? (h first.1 first.2 List.mem_cons_self)]
      exact ih fun operator operand hmem => h operator operand (List.mem_cons_of_mem first hmem)

end MergeAll

/-! ### Normal forms of criteria -/

/-- Criteria with one NaN in place of all of them. -/
def normal (c : Criteria) : Criteria :=
  ⟨Value.normalFields c.document⟩

theorem normal_eq_iff {c e : Criteria} :
    c.normal = e.normal ↔ Value.identicalFields c.document e.document = true := by
  rw [Value.identicalFields_iff, normal, normal, Criteria.mk.injEq]

/-- Normal forms are taken of the operands alone. -/
theorem operand?_normal (c : Criteria) (field operator : String) :
    c.normal.operand? field operator = (c.operand? field operator).map Value.normal := by
  simp only [operand?, normal, Document.value?_normal]
  cases c.document.value? field with
  | none => rfl
  | some v =>
      simp only [Option.map_some, Option.bind_some, Value.fields?_normal]
      cases v.fields? with
      | none => rfl
      | some operators => exact Document.value?_normal operators operator

theorem normal_merge (c : Criteria) (field operator : String) (operand : Value) :
    (c.merge field operator operand).normal = c.normal.merge field operator operand.normal := by
  simp only [merge, normal, Document.value?_normal]
  cases c.document.value? field with
  | none => simp [Document.normal_put, Value.normal, Value.normalFields]
  | some v =>
      cases v <;> simp [Document.normal_put, Value.normal, Value.normalFields]

theorem normal_mergeAll (c : Criteria) (field : String) (writes : List (String × Value)) :
    (c.mergeAll field writes).normal = c.normal.mergeAll field (Value.normalFields writes) := by
  induction writes generalizing c with
  | nil => rfl
  | cons first rest ih =>
      rw [mergeAll_cons, ih, normal_merge]
      rfl

theorem isEmpty_normal (c : Criteria) : c.normal.isEmpty = c.isEmpty := by
  obtain ⟨document⟩ := c
  cases document <;> rfl

theorem normal_combine (combinator : Combinator) (c other : Criteria) :
    (combine combinator c other).normal = combine combinator c.normal other.normal := by
  have hpair : (⟨[(combinator.key, .array [.document c.document, .document other.document])]⟩ :
      Criteria).normal = ⟨[(combinator.key,
        .array [.document c.normal.document, .document other.normal.document])]⟩ := rfl
  simp only [combine, isEmpty_normal]
  split
  · rfl
  split
  · rfl
  obtain ⟨document⟩ := c
  match document with
  | [] => exact hpair
  | [(key, value)] =>
      cases value with
      | array children =>
          simp only [normal, Value.normalFields, Value.normal]
          split
          · simp [Value.normalFields, Value.normal, Value.normalItems_append, Value.normalItems]
          · exact hpair
      | _ => exact hpair
  | (key, value) :: second :: rest => cases value <;> exact hpair

theorem normal_not (c other : Criteria) : (c.not other).normal = c.normal.not other.normal := by
  simp only [Criteria.not, isEmpty_normal]
  split
  · rfl
  simp only [normal, Document.value?_normal]
  cases c.document.value? Combinator.nor.key with
  | none => simp [Document.normal_put, Value.normal, Value.normalItems]
  | some v =>
      cases v <;>
        simp [Document.normal_put, Value.normal, Value.normalItems, Value.normalItems_append]

end Criteria

/-! ### Assertions of calls -/

namespace Filter

/-- What a call asserts of a field.  Combinators and membership in no list assert nothing. -/
def Call.assertion? : Call → Option Assertion
  | .compare comparison field operand => some (comparing comparison field operand)
  | .between field low high => some (bounding field low high)
  | .text placement field part => some (placing placement field part)
  | .among comparison field values =>
    if (asItems values).isEmpty then none
    else some (comparing comparison field (.array (asItems values)))
  | .and _ => none
  | .or _ => none
  | .not _ => none

/-- The assertions that calls make. -/
inductive Asserted : Assertion → Prop
  | comparing (comparison : Comparison) (field : String) (operand : Value) :
      Asserted (comparing comparison field operand)
  | bounding (field : String) (low high : Value) : Asserted (bounding field low high)
  | placing (placement : Placement) (field text : String) :
      Asserted (placing placement field text)

/-- What a call asserts is an assertion that calls make. -/
theorem Call.asserted {c : Call} {a : Assertion} (h : c.assertion? = some a) : Asserted a := by
  cases c with
  | compare comparison field operand => cases h; exact .comparing comparison field operand
  | between field low high => cases h; exact .bounding field low high
  | text placement field text => cases h; exact .placing placement field text
  | among comparison field values =>
      obtain ⟨-, h⟩ := Option.ite_none_left_eq_some.mp h
      cases h
      exact .comparing comparison field _
  | and | or | not => cases h

/-- No assertion writes an operator twice. -/
theorem Asserted.distinct {a : Assertion} (h : Asserted a) : (a.writes.map Prod.fst).Nodup := by
  cases h with
  | comparing => simp [Filter.comparing]
  | bounding | placing => simp [Filter.bounding, Filter.placing]

theorem comparison_eq_of_operator_eq {c d : Comparison} (h : c.operator = d.operator) : c = d :=
  Option.some.inj (by
    rw [← Comparison.ofOperator?_operator c, h, Comparison.ofOperator?_operator])

theorem Placement.eq_of_method_eq {p q : Placement} (h : p.method = q.method) : p = q := by
  cases p <;> cases q <;> first | rfl | exact absurd h (by decide)

/-- No method for texts is called like the one for ranges. -/
theorem Placement.method_ne_between (p : Placement) : p.method ≠ "between" := by
  cases p <;> decide

theorem operator_ne_between (c : Comparison) : c.operator ≠ "between" := by
  cases c <;> decide

theorem operator_ne_method (c : Comparison) (p : Placement) : c.operator ≠ p.method := by
  cases c <;> cases p <;> decide

/-- What an assertion writes is settled by its signature, NaNs being alike: the methods tell the
kinds of assertion apart, and the arguments settle the operands. -/
theorem Asserted.writes_eq {a b : Assertion} (ha : Asserted a) (hb : Asserted b)
    (h : a.signature.same b.signature = true) :
    Value.normalFields a.writes = Value.normalFields b.writes := by
  obtain ⟨hmethod, harguments⟩ : a.method = b.method ∧
      Value.normalItems a.arguments = Value.normalItems b.arguments := by
    simpa [Signature.same, Assertion.signature, Value.identicalItems_iff] using h
  cases ha with
  | comparing comparison field operand =>
      cases hb with
      | comparing other _ operand' =>
          cases comparison_eq_of_operator_eq hmethod
          simpa [Filter.comparing, Value.normalItems, Value.normalFields] using harguments
      | bounding => exact absurd hmethod (operator_ne_between comparison)
      | placing placement => exact absurd hmethod (operator_ne_method comparison placement)
  | bounding field low high =>
      cases hb with
      | comparing comparison => exact absurd hmethod.symm (operator_ne_between comparison)
      | bounding => simpa [Filter.bounding, Value.normalItems, Value.normalFields] using harguments
      | placing placement => exact absurd hmethod.symm placement.method_ne_between
  | placing placement field text =>
      cases hb with
      | comparing comparison => exact absurd hmethod.symm (operator_ne_method comparison placement)
      | bounding => exact absurd hmethod placement.method_ne_between
      | placing other _ text' =>
          cases Placement.eq_of_method_eq hmethod
          obtain rfl : text = text' := by
            simpa [Filter.placing, Value.normalItems, Value.normal] using harguments
          rfl

/-- Assertions with the same signature write the same operands, NaNs being alike. -/
theorem Asserted.operand_eq {a b : Assertion} (ha : Asserted a) (hb : Asserted b)
    (h : a.signature.same b.signature = true) {operator : String} {v w : Value}
    (hv : (operator, v) ∈ a.writes) (hw : (operator, w) ∈ b.writes) : v.normal = w.normal := by
  have hwrites := ha.writes_eq hb h
  rw [Value.normalFields_eq_map, Value.normalFields_eq_map] at hwrites
  have hmem : (operator, v.normal) ∈ b.writes.map fun write => (write.1, write.2.normal) :=
    hwrites ▸ List.mem_map_of_mem hv
  obtain ⟨⟨key, u⟩, hu, hpair⟩ := List.mem_map.mp hmem
  obtain ⟨hkey, hnormal⟩ := Prod.mk.inj hpair
  have hsame : (key, u) = (operator, w) := List.inj_on_of_nodup_map hb.distinct hu hw hkey
  rw [← hnormal, (Prod.mk.inj hsame).2]

/-! ### Filters that skip what is alike -/

/-- Whether every operator that an assertion writes was last written by an assertion that counts
as alike. -/
def repeatsUnder (alike : Signature → Signature → Bool) (f : Filter) (a : Assertion) : Bool :=
  a.writes.all fun (operator, _) =>
    match f.applied.lookup (operator, a.field) with
    | some last => alike last a.signature
    | none => false

theorem repeatsUnder_iff {alike : Signature → Signature → Bool} {f : Filter} {a : Assertion} :
    f.repeatsUnder alike a = true ↔ ∀ operator operand, (operator, operand) ∈ a.writes →
      ∃ last, f.applied.lookup (operator, a.field) = some last ∧
        alike last a.signature = true := by
  rw [repeatsUnder, List.all_eq_true, Prod.forall]
  refine forall₃_congr fun operator operand _ => ?_
  dsimp only
  cases f.applied.lookup (operator, a.field) <;> simp

/-- An assertion on a filter that skips as told. -/
def assertUnless (skips : Filter → Assertion → Bool) (f : Filter) (a : Assertion) : Filter :=
  if f.error.isSome then f
  else
    match a.check with
    | .error e => f.fail e
    | .ok () => if skips f a then f else f.write a

/-- One call on a filter that skips as told. -/
def callUnless (skips : Filter → Assertion → Bool) (f : Filter) : Call → Filter
  | .compare comparison field operand => f.assertUnless skips (comparing comparison field operand)
  | .between field low high => f.assertUnless skips (bounding field low high)
  | .text placement field text => f.assertUnless skips (placing placement field text)
  | .among comparison field values =>
    if (asItems values).isEmpty then f.fail (.validation (.emptySet comparison.operator field))
    else f.assertUnless skips (comparing comparison field (.array (asItems values)))
  | .and other => f.combine .and other
  | .or other => f.combine .or other
  | .not other => f.combine .not other

/-- Calls one after the other on a filter that skips as told. -/
def callsUnless (skips : Filter → Assertion → Bool) (f : Filter) (cs : List Call) : Filter :=
  cs.foldl (callUnless skips) f

/-- Calls one after the other on a filter that writes whatever is asserted. -/
def unskipped (f : Filter) (cs : List Call) : Filter :=
  f.callsUnless (fun _ _ => false) cs

/-- A filter skips the calls that were last made with the same signatures. -/
theorem calls_eq_callsUnless (f : Filter) (cs : List Call) :
    f.calls cs = f.callsUnless (repeatsUnder Signature.same) cs := by
  have hcall : call = callUnless (repeatsUnder Signature.same) := by
    funext f c
    cases c <;> rfl
  rw [calls, callsUnless, hcall]

/-- What a filter remembers stands in its criteria: each remembered signature is that of an
assertion whose operand is still there. -/
def Remembers (made : Assertion → Prop) (f : Filter) : Prop :=
  ∀ operator field last, f.applied.lookup (operator, field) = some last →
    ∃ a operand, made a ∧ a.signature = last ∧ (operator, operand) ∈ a.writes ∧
      f.criteria.operand? field operator = some operand

theorem lookup_write (f : Filter) (a : Assertion) (operator field : String) :
    (f.write a).applied.lookup (operator, field) =
      if field = a.field ∧ operator ∈ a.writes.map Prod.fst then some a.signature
      else f.applied.lookup (operator, field) := by
  simp only [write]
  generalize f.applied = applied
  induction a.writes generalizing applied with
  | nil => simp
  | cons first rest ih =>
      have hkey : ((operator, field) == (first.1, a.field)) =
          decide (operator = first.1 ∧ field = a.field) := by
        rw [Bool.eq_iff_iff, beq_iff_eq, decide_eq_true_iff, Prod.mk.injEq]
      rw [List.foldl_cons, ih, List.lookup_cons, hkey, List.map_cons]
      grind

/-- What is remembered of an assertion stands in the criteria once it is written. -/
theorem Remembers.write {made : Assertion → Prop} {f : Filter} (hf : Remembers made f)
    {a : Assertion} (ha : made a) (hdistinct : (a.writes.map Prod.fst).Nodup) :
    Remembers made (f.write a) := by
  intro operator field last hlast
  have hcriteria : (f.write a).criteria = f.criteria.mergeAll a.field a.writes := rfl
  rw [lookup_write] at hlast
  rw [hcriteria]
  split at hlast
  next h =>
    obtain ⟨rfl, hoperator⟩ := h
    cases hlast
    obtain ⟨⟨_, operand⟩, hmem, rfl⟩ := List.mem_map.mp hoperator
    exact ⟨a, operand, ha, rfl, hmem, Criteria.operand?_mergeAll_of_mem hdistinct hmem⟩
  next h =>
    obtain ⟨b, operand, hb, hsignature, hmem, hoperand⟩ := hf operator field last hlast
    refine ⟨b, operand, hb, hsignature, hmem, ?_⟩
    by_cases hfield : field = a.field
    · subst hfield
      rw [Criteria.operand?_mergeAll_of_not_mem fun hoperator => h ⟨rfl, hoperator⟩, hoperand]
    · rw [Criteria.operand?_mergeAll_ne (Ne.symm hfield), hoperand]

/-- A filter that skips what is alike, and the filter it stands for. -/
structure Follows (made : Assertion → Prop) (f g : Filter) : Prop where
  criteria : f.criteria.normal = g.criteria.normal
  error : f.error = g.error
  remembers : Remembers made f

theorem Follows.fail {made : Assertion → Prop} {f g : Filter} (h : Follows made f g) (e : Error) :
    Follows made (f.fail e) (g.fail e) := by
  unfold Filter.fail
  rw [h.error]
  split
  · exact h
  · exact ⟨h.criteria, rfl, h.remembers⟩

/-- A combination that does not tell NaNs apart keeps two filters together.  Nothing counts as
written after it. -/
theorem Follows.combine {made : Assertion → Prop} {f g : Filter} (h : Follows made f g)
    {combination : Criteria → Criteria → Criteria}
    (hnormal : ∀ c other, (combination c other).normal = combination c.normal other.normal)
    (other : Filter) :
    Follows made (f.combine combination other) (g.combine combination other) := by
  unfold Filter.combine
  rw [h.error]
  split
  · exact h
  cases other.error with
  | some e => exact h.fail e
  | none =>
      refine ⟨?_, rfl, fun _ _ _ hlookup => nomatch hlookup⟩
      rw [hnormal, hnormal, h.criteria]

/-- Every assertion made is one that calls make, and those that count as alike are the same. -/
structure ToldApart (made : Assertion → Prop) (alike : Signature → Signature → Bool) : Prop where
  asserted : ∀ a, made a → Asserted a
  same : ∀ a b, made a → made b → alike a.signature b.signature = true →
    a.signature.same b.signature = true

section Comparing

variable {made : Assertion → Prop} {alike : Signature → Signature → Bool}
  (htold : ToldApart made alike)
include htold

/-- An assertion that is skipped would write what is there. -/
theorem Remembers.mergeAll_of_repeatsUnder {f : Filter} (hf : Remembers made f)
    {a : Assertion} (ha : made a) (hrepeats : f.repeatsUnder alike a = true) :
    f.criteria.normal.mergeAll a.field (Value.normalFields a.writes) = f.criteria.normal := by
  refine Criteria.mergeAll_of_operand? fun operator operand hmem => ?_
  rw [Value.normalFields_eq_map] at hmem
  obtain ⟨⟨_, asserted⟩, hwrite, hpair⟩ := List.mem_map.mp hmem
  cases hpair
  obtain ⟨last, hlookup, hlast⟩ := repeatsUnder_iff.mp hrepeats _ _ hwrite
  obtain ⟨b, stored, hb, rfl, hstored, hoperand⟩ := hf _ _ _ hlookup
  have hnormal : stored.normal = asserted.normal :=
    (htold.asserted b hb).operand_eq (htold.asserted a ha) (htold.same b a hb ha hlast)
      hstored hwrite
  rw [Criteria.operand?_normal, hoperand, Option.map_some, hnormal]

theorem Follows.assertUnless {f g : Filter} (h : Follows made f g) {a : Assertion}
    (ha : made a) :
    Follows made (f.assertUnless (repeatsUnder alike) a) (g.assertUnless (fun _ _ => false) a) := by
  unfold Filter.assertUnless
  rw [h.error]
  split
  · exact h
  have hwrite : (g.write a).criteria.normal =
      f.criteria.normal.mergeAll a.field (Value.normalFields a.writes) := by
    rw [h.criteria]
    exact Criteria.normal_mergeAll _ _ _
  cases a.check with
  | error e => exact h.fail e
  | ok =>
      dsimp only
      split
      next hrepeats =>
        have hthere := h.remembers.mergeAll_of_repeatsUnder htold ha hrepeats
        exact ⟨(hwrite.trans hthere).symm, h.error, h.remembers⟩
      next =>
        have hboth : (f.write a).criteria.normal = (g.write a).criteria.normal :=
          (Criteria.normal_mergeAll _ _ _).trans hwrite.symm
        exact ⟨hboth, h.error, h.remembers.write ha (htold.asserted a ha).distinct⟩

theorem Follows.callUnless {f g : Filter} (h : Follows made f g) {c : Call}
    (hc : ∀ a, c.assertion? = some a → made a) :
    Follows made (f.callUnless (repeatsUnder alike) c) (g.callUnless (fun _ _ => false) c) := by
  cases c with
  | compare | between | text => exact h.assertUnless htold (hc _ rfl)
  | among comparison field values =>
      simp only [Filter.callUnless]
      split
      next => exact h.fail _
      next hitems => exact h.assertUnless htold (hc _ (if_neg hitems))
  | and other => exact h.combine (Criteria.normal_combine .and) other
  | or other => exact h.combine (Criteria.normal_combine .or) other
  | not other => exact h.combine Criteria.normal_not other

theorem Follows.callsUnless {f g : Filter} (h : Follows made f g) {cs : List Call}
    (hcs : ∀ c ∈ cs, ∀ a, c.assertion? = some a → made a) :
    Follows made (f.callsUnless (repeatsUnder alike) cs) (g.unskipped cs) := by
  induction cs generalizing f g with
  | nil => exact h
  | cons c rest ih =>
      exact ih (h.callUnless htold (hcs c List.mem_cons_self))
        fun d hd => hcs d (List.mem_cons_of_mem c hd)

end Comparing

/-! ### Skipping cannot be seen -/

/-- Filters with the same error and, NaNs being alike, the same criteria. -/
def Alike (f g : Filter) : Prop :=
  f.error = g.error ∧ Value.identicalFields f.criteria.document g.criteria.document = true

/-- No two different assertions of some calls have the same digest. -/
def Distinguishes (digest : Signature → UInt64) (cs : List Call) : Prop :=
  ∀ c ∈ cs, ∀ d ∈ cs, ∀ a b, c.assertion? = some a → d.assertion? = some b →
    digest a.signature = digest b.signature → a.signature.same b.signature = true

theorem alike_unskipped (start : Criteria) {cs : List Call}
    {alike : Signature → Signature → Bool}
    (htold : ToldApart (fun a => ∃ c ∈ cs, c.assertion? = some a) alike) :
    Alike ((ofCriteria start).callsUnless (repeatsUnder alike) cs)
      ((ofCriteria start).unskipped cs) := by
  have hstart : Follows (fun a => ∃ c ∈ cs, c.assertion? = some a)
      (ofCriteria start) (ofCriteria start) :=
    ⟨rfl, rfl, fun _ _ _ hlookup => nomatch hlookup⟩
  have hfollows := hstart.callsUnless htold fun c hc a ha => ⟨c, hc, ha⟩
  exact ⟨hfollows.error, Criteria.normal_eq_iff.mp hfollows.criteria⟩

/-- Whatever the calls, a filter ends as one that never skips.  So does a filter that compares
digests of what was asserted, unless digests of its calls collide. -/
theorem calls_alike_unskipped (start : Criteria) (cs : List Call)
    (digest : Signature → UInt64) (hdigest : Distinguishes digest cs) :
    Alike ((ofCriteria start).calls cs) ((ofCriteria start).unskipped cs) ∧
      Alike ((ofCriteria start).callsUnless (repeatsUnder fun s t => digest s == digest t) cs)
        ((ofCriteria start).unskipped cs) := by
  have hasserted : ∀ a, (∃ c ∈ cs, c.assertion? = some a) → Asserted a :=
    fun _ ⟨_, _, ha⟩ => Call.asserted ha
  constructor
  · rw [calls_eq_callsUnless]
    exact alike_unskipped start ⟨hasserted, fun _ _ _ _ h => h⟩
  · refine alike_unskipped start ⟨hasserted, ?_⟩
    rintro a b ⟨c, hc, ha⟩ ⟨d, hd, hb⟩ h
    exact hdigest c hc d hd a b ha hb (beq_iff_eq.mp h)

/-- Three calls, the last of which repeats the first, told apart by the length of their methods. -/
theorem calls_alike_unskipped_of_repeated_comparison :
    Distinguishes (fun s => s.method.length.toUInt64)
        [.compare .eq "age" (.int32 3), .text .inside "name" "an", .compare .eq "age" (.int32 3)] ∧
      Alike
        ((ofCriteria .empty).calls
          [.compare .eq "age" (.int32 3), .text .inside "name" "an", .compare .eq "age" (.int32 3)])
        ((ofCriteria .empty).unskipped
          [.compare .eq "age" (.int32 3), .text .inside "name" "an",
            .compare .eq "age" (.int32 3)]) := by
  have hdigest : Distinguishes (fun s => s.method.length.toUInt64)
      [.compare .eq "age" (.int32 3), .text .inside "name" "an",
        .compare .eq "age" (.int32 3)] := by
    intro c hc d hd a b ha hb
    simp only [List.mem_cons, List.not_mem_nil, or_false] at hc hd
    rcases hc with rfl | rfl | rfl <;> rcases hd with rfl | rfl | rfl <;> cases ha <;> cases hb <;>
      decide
  exact ⟨hdigest, (calls_alike_unskipped .empty _ _ hdigest).1⟩

end Filter

end DocumentBase
