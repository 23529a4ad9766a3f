import DocumentBase.Proofs.Grouping.Sums
import DocumentBase.Proofs.Store.Amendments

/-!
# Integers that are added up

An integer increment is exact, whatever the widths of the two integers are, or it fails because 64
bits have no room for the result, and then nothing is stored.  So as long as no sum on the way
leaves 64 bits, increments that come in any order add up to the same count, however the clients that
send them are scheduled.
-/

namespace DocumentBase

open DocumentBase.Path (headOf)

/-! ### Exact sums -/

theorem Value.fits64_of_integer? {v : Value} {n : Int} (h : v.integer? = some n) :
    fits64 n = true := by
  rw [fits64_iff]
  cases v with
  | int32 short =>
      cases h
      exact (fits64_iff _).mp (fits64_of_fits32 ((fits32_iff _).mpr
        ⟨short.minValue_le_toInt, short.toInt_le⟩))
  | int64 long =>
      cases h
      exact ⟨long.minValue_le_toInt, long.toInt_le⟩
  | _ => cases h

namespace Arithmetic

variable {field : String} {narrow : Bool} {n : Int}

theorem exists_integerResult (field : String) (narrow : Bool) (h : fits64 n = true) :
    ∃ v, integerResult field narrow n = .ok v ∧ v.integer? = some n := by
  rw [integerResult, if_pos h]
  by_cases hshort : (narrow && fits32 n) = true
  · have hnarrow := Accumulator.integer?_narrow h
    rw [Accumulator.narrow, if_pos (Bool.and_eq_true_iff.mp hshort).2] at hnarrow
    exact ⟨_, if_pos hshort, hnarrow⟩
  · exact ⟨_, if_neg hshort, congrArg some (Accumulator.toInt_ofInt_of_fits64 h)⟩

theorem integerResult_of_overflow (h : fits64 n = false) :
    integerResult field narrow n = .error (.invalidDocument (.overflow field)) := by
  have hshort : fits32 n = false := by
    rw [← Bool.not_eq_true] at h ⊢
    exact fun hfits => h (fits64_of_fits32 hfits)
  rw [integerResult, hshort, h, Bool.and_false]
  rfl

theorem apply_addition_of_integers {current operand : Value} {m n : Int}
    (hm : current.integer? = some m) (hn : operand.integer? = some n) :
    addition.apply field current operand =
      integerResult field (isNarrow current && isNarrow operand) (m + n) := by
  rw [apply, hm, hn]
  rfl

end Arithmetic

/-- The integer at a field.  A field without a value counts as zero. -/
def Document.countAt? (d : Document) (field : String) : Option Int :=
  match d.at? field with
  | none => some 0
  | some v => v.integer?

theorem Document.countAt?_of_bind {d : Document} {field : String} {n : Int}
    (h : (d.at? field).bind Value.integer? = some n) : d.countAt? field = some n := by
  obtain ⟨v, hv, hn⟩ := Option.bind_eq_some_iff.mp h
  rw [countAt?, hv]
  exact hn

namespace Update

variable {d : Document} {field : String} {operand : Value} {m n : Int}

/-- An increment that fits stores the sum at its path. -/
theorem exists_change_increment (hd : d.countAt? field = some m) (hn : operand.integer? = some n)
    (hfits : fits64 (m + n) = true) :
    ∃ v, (Update.increment field operand).change d = .ok (d.setAt field v) ∧
      v.integer? = some (m + n) := by
  simp only [change]
  cases hcurrent : d.at? field with
  | none =>
      simp only [Document.countAt?, hcurrent, Option.some.injEq] at hd
      refine ⟨operand, rfl, ?_⟩
      rw [hn, ← hd, Int.zero_add]
  | some current =>
      simp only [Document.countAt?, hcurrent] at hd
      obtain ⟨v, hv, hsum⟩ := Arithmetic.exists_integerResult field
        (Arithmetic.isNarrow current && Arithmetic.isNarrow operand) hfits
      refine ⟨v, ?_, hsum⟩
      simp only [Arithmetic.apply_addition_of_integers hd hn, hv]
      rfl

theorem change_increment_of_overflow (hd : d.countAt? field = some m)
    (hn : operand.integer? = some n) (hover : fits64 (m + n) = false) :
    (Update.increment field operand).change d = .error (.invalidDocument (.overflow field)) := by
  simp only [change]
  cases hcurrent : d.at? field with
  | none =>
      -- an operand on its own has room
      simp only [Document.countAt?, hcurrent, Option.some.injEq] at hd
      rw [← hd, Int.zero_add, Value.fits64_of_integer? hn] at hover
      cases hover
  | some current =>
      simp only [Document.countAt?, hcurrent] at hd
      simp only [Arithmetic.apply_addition_of_integers hd hn,
        Arithmetic.integerResult_of_overflow hover]
      rfl

end Update

/-! ### The stored document -/

namespace Collections

variable {c : Collections} {name : String} {id : Value} {d : Document} {u : Update} {now : Instant}

/-- What is put in the place of a document that was found is found there. -/
theorem replaceOne_of_found {after : Document} (hd : c.findById name id = some d)
    (hafter : hasId id after = true) :
    ∃ c', c.replaceOne name id after = (some after, c') ∧ c'.findById name id = some after := by
  obtain ⟨position, hposition, -⟩ := exists_positionOf?_of_findById hd
  refine ⟨c.store name ((c.rows name).set position after), ?_, ?_⟩
  · rw [replaceOne, hposition]
  · rw [findById_store_self]
    exact find?_set_of_findIdx? hposition hafter

theorem updateOne_of_change {changed : Document} (hd : c.findById name id = some d)
    (h : u.change d = .ok changed) :
    c.updateOne name id u now =
      .ok (c.replaceOne name id (changed.put Item.updatedField (.date now))) := by
  rw [updateOne, hd]
  simp only [Update.apply, h]
  rfl

theorem updateOne_of_error {e : Error} (hd : c.findById name id = some d)
    (h : u.change d = .error e) : c.updateOne name id u now = .error e := by
  rw [updateOne, hd]
  simp only [Update.apply, h]
  rfl

end Collections

/-! ### One increment -/

/-- An integer that is to be added to a field. -/
structure Increment where
  operand : Value
  isInteger : operand.integer?.isSome = true
  date : Instant

namespace Increment

open Accumulator (SumsFit)

def amount (i : Increment) : Int :=
  i.operand.integer?.get i.isInteger

def call (id : Value) (field : String) (i : Increment) : HandleCall :=
  .update id (.increment field i.operand) i.date

theorem integer?_operand (i : Increment) : i.operand.integer? = some i.amount :=
  (Option.some_get i.isInteger).symm

/-- An increment is exact if 64 bits have room for the result, and otherwise fails and changes
nothing. -/
def Exact (name : String) (id : Value) (field : String) (c : Collections) (m : Int)
    (i : Increment) : Prop :=
  if fits64 (m + i.amount) then
    ∃ d c', (i.call id field).perform name c = (.ok (some d), c') ∧
      c'.findById name id = some d ∧ (d.at? field).bind Value.integer? = some (m + i.amount)
  else (i.call id field).perform name c = (.error (.invalidDocument (.overflow field)), c)

/-- There is a document with an identity that counts at a field. -/
def Counts (name : String) (id : Value) (field : String) (c : Collections) (m : Int) : Prop :=
  ∃ d, c.findById name id = some d ∧ d.countAt? field = some m

variable {name field : String} {id : Value} {c : Collections} {m start : Int}

/-- The collections after increments are tried one after the other.  One that fails does not keep
those after it from being tried. -/
def performAll (name : String) (id : Value) (field : String) (c : Collections)
    (increments : List Increment) : Collections :=
  increments.foldl (fun c i => ((i.call id field).perform name c).2) c

theorem performAll_concat (before : List Increment) (i : Increment) :
    performAll name id field c (before ++ [i]) =
      ((i.call id field).perform name (performAll name id field c before)).2 := by
  simp [performAll]

theorem sumsFit_upTo {before order : List Increment} (h : before <+: order)
    (hfit : SumsFit (start :: order.map amount)) : SumsFit (start :: before.map amount) := by
  obtain ⟨rest, rfl⟩ := h
  rw [List.map_append, ← List.cons_append] at hfit
  exact hfit.left

/-- Whether it succeeds or fails, an increment leaves an integer at the field. -/
theorem Exact.counts {i : Increment} (h : Exact name id field c m i)
    (hc : Counts name id field c m) :
    ∃ n, Counts name id field ((i.call id field).perform name c).2 n := by
  rw [Exact] at h
  split at h
  next =>
    obtain ⟨d, c', hperform, hd, hcount⟩ := h
    rw [hperform]
    exact ⟨_, d, hd, Document.countAt?_of_bind hcount⟩
  next =>
    rw [h]
    exact ⟨m, hc⟩

section

variable (hid : headOf field ≠ Item.idField) (hdate : headOf field ≠ Item.updatedField)

include hdate in
/-- The time of the change is not written at the field. -/
theorem at?_stamped (d : Document) (v : Value) (now : Instant) :
    ((d.setAt field v).put Item.updatedField (.date now)).at? field = some v := by
  have hapart : Path.Apart [Item.updatedField] (Path.ofString field) := by
    rw [Path.ofString_eq_cons]
    exact Path.apart_cons_iff.mpr (.inl hdate.symm)
  have hput : ((d.setAt field v).put Item.updatedField (.date now)).at? field =
      (d.setAt field v).at? field :=
    Document.get?_set_of_apart (.date now) hapart _
  rw [hput]
  exact Document.get?_set_self v (Path.ofString_ne_nil field) d

include hid in
theorem hasId_stamped {d : Document} (hd : hasId id d = true) (v : Value) (now : Instant) :
    hasId id ((d.setAt field v).put Item.updatedField (.date now)) = true := by
  rw [hasId_congr (e := d), hd]
  rw [Document.value?_put_ne _ _ (by decide), Document.value?_setAt_of_headOf_ne hid]

include hid hdate

/-- Incrementing a field that counts either counts on or fails and changes nothing. -/
theorem exact_of_counts (hc : Counts name id field c m) (i : Increment) :
    Exact name id field c m i := by
  obtain ⟨d, hd, hcount⟩ := hc
  rw [Exact, call, HandleCall.perform, HandleCall.change]
  split
  next hfits =>
    obtain ⟨v, hchange, hsum⟩ := Update.exists_change_increment hcount i.integer?_operand hfits
    have hafter := hasId_stamped hid (Collections.hasId_of_findById hd) v i.date
    obtain ⟨c', hreplaced, hfound⟩ := Collections.replaceOne_of_found hd hafter
    rw [Collections.updateOne_of_change hd hchange, hreplaced]
    refine ⟨_, c', rfl, hfound, ?_⟩
    rw [at?_stamped hdate, Option.bind_some, hsum]
  next hover =>
    have hchange := Update.change_increment_of_overflow hcount i.integer?_operand
      (Bool.eq_false_iff.mpr hover)
    rw [Collections.updateOne_of_error hd hchange]

/-! ### Many increments -/

/-- A field that counts still does so after any increments. -/
theorem exists_counts_performAll (hc : Counts name id field c start)
    (increments : List Increment) :
    ∃ m, Counts name id field (performAll name id field c increments) m := by
  induction increments using List.reverseRecOn with
  | nil => exact ⟨start, hc⟩
  | append_singleton before i ih =>
      obtain ⟨m, hm⟩ := ih
      rw [performAll_concat]
      exact (exact_of_counts hid hdate hm i).counts hm

/-- One more increment succeeds if 64 bits have room for the sum. -/
theorem added_of_fit {before : List Increment} {i : Increment}
    (hbefore : Counts name id field (performAll name id field c before)
      (start + (before.map amount).sum))
    (hfit : SumsFit (start :: (before ++ [i]).map amount)) :
    ∃ d, ((i.call id field).perform name (performAll name id field c before)).1 = .ok (some d) ∧
      (performAll name id field c (before ++ [i])).findById name id = some d ∧
      (d.at? field).bind Value.integer? = some (start + ((before ++ [i]).map amount).sum) := by
  have hsum : start + ((before ++ [i]).map amount).sum =
      start + (before.map amount).sum + i.amount := by
    simp [Int.add_assoc]
  have hroom : fits64 (start + (before.map amount).sum + i.amount) = true := by
    rw [← hsum, ← List.sum_cons]
    exact hfit.sum
  have hexact := exact_of_counts hid hdate hbefore i
  rw [Exact, if_pos hroom] at hexact
  obtain ⟨d, c', hperform, hfound, hcount⟩ := hexact
  rw [performAll_concat, hperform, hsum]
  exact ⟨d, rfl, hfound, hcount⟩

/-- As long as no sum leaves 64 bits, the sum is found. -/
theorem exists_found_of_fit (hc : Counts name id field c start) {order : List Increment}
    (hfit : SumsFit (start :: order.map amount)) :
    ∃ d, (performAll name id field c order).findById name id = some d ∧
      d.countAt? field = some (start + (order.map amount).sum) ∧
      (order ≠ [] → (d.at? field).isSome = true) := by
  induction order using List.reverseRecOn with
  | nil =>
      obtain ⟨d, hfound, hcount⟩ := hc
      exact ⟨d, hfound, by simpa using hcount, fun h => absurd rfl h⟩
  | append_singleton before i ih =>
      obtain ⟨d, hfound, hcount, -⟩ := ih (sumsFit_upTo (List.prefix_append before [i]) hfit)
      obtain ⟨after, -, hafter, hsum⟩ := added_of_fit hid hdate ⟨d, hfound, hcount⟩ hfit
      obtain ⟨v, hv, -⟩ := Option.bind_eq_some_iff.mp hsum
      exact ⟨after, hafter, Document.countAt?_of_bind hsum, fun _ => Option.isSome_of_eq_some hv⟩

/-- Increments add up to the same count in all orders in which no sum on the way leaves 64 bits, and
none of them fails.  In any order each one is exact, or it fails and changes nothing. -/
theorem adds_up {stored : Document} (hstored : c.findById name id = some stored)
    (hcount : stored.countAt? field = some start) :
    (∀ increments order : List Increment, order.Perm increments →
      SumsFit (start :: order.map amount) →
      (∀ before i rest, order = before ++ i :: rest →
        ∃ d, ((i.call id field).perform name (performAll name id field c before)).1 =
          .ok (some d)) ∧
      ∃ d, (performAll name id field c order).findById name id = some d ∧
        d.countAt? field = some (start + (increments.map amount).sum) ∧
        (order ≠ [] → (d.at? field).isSome = true)) ∧
    ∀ (before : List Increment) (i : Increment), ∃ d m,
      (performAll name id field c before).findById name id = some d ∧
      d.countAt? field = some m ∧
      Exact name id field (performAll name id field c before) m i := by
  have hc : Counts name id field c start := ⟨stored, hstored, hcount⟩
  refine ⟨fun increments order hperm hfit => ⟨?_, ?_⟩, fun before i => ?_⟩
  · rintro before i rest rfl
    have hupto : SumsFit (start :: (before ++ [i]).map amount) :=
      sumsFit_upTo ⟨rest, List.append_cons before i rest ▸ rfl⟩ hfit
    have hbefore : SumsFit (start :: before.map amount) :=
      sumsFit_upTo (List.prefix_append before _) hfit
    obtain ⟨d, hfound, hsum, -⟩ := exists_found_of_fit hid hdate hc hbefore
    obtain ⟨after, hreply, -⟩ := added_of_fit hid hdate ⟨d, hfound, hsum⟩ hupto
    exact ⟨after, hreply⟩
  · rw [← (hperm.map amount).sum_eq]
    exact exists_found_of_fit hid hdate hc hfit
  · obtain ⟨m, d, hfound, hm⟩ := exists_counts_performAll hid hdate hc before
    exact ⟨d, m, hfound, hm, exact_of_counts hid hdate ⟨d, hfound, hm⟩ i⟩

end

namespace IncrementExample

def note (reads : Value) : Document :=
  [("_id", .string "x"), ("stats", .document [("reads", reads)])]

def notes (reads : Value) : Collections :=
  [("notes", [note reads])]

def one : Increment := ⟨.int32 1, rfl, 7⟩

def half : Increment := ⟨.int64 0x4000000000000000, rfl, 8⟩

def negative : Increment := ⟨.int64 (-0x4000000000000000), rfl, 9⟩

end IncrementExample

open IncrementExample in
/-- A count that has outgrown 32 bits by the last of three increments, and one that would outgrow
64 bits. -/
theorem adds_up_beyond_short_integers :
    (∃ d, (performAll "notes" (.string "x") "stats.reads" (notes (.int32 0x7fffffff))
        [half, negative, one]).findById "notes" (.string "x") = some d ∧
      d.countAt? "stats.reads" = some 0x80000000) ∧
    (half.call (.string "x") "stats.reads").perform "notes"
        (notes (.int64 0x4000000000000000)) =
      (.error (.invalidDocument (.overflow "stats.reads")), notes (.int64 0x4000000000000000)) := by
  have hid : headOf "stats.reads" ≠ Item.idField := by decide +kernel
  have hdate : headOf "stats.reads" ≠ Item.updatedField := by decide +kernel
  have hstored : ∀ reads, (notes reads).findById "notes" (.string "x") = some (note reads) :=
    fun _ => rfl
  constructor
  · have hcount : (note (.int32 0x7fffffff)).countAt? "stats.reads" = some 0x7fffffff := rfl
    have horder : [half, negative, one].Perm [one, half, negative] :=
      (List.perm_append_comm : ([half, negative] ++ [one]).Perm ([one] ++ [half, negative]))
    obtain ⟨-, d, hfound, hsum, -⟩ :=
      (adds_up hid hdate (hstored _) hcount).1 _ _ horder (by decide +kernel)
    exact ⟨d, hfound, hsum⟩
  · have hcount : (note (.int64 0x4000000000000000)).countAt? "stats.reads" =
        some 0x4000000000000000 := rfl
    obtain ⟨d, m, hfound, hm, hexact⟩ := (adds_up hid hdate (hstored _) hcount).2 [] half
    cases hfound
    cases hm
    rw [Exact, if_neg (by decide +kernel)] at hexact
    exact hexact

end Increment

end DocumentBase
