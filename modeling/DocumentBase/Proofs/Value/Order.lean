import DocumentBase.Proofs.Number.Double
import DocumentBase.Value.Comparison

/-!
# The order of values

A sort compares values by the ranks of their kinds and then inside a kind.  On all values but
NaN this is the lexicographic order of a few numbers and texts that are read off a value, hence
a total preorder.
-/

namespace DocumentBase.Value

open Std

def isNaN : Value → Bool
  | .double x => x.isNaN
  | _ => false

theorem isNaN_of_number {v : Value} {x : Double} (hnumber : v.number? = some x)
    (hv : v.isNaN = false) : x.isNaN = false := by
  cases v with
  | int32 n =>
      obtain rfl := Option.some.inj hnumber
      apply Double.isNaN_ofInt
      have hlt := n.toInt_lt
      have hge := n.le_toInt
      omega
  | int64 n =>
      obtain rfl := Option.some.inj hnumber
      apply Double.isNaN_ofInt
      have hlt := n.toInt_lt
      have hge := n.le_toInt
      omega
  | double y =>
      obtain rfl := Option.some.inj hnumber
      exact hv
  | _ => cases hnumber

/-! ### Values as tuples -/

def place? (v : Value) : Option Int :=
  v.number?.map Double.place

def bool? : Value → Option Bool
  | .bool b => some b
  | _ => none

def date? : Value → Option Int
  | .date instant => some instant
  | _ => none

/-- The order inside a kind: at most one of the components is there. -/
def tupleCompare : Value → Value → Ordering :=
  compareLex (compareOn place?)
    (compareLex (compareOn text?) (compareLex (compareOn bool?) (compareOn date?)))

def rankedCompare : Value → Value → Ordering :=
  compareLex (compareOn fun v => v.kind.rank) tupleCompare

instance : TransCmp rankedCompare :=
  inferInstanceAs (TransCmp (compareLex _ (compareLex _ _)))

theorem compare?_of_sameKind {v w : Value} (h : v.kind = w.kind) (hv : v.isNaN = false)
    (hw : w.isNaN = false) : (v.compare? w).getD .eq = tupleCompare v w := by
  have hplaces : ∀ x y : Double, v.number? = some x → w.number? = some y →
      x.compare? y = some (compare (some x.place) (some y.place)) := by
    intro x y hx hy
    rw [Double.compare?, isNaN_of_number hx hv, isNaN_of_number hy hw]
    rfl
  cases v <;> cases w <;> first
    | (cases h; done)
    | rfl
    | simp [compare?, tupleCompare, compareLex, compareOn, place?, text?, bool?, date?, number?,
        hplaces _ _ rfl rfl]
    | (simp [compare?, tupleCompare, compareLex, compareOn, place?, text?, bool?, date?, number?]
       rfl)

theorem Kind.rank_injective {k l : Kind} (h : k.rank = l.rank) : k = l := by
  cases k <;> cases l <;> first | rfl | cases h

/-- Off NaN values are compared by their ranks, and within a rank as values of one kind. -/
theorem sortCompare_eq {v w : Value} (hv : v.isNaN = false) (hw : w.isNaN = false) :
    v.sortCompare w = rankedCompare v w := by
  by_cases hkind : v.kind = w.kind
  · rw [sortCompare, compare?_of_sameKind hkind hv hw]
    rfl
  · have hrank : compare v.kind.rank w.kind.rank ≠ .eq := by
      intro heq
      exact hkind (Kind.rank_injective (Nat.compare_eq_eq.mp heq))
    rw [sortCompare, rankedCompare, compareLex, compareOn]
    cases hcompare : compare v.kind.rank w.kind.rank with
    | eq => exact absurd hcompare hrank
    | lt => rfl
    | gt => rfl

/-! ### A total preorder -/

theorem sortCompare_self {v : Value} (hv : v.isNaN = false) : v.sortCompare v = .eq := by
  rw [sortCompare_eq hv hv]
  exact ReflCmp.compare_self

theorem sortCompare_swap {v w : Value} (hv : v.isNaN = false) (hw : w.isNaN = false) :
    v.sortCompare w = (w.sortCompare v).swap := by
  rw [sortCompare_eq hv hw, sortCompare_eq hw hv]
  exact OrientedCmp.eq_swap

theorem sortCompare_trans {u v w : Value} (hu : u.isNaN = false) (hv : v.isNaN = false)
    (hw : w.isNaN = false) (huv : (u.sortCompare v).isLE = true)
    (hvw : (v.sortCompare w).isLE = true) : (u.sortCompare w).isLE = true := by
  rw [sortCompare_eq hu hv] at huv
  rw [sortCompare_eq hv hw] at hvw
  rw [sortCompare_eq hu hw]
  exact TransCmp.isLE_trans huv hvw

end DocumentBase.Value
