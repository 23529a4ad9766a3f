import Mathlib.Logic.Function.Iterate
import DocumentBase.Number.Width
import DocumentBase.Page

/-!
# Pages in a line

The pages of a result lie one behind the other, each a page behind the one before.  Rows that are
skipped leave room for pages before page 1, and going back ends at the page that has less than a
page of rows before it.  So no page that is ever reached begins before the first row, and as long
as the rows up to its end can be counted in 64 bits nothing limits the place where it begins.
-/

namespace DocumentBase.Page

variable {p : Page} {size skip k : Nat}

/-- Where a page begins if nothing keeps it within the range of a word. -/
def start (p : Page) : Int :=
  p.skip + (p.number - 1) * p.size

/-- A page of at least one row that does not begin before the first row. -/
structure OnLine (p : Page) : Prop where
  size_pos : 0 < p.size
  start_nonneg : 0 ≤ p.start

/-- The number of a page has 64 bits, and the rows up to its end are counted by a word. -/
def InRange (p : Page) : Prop :=
  fits64 p.number = true ∧ p.skip + p.number * p.size ≤ (Value.maxWord : Int)

instance : Decidable p.InRange :=
  inferInstanceAs (Decidable (_ ∧ _))

/-- The pages that are reached from page 1, going forward and back within the range. -/
inductive Reached (size skip : Nat) : Page → Prop
  | first (h : (of 1 size skip).InRange) : Reached size skip (of 1 size skip)
  | next {p : Page} (hp : Reached size skip p) (h : p.next.InRange) : Reached size skip p.next
  | prev {p : Page} (hp : Reached size skip p) (h : p.prev.InRange) : Reached size skip p.prev

/-- The page that lies `k` pages before another one. -/
def back (p : Page) (k : Nat) : Page :=
  { p with number := p.number - k }

@[simp]
theorem size_back (p : Page) (k : Nat) : (p.back k).size = p.size := rfl

theorem back_back (p : Page) (j k : Nat) : (p.back j).back k = p.back (j + k) := by
  simp [back, Int.sub_sub]

/-! ### Where a page begins -/

theorem start_next (p : Page) : p.next.start = p.start + p.size := by
  simp only [start, next, Int.sub_mul, Int.add_mul]
  omega

theorem start_back (p : Page) (k : Nat) : (p.back k).start = p.start - (k * p.size : Nat) := by
  simp only [start, back, Int.sub_mul, Int.natCast_mul]
  omega

/-- A page that does not begin before the first row begins where its number puts it, or at the
largest word. -/
theorem offset_eq_min (h : 0 ≤ p.start) : (p.offset : Int) = min p.start Value.maxWord := by
  rw [offset, ← start]
  omega

/-- The rows up to the end of a page in range can be counted by a word. -/
theorem start_add_size_le (h : p.InRange) : p.start + p.size ≤ Value.maxWord := by
  have hrows := h.2
  rw [start, Int.sub_mul, Int.one_mul]
  omega

/-- Neither end of a word keeps a page on the line from beginning where its number puts it. -/
theorem OnLine.offset_eq_start (h : p.OnLine) (hrange : p.InRange) :
    (p.offset : Int) = p.start := by
  have hend := start_add_size_le hrange
  rw [offset_eq_min h.start_nonneg]
  omega

theorem hasPrev_iff : p.hasPrev = true ↔ p.size ≤ p.offset :=
  decide_eq_true_iff

/-! ### One page forward or back -/

theorem prev_of_hasPrev (h : p.hasPrev = true) : p.prev = p.back 1 :=
  if_pos h

theorem prev_of_not_hasPrev (h : p.hasPrev = false) : p.prev = p :=
  if_neg (by simp [h])

theorem next_back_one (p : Page) : (p.back 1).next = p := by
  simp [next, back]

theorem back_one_next (p : Page) : p.next.back 1 = p := by
  simp [next, back]

theorem OnLine.next (h : p.OnLine) : p.next.OnLine := by
  refine ⟨h.size_pos, ?_⟩
  have hstart := h.start_nonneg
  rw [start_next]
  omega

/-- Going back never leads before the first row. -/
theorem OnLine.prev (h : p.OnLine) : p.prev.OnLine := by
  cases hprev : p.hasPrev with
  | false => rwa [prev_of_not_hasPrev hprev]
  | true =>
      rw [prev_of_hasPrev hprev]
      refine ⟨h.size_pos, ?_⟩
      -- what is compared with the size may be less than the start of the page, never more
      have hoffset := offset_eq_min h.start_nonneg
      have hroom := hasPrev_iff.mp hprev
      rw [start_back]
      omega

/-- Going back undoes going forward, since there is a page before the page gone to. -/
theorem prev_next (h : 0 ≤ p.start) (hsize : p.size ≤ Value.maxWord) : p.next.prev = p := by
  have hnext := start_next p
  have hoffset := offset_eq_min (p := p.next) (by omega)
  have hsame : p.next.size = p.size := rfl
  have hroom : p.next.hasPrev = true := by
    rw [hasPrev_iff]
    omega
  rw [prev_of_hasPrev hroom, back_one_next]

/-! ### All the way back -/

theorem Reached.inRange (h : Reached size skip p) : p.InRange := by
  cases h <;> assumption

/-- No move changes the size of pages or what is skipped. -/
theorem Reached.size_skip (h : Reached size skip p) : p.size = max size 1 ∧ p.skip = skip := by
  induction h with
  | first => exact ⟨rfl, rfl⟩
  | next _ _ ih => exact ih
  | @prev p _ _ ih =>
      rw [Page.prev]
      split <;> exact ih

/-- No page that is reached begins before the first row. -/
theorem Reached.onLine (h : Reached size skip p) : p.OnLine := by
  induction h with
  | first => exact ⟨by simp only [of]; omega, by simp [of, start]⟩
  | next _ _ ih => exact ih.next
  | prev _ _ ih => exact ih.prev

/-- As many pages back as fit in before, a page begins as many page sizes earlier. -/
theorem OnLine.offset_back (h : p.OnLine) (hrange : p.InRange) (hk : k * p.size ≤ p.offset) :
    (p.back k).offset = p.offset - k * p.size := by
  have hoffset := h.offset_eq_start hrange
  have hend := start_add_size_le hrange
  have hstart := start_back p k
  have hback := offset_eq_min (p := p.back k) (by omega)
  omega

/-- There is a page before as long as fewer pages were passed than fit in. -/
theorem OnLine.hasPrev_back_iff (h : p.OnLine) (hrange : p.InRange)
    (hk : k ≤ p.offset / p.size) : (p.back k).hasPrev = true ↔ k < p.offset / p.size := by
  have hroom : k * p.size ≤ p.offset := (Nat.le_div_iff_mul_le h.size_pos).mp hk
  rw [hasPrev_iff, h.offset_back hrange hroom, size_back, ← Nat.succ_le_iff,
    Nat.le_div_iff_mul_le h.size_pos, Nat.succ_mul]
  omega

/-- Each step back leads to the page before, as long as there is one; after that, steps back
change nothing. -/
theorem OnLine.iterate_prev (h : p.OnLine) (hrange : p.InRange) (k : Nat) :
    Page.prev^[k] p = p.back (min k (p.offset / p.size)) := by
  induction k with
  | zero => simp [back]
  | succ k ih =>
      rw [Function.iterate_succ_apply', ih]
      rcases Nat.lt_or_ge k (p.offset / p.size) with hlt | hge
      · have hroom := (h.hasPrev_back_iff hrange (Nat.le_of_lt hlt)).mpr hlt
        rw [Nat.min_eq_left (Nat.le_of_lt hlt), Nat.min_eq_left hlt, prev_of_hasPrev hroom,
          back_back]
      · -- as many pages as fit in before have been passed
        have hlast : (p.back (p.offset / p.size)).hasPrev = false := by
          have := h.hasPrev_back_iff hrange (Nat.le_refl (p.offset / p.size))
          simpa using this
        rw [Nat.min_eq_right hge, Nat.min_eq_right (by omega), prev_of_not_hasPrev hlast]

/-- The last page on the way back begins among the first rows, wherever the way back began. -/
theorem OnLine.offset_mod_size (h : p.OnLine) (hrange : p.InRange) :
    p.offset % p.size = p.skip % p.size := by
  have hoffset := h.offset_eq_start hrange
  rw [start] at hoffset
  apply Int.natCast_inj.mp
  rw [Int.natCast_emod, hoffset, Int.add_mul_emod_self_right, ← Int.natCast_emod]

/-- Every page that is reached begins where its number puts it, behind the rows that are skipped.
Going forward and then back changes nothing, as long as the number of the page between has 64 bits.
Going back and then forward changes nothing where a full page lies before; where none does, going
back changes nothing.  The whole way back has as many steps as pages fit in before, each to the page
before, and it ends with the rows that are left over. -/
theorem reached_in_line (h : Reached size skip p) :
    p.size = max size 1 ∧
    (p.offset : Int) = skip + (p.number - 1) * p.size ∧
    (fits64 p.next.number = true → p.next.prev = p) ∧
    (p.hasPrev = true → p.prev.next = p ∧ p.prev.offset + p.size = p.offset) ∧
    (p.hasPrev = false → p.prev = p ∧ p.offset < p.size) ∧
    (∀ k, Page.prev^[k] p = p.back (min k (p.offset / p.size)) ∧
      ((Page.prev^[k] p).hasPrev = true ↔ k < p.offset / p.size)) ∧
    (Page.prev^[p.offset / p.size] p).offset = skip % p.size := by
  obtain ⟨hsize, hskip⟩ := h.size_skip
  have hline := h.onLine
  have hrange := h.inRange
  have hend := start_add_size_le hrange
  have hstart := hline.start_nonneg
  refine ⟨hsize, ?_, fun _ => prev_next hstart (by omega), fun hprev => ?_, fun hprev => ?_,
    fun k => ?_, ?_⟩
  · rw [hline.offset_eq_start hrange, start, hskip]
  · have hroom : 1 * p.size ≤ p.offset := by
      rw [Nat.one_mul]
      exact hasPrev_iff.mp hprev
    rw [prev_of_hasPrev hprev, hline.offset_back hrange hroom]
    exact ⟨next_back_one p, by omega⟩
  · refine ⟨prev_of_not_hasPrev hprev, Nat.lt_of_not_le fun hroom => ?_⟩
    rw [hasPrev_iff.mpr hroom] at hprev
    cases hprev
  · refine ⟨hline.iterate_prev hrange k, ?_⟩
    rw [hline.iterate_prev hrange, hline.hasPrev_back_iff hrange (Nat.min_le_right _ _)]
    omega
  · have hroom : p.offset / p.size * p.size ≤ p.offset := Nat.div_mul_le_self _ _
    rw [hline.iterate_prev hrange, Nat.min_self, hline.offset_back hrange hroom, ← hskip,
      ← hline.offset_mod_size hrange]
    have hdivision := Nat.div_add_mod' p.offset p.size
    omega

/-- With 25 rows skipped and pages of ten, page 0 begins behind 15 rows and page -1 behind five;
no page lies before that one. -/
theorem reached_in_line_before_first :
    Reached 10 25 ⟨0, 10, 25⟩ ∧ (⟨0, 10, 25⟩ : Page).offset = 15 ∧
      (⟨0, 10, 25⟩ : Page).prev.offset = 5 ∧ (⟨-1, 10, 25⟩ : Page).prev = ⟨-1, 10, 25⟩ := by
  have hsecond : Reached 10 25 ⟨-1, 10, 25⟩ :=
    .prev (.prev (.first (by decide)) (by decide)) (by decide)
  have hthird : Reached 10 25 ⟨0, 10, 25⟩ := .next hsecond (by decide)
  obtain ⟨-, hoffset, -, hback, -⟩ := reached_in_line hthird
  obtain ⟨-, -, -, -, hstays, -⟩ := reached_in_line hsecond
  have hbegin : ((⟨0, 10, 25⟩ : Page).offset : Int) = 25 + (0 - 1) * 10 := hoffset
  have hbefore : (⟨0, 10, 25⟩ : Page).prev.offset + 10 = (⟨0, 10, 25⟩ : Page).offset :=
    (hback (by decide)).2
  exact ⟨hthird, by omega, by omega, (hstays (by decide)).1⟩

end DocumentBase.Page
