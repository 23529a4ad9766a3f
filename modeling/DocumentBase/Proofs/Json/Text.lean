import Mathlib.Data.List.Basic
import Mathlib.Data.Nat.Digits.Defs
import DocumentBase.Json.Reader

/-!
# Texts of JSON values

A reader who goes through the text of a JSON value from the left is inside of a string or
outside of one.  Outside of strings he meets no backslash, and a colon only behind a name.  Two
readers who start in different places, one outside and one inside, are in different places at
the end, if both get there: so the end of a text is never a text of its own when it begins
inside of a string.
-/

namespace DocumentBase.Json

/-- Where a reader of a JSON text is. -/
inductive Place where
  | outside
  /-- Outside, and the last character has closed a string. -/
  | behind
  | inside
  /-- Inside, and the last character was a backslash. -/
  | escaped
deriving DecidableEq

namespace Place

/-- The place behind one more character, if that character may stand here. -/
def step : Place → Char → Option Place
  | inside, c => some (if c = '"' then behind else if c = '\\' then escaped else inside)
  | escaped, _ => some inside
  | p, c =>
    if c = '"' then some inside
    else if c = '\\' then none
    else if c = ':' then if p = behind then some outside else none
    else some outside

def walk (p : Place) (text : List Char) : Option Place :=
  text.foldlM step p

def IsOutside (p : Place) : Prop :=
  p = outside ∨ p = behind

/-- One of two places is outside of strings, and the other one inside. -/
def Opposite (p q : Place) : Prop :=
  p.IsOutside ∧ q = inside ∨ p = inside ∧ q.IsOutside

variable {p q p' q' : Place} {c : Char} {text rest : List Char}

theorem isOutside_outside : outside.IsOutside :=
  .inl rfl

theorem isOutside_behind : behind.IsOutside :=
  .inr rfl

/-- The two places may change their parts. -/
theorem Opposite.symm (h : Opposite p q) : Opposite q p := by
  rcases h with ⟨hp, hq⟩ | ⟨hp, hq⟩
  · exact .inr ⟨hq, hp⟩
  · exact .inl ⟨hq, hp⟩

theorem Opposite.not_both (h : Opposite p q) (hp : p.IsOutside) : ¬ q.IsOutside := by
  rcases h with ⟨-, rfl⟩ | ⟨rfl, -⟩
  · rintro (h | h) <;> cases h
  · rcases hp with h | h <;> cases h

theorem walk_cons (p : Place) (c : Char) (rest : List Char) :
    p.walk (c :: rest) = (p.step c).bind fun q => q.walk rest :=
  List.foldlM_cons

/-- A text is walked through piece by piece. -/
theorem walk_append (p : Place) (text rest : List Char) :
    p.walk (text ++ rest) = (p.walk text).bind fun q => q.walk rest :=
  List.foldlM_append

/-- Outside of strings a quote begins one. -/
theorem step_quote (hp : p.IsOutside) : p.step '"' = some inside := by
  rcases hp with rfl | rfl <;> rfl

theorem step_isOutside (hp : p.IsOutside) (hquote : c ≠ '"') (h : p.step c = some q) :
    c ≠ '\\' ∧ q = outside := by
  rcases hp with rfl | rfl
  all_goals
    simp only [step, if_neg hquote] at h
    split at h
    next => cases h
    next hslash =>
      refine ⟨hslash, ?_⟩
      split at h
      · simp_all
      · simpa using h.symm

/-- One character leaves a place outside and a place inside in different places. -/
theorem opposite_step (hp : p.IsOutside) (h : p.step c = some p')
    (hinside : inside.step c = some q') : Opposite p' q' := by
  by_cases hquote : c = '"'
  · subst hquote
    rw [step_quote hp] at h
    cases h
    cases hinside
    exact .inr ⟨rfl, isOutside_behind⟩
  · obtain ⟨hslash, rfl⟩ := step_isOutside hp hquote h
    simp only [step, if_neg hquote, if_neg hslash] at hinside
    cases hinside
    exact .inl ⟨isOutside_outside, rfl⟩

/-- A character takes opposite places to opposite places. -/
theorem Opposite.step (hpq : Opposite p q) (hp : p.step c = some p') (hq : q.step c = some q') :
    Opposite p' q' := by
  rcases hpq with ⟨hout, rfl⟩ | ⟨rfl, hout⟩
  · exact opposite_step hout hp hq
  · exact (opposite_step hout hq hp).symm

/-- Whoever starts on different sides of the quotes ends on different sides. -/
theorem Opposite.walk (hpq : Opposite p q) (hp : p.walk text = some p')
    (hq : q.walk text = some q') : Opposite p' q' := by
  induction text generalizing p q with
  | nil =>
      cases hp
      cases hq
      exact hpq
  | cons c rest ih =>
      rw [walk_cons, Option.bind_eq_some_iff] at hp hq
      obtain ⟨p₁, hstep, hp⟩ := hp
      obtain ⟨q₁, hstep', hq⟩ := hq
      exact ih (hpq.step hstep hstep') hp hq

end Place

/-! ### Pieces that begin and end outside of strings -/

open Place

/-- Whoever starts a piece of text outside of strings is outside again at its end. -/
def Balanced (text : List Char) : Prop :=
  ∀ p : Place, p.IsOutside → ∃ q, p.walk text = some q ∧ q.IsOutside

/-- The characters have no part in quoting, and part nothing. -/
def Plain (text : List Char) : Prop :=
  ∀ c ∈ text, c ∉ ['"', '\\', ':']

instance (text : List Char) : Decidable (Plain text) :=
  List.decidableBAll _ text

variable {text rest : List Char}

theorem balanced_nil : Balanced [] :=
  fun p hp => ⟨p, rfl, hp⟩

theorem Balanced.append (htext : Balanced text) (hrest : Balanced rest) :
    Balanced (text ++ rest) := by
  intro p hp
  obtain ⟨q, hq, hout⟩ := htext p hp
  obtain ⟨r, hr, hend⟩ := hrest q hout
  refine ⟨r, ?_, hend⟩
  rw [walk_append, hq, Option.bind_some, hr]

/-- A text without quotes and backslashes neither begins nor ends a string. -/
theorem balanced_of_plain (h : Plain text) : Balanced text := by
  induction text with
  | nil => exact balanced_nil
  | cons c rest ih =>
      obtain ⟨hc, hrest⟩ := List.forall_mem_cons.mp h
      intro p hp
      obtain ⟨q, hq, hout⟩ := ih hrest outside isOutside_outside
      refine ⟨q, ?_, hout⟩
      have hstep : p.step c = some outside := by
        rcases hp with rfl | rfl <;> simp_all [step]
      rw [walk_cons, hstep, Option.bind_some, hq]

theorem balanced_intercalate {separator : List Char} (hseparator : Balanced separator)
    {texts : List (List Char)} (h : ∀ text ∈ texts, Balanced text) :
    Balanced (separator.intercalate texts) := by
  induction texts with
  | nil => exact balanced_nil
  | cons first others ih =>
      obtain ⟨hfirst, hothers⟩ := List.forall_mem_cons.mp h
      cases others with
      | nil => simpa [List.intercalate] using hfirst
      | cons second others =>
          rw [List.intercalate_cons_cons]
          exact (hfirst.append hseparator).append (ih hothers)

/-! ### Strings -/

/-- A character stands for itself, or for what a reader takes from behind a backslash. -/
theorem escape_cases (c : Char) :
    (escape c = [c] ∧ c ≠ '"' ∧ c ≠ '\\' ∧ ¬ c.toNat < 0x20) ∨
    (∃ d, escape c = ['\\', d] ∧ d ≠ 'u' ∧ escaped? d = some c) ∨
    (escape c = ['\\', 'u', '0', '0', hexDigit (c.toNat / 16), hexDigit (c.toNat % 16)] ∧
      c.toNat < 0x20) := by
  unfold escape
  split
  case h_8 _ hquote hslash _ _ _ _ _ =>
    split
    next hcontrol => exact .inr (.inr ⟨rfl, hcontrol⟩)
    next hcontrol => exact .inl ⟨rfl, hquote, hslash, hcontrol⟩
  all_goals exact .inr (.inl ⟨_, rfl, by decide, rfl⟩)

theorem inside_step_hexDigit : ∀ n < 16, inside.step (hexDigit n) = some inside := by
  decide

theorem hexNumber?_hexDigit :
    ∀ n < 0x20, hexNumber? ['0', '0', hexDigit (n / 16), hexDigit (n % 16)] = some n := by
  decide

/-- Inside a string an escaped character leads back inside. -/
theorem walk_escape (c : Char) : inside.walk (escape c) = some inside := by
  rcases escape_cases c with ⟨h, hquote, hslash, -⟩ | ⟨d, h, -, -⟩ | ⟨h, hcontrol⟩
  · rw [h, walk_cons, step, if_neg hquote, if_neg hslash]
    rfl
  · rw [h]
    rfl
  · have hhigh := inside_step_hexDigit (c.toNat / 16) (by omega)
    have hlow := inside_step_hexDigit (c.toNat % 16) (by omega)
    have hprefix : inside.walk ['\\', 'u', '0', '0'] = some inside := rfl
    have hsplit : ['\\', 'u', '0', '0', hexDigit (c.toNat / 16), hexDigit (c.toNat % 16)] =
        ['\\', 'u', '0', '0'] ++ [hexDigit (c.toNat / 16), hexDigit (c.toNat % 16)] := rfl
    rw [h, hsplit, walk_append, hprefix, Option.bind_some, walk_cons, hhigh, Option.bind_some,
      walk_cons, hlow]
    rfl

theorem walk_flatMap_escape (text : List Char) :
    inside.walk (text.flatMap escape) = some inside := by
  induction text with
  | nil => rfl
  | cons c rest ih => rw [List.flatMap_cons, walk_append, walk_escape, Option.bind_some, ih]

/-- A quoted text leads from outside of strings to just behind one. -/
theorem walk_quoted {p : Place} (hp : p.IsOutside) (text : String) :
    p.walk (quoted text).toList = some behind := by
  rw [quoted, String.toList_ofList, List.append_assoc, List.singleton_append, walk_cons,
    step_quote hp, Option.bind_some, walk_append, walk_flatMap_escape]
  rfl

theorem balanced_quoted (text : String) : Balanced (quoted text).toList :=
  fun _ hp => ⟨behind, walk_quoted hp text, isOutside_behind⟩

/-- A character is read back from the way in which it is escaped. -/
theorem codePoints_escape (c : Char) (rest : List Char) :
    codePoints (escape c ++ rest) =
      (codePoints rest).map fun read => (c.toNat :: read.1, read.2) := by
  rcases escape_cases c with ⟨h, hquote, hslash, hcontrol⟩ | ⟨d, h, hu, hd⟩ | ⟨h, hcontrol⟩
  · rw [h, List.singleton_append, codePoints]
    · rw [if_neg hcontrol]
      cases codePoints rest <;> rfl
    · exact hquote
    · exact fun _ _ _ _ _ heq _ => hslash heq
    · exact fun _ _ heq _ => hslash heq
  · rw [h, List.cons_append, List.singleton_append, codePoints, hd]
    · cases codePoints rest <;> rfl
    · exact fun _ _ _ _ _ heq _ => hu heq
  · rw [h]
    simp only [List.cons_append, List.nil_append]
    rw [codePoints, hexNumber?_hexDigit _ hcontrol]
    cases codePoints rest <;> rfl

/-- A text is read back from its quoted form up to the closing quote. -/
theorem codePoints_flatMap_escape (text rest : List Char) :
    codePoints (text.flatMap escape ++ '"' :: rest) = some (text.map Char.toNat, rest) := by
  induction text with
  | nil => rfl
  | cons c others ih =>
      rw [List.flatMap_cons, List.append_assoc, codePoints_escape, ih]
      rfl

/-- A quoted text ends where it says, so what follows it is not taken for a part of it. -/
theorem quoted_append_inj {f g : String}
    (h : (quoted f).toList ++ text = (quoted g).toList ++ rest) : f = g ∧ text = rest := by
  have hread : ∀ (s : String) (after : List Char),
      codePoints ((quoted s).toList ++ after).tail = some (s.toList.map Char.toNat, after) := by
    intro s after
    rw [quoted, String.toList_ofList]
    simpa using codePoints_flatMap_escape s.toList after
  have hpoints : some (f.toList.map Char.toNat, text) = some (g.toList.map Char.toNat, rest) := by
    rw [← hread, ← hread, h]
  simp only [Option.some.injEq, Prod.mk.injEq] at hpoints
  obtain ⟨hpoints, hrest⟩ := hpoints
  have hchars : f.toList = g.toList :=
    List.map_injective_iff.mpr (fun _ _ => Char.toNat_inj.mp) hpoints
  exact ⟨String.toList_inj.mp hchars, hrest⟩

/-! ### Numbers -/

theorem Plain.append (htext : Plain text) (hrest : Plain rest) : Plain (text ++ rest) :=
  List.forall_mem_append.mpr ⟨htext, hrest⟩

theorem plain_of_forall_isDigit (h : ∀ c ∈ text, c.isDigit) : Plain text := by
  intro c hc hmem
  have hdigit := h c hc
  simp only [List.mem_cons, List.not_mem_nil, or_false] at hmem
  rcases hmem with rfl | rfl | rfl <;> simp at hdigit

/-- The decimal text of a number has digits only. -/
theorem isDigit_of_mem_repr {n : Nat} : ∀ c ∈ n.repr.toList, c.isDigit := by
  intro c hc
  rw [Nat.toList_repr] at hc
  exact Nat.isDigit_of_mem_toDigits (by decide) (by decide) hc

theorem repr_ne_nil (n : Nat) : n.repr.toList ≠ [] := by
  rw [Nat.toList_repr]
  exact Nat.toDigits_ne_nil

/-- An integer is written with a sign, if at all, and then with digits. -/
theorem exists_digits_integer (n : Int) :
    ∃ sign digits, (toString n).toList = sign ++ digits ∧ Plain sign ∧ digits ≠ [] ∧
      ∀ c ∈ digits, c.isDigit := by
  cases n with
  | ofNat n => exact ⟨[], n.repr.toList, rfl, by decide, repr_ne_nil n, isDigit_of_mem_repr⟩
  | negSucc n =>
      refine ⟨['-'], (n + 1).repr.toList, ?_, by decide, repr_ne_nil _, isDigit_of_mem_repr⟩
      change ("-" ++ (n + 1).repr).toList = _
      simp

theorem plain_integer (n : Int) : Plain (toString n).toList := by
  obtain ⟨sign, digits, htext, hsign, -, hdigits⟩ := exists_digits_integer n
  rw [htext]
  exact hsign.append (plain_of_forall_isDigit hdigits)

theorem plain_zeros (count : Nat) : Plain (zeros count).toList := by
  intro c hc
  rw [zeros, String.toList_ofList] at hc
  rw [List.eq_of_mem_replicate hc]
  decide

theorem plain_take (h : Plain text) (count : Nat) :
    Plain (String.ofList (text.take count)).toList := by
  intro c hc
  rw [String.toList_ofList] at hc
  exact h c (List.mem_of_mem_take hc)

theorem plain_drop (h : Plain text) (count : Nat) :
    Plain (String.ofList (text.drop count)).toList := by
  intro c hc
  rw [String.toList_ofList] at hc
  exact h c (List.mem_of_mem_drop hc)

theorem plain_digits (d : Decimal) : Plain d.digits.toList :=
  plain_of_forall_isDigit isDigit_of_mem_repr

theorem plain_pointed (d : Decimal) : Plain d.pointed.toList := by
  have hdigits := plain_digits d
  have hzero : Plain "0.".toList := by decide
  rw [Decimal.pointed]
  split
  · rw [String.toList_append]
    exact hzero.append hdigits
  · simp only [String.toList_append]
    exact ((plain_take hdigits _).append (by decide)).append (plain_drop hdigits _)
  · simp only [String.toList_append]
    exact (hzero.append (plain_zeros _)).append hdigits

theorem plain_positional (d : Decimal) : Plain d.positional.toList := by
  rw [Decimal.positional]
  split
  · rw [String.toList_append]
    apply (plain_digits d).append
    split
    · decide
    · exact plain_zeros _
  · exact plain_pointed d

theorem plain_leading (d : Decimal) : Plain d.leading.toList := by
  have hfirst := plain_take (plain_digits d) 1
  have hothers := plain_drop (plain_digits d) 1
  simp only [Decimal.leading]
  split
  · exact hfirst
  · simp only [String.toList_append]
    exact (hfirst.append (by decide)).append hothers

theorem plain_scientific (d : Decimal) : Plain d.scientific.toList := by
  simp only [Decimal.scientific, String.toList_append]
  exact ((plain_leading d).append (by decide)).append (plain_integer _)

/-- The text of a double has no part in quoting. -/
theorem plain_jsonText (x : Double) : Plain x.jsonText.toList := by
  rw [Double.jsonText, String.toList_append]
  refine Plain.append ?_ ?_
  · rw [Double.sign]
    split <;> decide
  · rw [Decimal.mixed]
    split
    · rw [String.toList_append]
      exact (plain_positional _).append (by decide)
    · split
      · exact plain_pointed _
      · exact plain_scientific _

/-! ### Whole texts -/

/-- Balanced texts between balanced ends, with commas, are balanced. -/
theorem balanced_separated {texts : List String} {start stop : String}
    (hstart : Balanced start.toList) (hstop : Balanced stop.toList)
    (h : ∀ text ∈ texts, Balanced text.toList) :
    Balanced (start ++ ",".intercalate texts ++ stop).toList := by
  simp only [String.toList_append, String.toList_intercalate]
  refine (hstart.append (balanced_intercalate (balanced_of_plain (by decide)) ?_)).append hstop
  simpa using h

mutual

/-- A text of a value begins and ends outside of strings. -/
theorem balanced_text (v : Json) : Balanced v.text.toList := by
  cases v with
  | null => exact balanced_of_plain (by decide)
  | bool b => cases b <;> exact balanced_of_plain (by decide)
  | integer n => exact balanced_of_plain (plain_integer n)
  | number x =>
      rw [text]
      split
      · exact balanced_of_plain (plain_jsonText x)
      · exact balanced_of_plain (by decide)
  | string s => exact balanced_quoted s
  | array items =>
      exact balanced_separated (balanced_of_plain (by decide)) (balanced_of_plain (by decide))
        (balanced_itemTexts items)
  | object members =>
      exact balanced_separated (balanced_of_plain (by decide)) (balanced_of_plain (by decide))
        (balanced_memberTexts members)
termination_by structural v

theorem balanced_itemTexts (items : List Json) :
    ∀ text ∈ itemTexts items, Balanced text.toList := by
  cases items with
  | nil => simp [itemTexts]
  | cons v rest =>
      exact List.forall_mem_cons.mpr ⟨balanced_text v, balanced_itemTexts rest⟩
termination_by structural items

theorem balanced_memberTexts (members : List (String × Json)) :
    ∀ text ∈ memberTexts members, Balanced text.toList := by
  cases members with
  | nil => simp [memberTexts]
  | cons member rest =>
      obtain ⟨name, v⟩ := member
      refine List.forall_mem_cons.mpr ⟨?_, balanced_memberTexts rest⟩
      intro p hp
      obtain ⟨q, hq, hout⟩ := balanced_text v outside isOutside_outside
      refine ⟨q, ?_, hout⟩
      -- the colon stands right behind the name
      have hcolon : behind.walk ":".toList = some outside := by decide
      simp only [String.toList_append]
      rw [walk_append, walk_append, walk_quoted hp, Option.bind_some, hcolon, Option.bind_some, hq]
termination_by structural members

end

end DocumentBase.Json
