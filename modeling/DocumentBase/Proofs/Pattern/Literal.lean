import DocumentBase.Filter

/-!
# Patterns of literal text

A text in which the characters with a meaning are escaped is a pattern, whatever the text is: every
character is read as one that stands for itself, and no group is ever opened.  The ends of the text
that is searched may be asked for in front of it and behind it.
-/

namespace DocumentBase

namespace Pattern

/-! ### Reading single characters -/

/-- A character with a meaning stands for itself behind a backslash. -/
theorem escape?_of_isMeta {c : Char} (h : isMeta c = true) (flags : Flags) (rest : List Char) :
    escape? flags (c :: rest) = some (.char c, rest) := by
  have hescapable : isEscapable c = true := by simp [isEscapable, h]
  rw [escape?.eq_def]
  dsimp only
  split
  all_goals first
    | exact absurd h (by decide)
    | exact if_pos hescapable

/-- A character with a meaning is read as itself behind a backslash. -/
theorem step?_backslash {c : Char} (h : isMeta c = true) (s : Progress) (rest : List Char) :
    step? s '\\' (c :: rest) = some (s.add (.one (.single c s.flags.ignoreCase)), rest) := by
  rw [step?, escape?_of_isMeta h]
  rfl

/-- Any other character is read as itself. -/
theorem step?_of_not_isMeta {c : Char} (h : isMeta c = false) (s : Progress) (rest : List Char) :
    step? s c rest = some (s.add (.one (.single c s.flags.ignoreCase)), rest) := by
  unfold step?
  split
  all_goals first
    | exact absurd h (by decide)
    | rfl

/-! ### Progress outside of groups -/

/-- No group has been opened, and what was read has no parts. -/
structure Progress.Flat (s : Progress) : Prop where
  verbose : s.flags.verbose = false
  opened : s.opened = []
  choices : s.choices = []
  items : ∀ p ∈ s.items, p.height = 0

theorem Progress.Flat.add {s : Progress} (hs : s.Flat) {p : Pattern} (hp : p.height = 0) :
    (s.add p).Flat :=
  ⟨hs.verbose, hs.opened, hs.choices, List.forall_mem_cons.mpr ⟨hp, hs.items⟩⟩

theorem Progress.Flat.skip {s : Progress} (hs : s.Flat) (text : List Char) :
    s.flags.skip text = text := by
  simp [Flags.skip, hs.verbose]

theorem heights_of_flat {ps : List Pattern} (h : ∀ p ∈ ps, p.height = 0) : heights ps = 0 := by
  induction ps with
  | nil => rfl
  | cons p rest ih =>
      obtain ⟨hp, hrest⟩ := List.forall_mem_cons.mp h
      rw [heights, hp, ih hrest, Nat.max_self]

theorem height_ofSequence_le {ps : List Pattern} (h : ∀ p ∈ ps, p.height = 0) :
    (ofSequence ps).height ≤ 1 := by
  match ps with
  | [] => exact Nat.zero_le 1
  | [p] =>
      rw [ofSequence, h p List.mem_cons_self]
      exact Nat.zero_le 1
  | p :: q :: rest => exact Nat.le_of_eq (congrArg (· + 1) (heights_of_flat h))

/-- What has been read outside of groups is a pattern. -/
theorem Progress.Flat.isSome_finish? {s : Progress} (hs : s.Flat) : s.finish?.isSome = true := by
  have hcurrent : s.current = ofSequence s.items.reverse := by
    rw [Progress.current, hs.choices]
    rfl
  have hheight := height_ofSequence_le fun p hp => hs.items p (List.mem_reverse.mp hp)
  have hnesting : s.current.height ≤ maxNesting := by
    rw [hcurrent]
    exact Nat.le_trans hheight (by decide)
  rw [Progress.finish?, hs.opened]
  simp [hnesting]

/-! ### Reading whole texts -/

/-- A text that can be read to its end outside of groups. -/
def Readable (text : List Char) : Prop :=
  ∀ (s : Progress) (fuel : Nat), s.Flat → text.length < fuel →
    (readAll? fuel s text).isSome = true

theorem readable_nil : Readable [] := by
  intro s fuel hs hfuel
  cases fuel with
  | zero => cases hfuel
  | succ fuel =>
      rw [readAll?, hs.skip]
      exact hs.isSome_finish?

/-- A step that reads something without parts stays outside of groups. -/
theorem Readable.step {rest text : List Char} (hrest : Readable rest) {c : Char}
    (hshorter : rest.length ≤ text.length)
    (hstep : ∀ s, ∃ p : Pattern, p.height = 0 ∧ step? s c text = some (s.add p, rest)) :
    Readable (c :: text) := by
  intro s fuel hs hfuel
  cases fuel with
  | zero => cases hfuel
  | succ fuel =>
      obtain ⟨p, hp, hread⟩ := hstep s
      rw [readAll?, hs.skip]
      simp only [hread, Option.bind_some]
      rw [List.length_cons] at hfuel
      exact hrest _ fuel (hs.add hp) (by omega)

/-- The characters of a text, those with a meaning behind a backslash. -/
def escaped (text : List Char) : List Char :=
  text.flatMap fun c => if isMeta c then ['\\', c] else [c]

/-- A text whose special characters stand behind backslashes can be read to its end. -/
theorem readable_escaped {last : List Char} (hlast : Readable last) (text : List Char) :
    Readable (escaped text ++ last) := by
  induction text with
  | nil => exact hlast
  | cons c text ih =>
      rw [escaped, List.flatMap_cons, List.append_assoc]
      cases hmeta : isMeta c with
      | true => exact ih.step (Nat.le_succ _) fun s => ⟨_, rfl, step?_backslash hmeta s _⟩
      | false => exact ih.step (Nat.le_refl _) fun s => ⟨_, rfl, step?_of_not_isMeta hmeta s _⟩

/-- What can be read to its end outside of groups is a pattern. -/
theorem isSome_parse? {text : String} (h : Readable text.toList) (ignoreCase : Bool) :
    (parse? text ignoreCase).isSome = true :=
  h _ _ ⟨rfl, rfl, rfl, nofun⟩ (Nat.lt_succ_self _)

end Pattern

/-- The pattern for a text at a place can be read, whatever the text is. -/
theorem Filter.Placement.isSome_parse?_pattern (p : Placement) (text : String)
    (ignoreCase : Bool) : (Pattern.parse? (p.pattern text) ignoreCase).isSome = true := by
  have hinside : (Pattern.literalText text).toList = Pattern.escaped text.toList :=
    String.toList_ofList
  have hend : Pattern.Readable ['$'] :=
    Pattern.readable_nil.step (Nat.le_refl _) fun s => ⟨_, rfl, rfl⟩
  apply Pattern.isSome_parse?
  cases p with
  | inside =>
      have hchars : (pattern .inside text).toList = Pattern.escaped text.toList ++ [] := by
        simp [pattern, hinside]
      rw [hchars]
      exact Pattern.readable_escaped Pattern.readable_nil text.toList
  | atStart =>
      have hchars : (pattern .atStart text).toList =
          '^' :: (Pattern.escaped text.toList ++ []) := by
        simp [pattern, hinside]
      rw [hchars]
      exact (Pattern.readable_escaped Pattern.readable_nil text.toList).step (Nat.le_refl _)
        fun s => ⟨_, rfl, rfl⟩
  | atEnd =>
      have hchars : (pattern .atEnd text).toList = Pattern.escaped text.toList ++ ['$'] := by
        simp [pattern, hinside]
      rw [hchars]
      exact Pattern.readable_escaped hend text.toList

end DocumentBase
