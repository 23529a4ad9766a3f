import DocumentBase.Proofs.Store.Scripts

/-!
# Two scripts at the same time

Each call on the stored collections is made as a whole, but between two calls of one script the
other script may make some of its own.  Scripts that make at most one call after a look-up
interleave in few ways: one script runs after the other, or one of them runs as a whole between
the look-up and the other call of the other one.
-/

namespace DocumentBase.Script

variable {α β : Type} {name : String}

/-- Two scripts run at the same time on the same collection; either may make the next call. -/
inductive Interleaved (name : String) :
    Script α → Script β → Collections → Outcome α → Outcome β → Collections → Prop
  | ended (a : Outcome α) (b : Outcome β) (c : Collections) :
      Interleaved name (.done a) (.done b) c a b c
  | left {h : HandleCall} {next : Outcome (Option Document) → Script α} {t : Script β}
      {a : Outcome α} {b : Outcome β} {c c' : Collections}
      (hrest : Interleaved name (next (h.perform name c).1) t (h.perform name c).2 a b c') :
      Interleaved name (.call h next) t c a b c'
  | right {h : HandleCall} {s : Script α} {next : Outcome (Option Document) → Script β}
      {a : Outcome α} {b : Outcome β} {c c' : Collections}
      (hrest : Interleaved name s (next (h.perform name c).1) (h.perform name c).2 a b c') :
      Interleaved name s (.call h next) c a b c'

/-- One script runs after the other. -/
def Serial (name : String) (s : Script α) (t : Script β) (c : Collections) (a : Outcome α)
    (b : Outcome β) (c' : Collections) : Prop :=
  ∃ between, s.run name c = (a, between) ∧ t.run name between = (b, c')

/-- The first script looks up a document, the second one runs as a whole, and the first one goes
on with what it found. -/
def Overtaken (name : String) (s : Script α) (t : Script β) (c : Collections) (a : Outcome α)
    (b : Outcome β) (c' : Collections) : Prop :=
  ∃ id next between, s = .call (.find id) next ∧ t.run name c = (b, between) ∧
    (next (.ok (c.findById name id))).run name between = (a, c')

/-- Scripts that make at most one call. -/
inductive Single : Script α → Prop
  | done (outcome : Outcome α) : Single (.done outcome)
  | call (h : HandleCall) {next : Outcome (Option Document) → Script α}
      (hnext : ∀ reply, ∃ outcome, next reply = .done outcome) : Single (.call h next)

/-- Scripts that make at most one call, or one call after a look-up. -/
inductive Short : Script α → Prop
  | single {s : Script α} (hs : s.Single) : Short s
  | checked (id : Value) {next : Outcome (Option Document) → Script α}
      (hnext : ∀ reply, (next reply).Single) : Short (.call (.find id) next)

variable {s : Script α} {t : Script β} {c c' : Collections} {a : Outcome α} {b : Outcome β}

/-- What a script with one call makes of the collections. -/
theorem Single.run_snd {h : HandleCall} {next : Outcome (Option Document) → Script α}
    (hs : s.Single) (hcall : s = .call h next) : (s.run name c).2 = (h.perform name c).2 := by
  subst hcall
  cases hs with
  | call _ hnext =>
      obtain ⟨outcome, hdone⟩ := hnext (h.perform name c).1
      rw [run, hdone, run]

theorem Interleaved.symm (h : Interleaved name s t c a b c') : Interleaved name t s c b a c' := by
  induction h with
  | ended a b c => exact .ended b a c
  | left _ ih => exact .right ih
  | right _ ih => exact .left ih

/-- Runs two scripts by a schedule, which says for each call whether the first script makes it. -/
def interleave (name : String) :
    List Bool → Script α → Script β → Collections → Option (Outcome α × Outcome β × Collections)
  | _, .done a, .done b, c => some (a, b, c)
  | true :: rest, .call h next, t, c =>
    interleave name rest (next (h.perform name c).1) t (h.perform name c).2
  | false :: rest, s, .call h next, c =>
    interleave name rest s (next (h.perform name c).1) (h.perform name c).2
  | _, _, _, _ => none

/-- What schedules lead to is what scripts that run at the same time may come to. -/
theorem interleaved_iff : Interleaved name s t c a b c' ↔
    ∃ schedule, interleave name schedule s t c = some (a, b, c') := by
  constructor
  · intro h
    induction h with
    | ended a b c => exact ⟨[], rfl⟩
    | left _ ih =>
        obtain ⟨schedule, hrun⟩ := ih
        exact ⟨true :: schedule, hrun⟩
    | @right _ s _ _ _ _ _ _ ih =>
        obtain ⟨schedule, hrun⟩ := ih
        exact ⟨false :: schedule, by cases s <;> exact hrun⟩
  · rintro ⟨schedule, hrun⟩
    fun_induction interleave name schedule s t c with
    | case1 =>
        cases hrun
        exact .ended _ _ _
    | case2 _ _ _ _ _ ih => exact .left (ih hrun)
    | case3 _ _ _ _ _ ih => exact .right (ih hrun)
    | case4 => cases hrun

/-- A script that is done leaves the other one alone. -/
theorem Interleaved.of_done {outcome : Outcome α}
    (h : Interleaved name (.done outcome) t c a b c') :
    a = outcome ∧ t.run name c = (b, c') := by
  induction t generalizing c with
  | done _ =>
      cases h
      exact ⟨rfl, rfl⟩
  | call call next ih =>
      cases h with
      | right hrest => exact ih _ hrest

/-- Once a script has made its only call, the other one runs on its own. -/
theorem Interleaved.serial_of_call {call : HandleCall}
    {next : Outcome (Option Document) → Script α}
    (h : Interleaved name (next (call.perform name c).1) t (call.perform name c).2 a b c')
    (hnext : ∀ reply, ∃ outcome, next reply = .done outcome) :
    Serial name (.call call next) t c a b c' := by
  obtain ⟨outcome, hdone⟩ := hnext (call.perform name c).1
  rw [hdone] at h
  obtain ⟨rfl, hrun⟩ := h.of_done
  exact ⟨_, by rw [run, hdone, run], hrun⟩

/-- Scripts that call once are always serial. -/
theorem Interleaved.serial_of_single (h : Interleaved name s t c a b c') (hs : s.Single)
    (ht : t.Single) : Serial name s t c a b c' ∨ Serial name t s c b a c' := by
  cases hs with
  | done outcome =>
      obtain ⟨rfl, ht⟩ := h.of_done
      exact .inl ⟨c, rfl, ht⟩
  | call _ hnext =>
      cases h with
      | left hrest => exact .inl (hrest.serial_of_call hnext)
      | right hrest =>
          cases ht with
          | call _ hother => exact .inr (hrest.symm.serial_of_call hother)

/-- A single call comes before or after another script, or between its look-up and its call. -/
theorem Interleaved.cases_of_single (h : Interleaved name s t c a b c') (hs : s.Single)
    (ht : t.Short) : Serial name s t c a b c' ∨ Serial name t s c b a c' ∨
      Overtaken name t s c b a c' := by
  cases ht with
  | single ht => exact (h.serial_of_single hs ht).imp_right .inl
  | checked id hnext =>
      cases h with
      | left hrest =>
          cases hs with
          | call _ hcall => exact .inl (hrest.serial_of_call hcall)
      | right hrest =>
          rcases hrest.serial_of_single hs (hnext _) with
            ⟨between, hfirst, hlater⟩ | ⟨between, hfirst, hlater⟩
          · exact .inr (.inr ⟨id, _, between, rfl, hfirst, hlater⟩)
          · exact .inr (.inl ⟨between, hfirst, hlater⟩)

/-- What may happen once one script has made its look-up. -/
theorem Interleaved.cases_of_checked {id : Value}
    {next : Outcome (Option Document) → Script α}
    (h : Interleaved name (next (.ok (c.findById name id))) t c a b c')
    (hnext : (next (.ok (c.findById name id))).Single) (ht : t.Short) :
    Serial name (.call (.find id) next) t c a b c' ∨
      Overtaken name (.call (.find id) next) t c a b c' ∨
        Overtaken name t (.call (.find id) next) c b a c' := by
  rcases h.cases_of_single hnext ht with
    ⟨between, hfirst, hlater⟩ | ⟨between, hfirst, hlater⟩ |
      ⟨other, rest, between, rfl, hfirst, hlater⟩
  · exact .inl ⟨between, hfirst, hlater⟩
  · exact .inr (.inl ⟨id, next, between, rfl, hfirst, hlater⟩)
  · exact .inr (.inr ⟨other, rest, between, rfl, hfirst, hlater⟩)

/-- Short scripts run one after the other, or one of them overtakes the other. -/
theorem Interleaved.cases_of_short (h : Interleaved name s t c a b c') (hs : s.Short)
    (ht : t.Short) : (Serial name s t c a b c' ∨ Serial name t s c b a c') ∨
      Overtaken name s t c a b c' ∨ Overtaken name t s c b a c' := by
  cases hs with
  | single hs =>
      rcases h.cases_of_single hs ht with hserial | hserial | hovertaken
      · exact .inl (.inl hserial)
      · exact .inl (.inr hserial)
      · exact .inr (.inr hovertaken)
  | checked id hnext =>
      cases h with
      | left hrest => exact (hrest.cases_of_checked (hnext _) ht).imp_left .inl
      | right hrest =>
          cases ht with
          | single ht =>
              rcases (Interleaved.right hrest).symm.cases_of_single ht (.checked id hnext) with
                hserial | hserial | hovertaken
              · exact .inl (.inr hserial)
              · exact .inl (.inl hserial)
              · exact .inr (.inl hovertaken)
          | checked other hrestnext =>
              rcases hrest.symm.cases_of_checked (hrestnext _) (.checked id hnext) with
                hserial | hovertaken | hovertaken
              · exact .inl (.inr hserial)
              · exact .inr (.inr hovertaken)
              · exact .inr (.inl hovertaken)

end DocumentBase.Script
