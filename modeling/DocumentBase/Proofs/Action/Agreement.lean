import DocumentBase.Proofs.Store.Steps

/-!
# Two runs of one action

A relation between collections says what two stores have in common.  An action agrees on such
stores when it cannot tell them apart: the outcomes are equal, and the stores have still in
common what they had before.  Agreement is kept along the steps of an operation.
-/

namespace DocumentBase.Action

variable {α β : Type}

/-- Two runs have the same outcome, and a result that they have meets a condition. -/
def Agrees (R : Relation) (env : Environment) (a : Action α) (post : α → Prop) : Prop :=
  ∀ w₁ w₂, R w₁.collections w₂.collections →
    (a.run env w₁).1 = (a.run env w₂).1 ∧
      R (a.run env w₁).2.collections (a.run env w₂).2.collections ∧
      ∀ result, (a.run env w₁).1 = .ok result → post result

variable {R : Relation} {env : Environment}

/-- Two runs that agree on the first action go on with one and the same result. -/
theorem Agrees.bind {a : Action α} {next : α → Action β} {middle : α → Prop} {post : β → Prop}
    (ha : Agrees R env a middle)
    (hnext : ∀ result, middle result → Agrees R env (next result) post) :
    Agrees R env (a >>= next) post := by
  intro w₁ w₂ hR
  obtain ⟨houtcome, hafter, hmiddle⟩ := ha w₁ w₂ hR
  cases h₁ : a.run env w₁ with
  | mk outcome₁ w₁' =>
    cases h₂ : a.run env w₂ with
    | mk outcome₂ w₂' =>
      rw [h₁, h₂] at houtcome hafter
      rw [h₁] at hmiddle
      simp only at houtcome
      subst houtcome
      cases outcome₁ with
      | ok result =>
          rw [run_bind_of_ok h₁, run_bind_of_ok h₂]
          exact hnext result (hmiddle result rfl) w₁' w₂' hafter
      | error e =>
          rw [run_bind_of_error h₁, run_bind_of_error h₂]
          exact ⟨rfl, hafter, fun result h => by cases h⟩

/-- It is enough that the part of a result agrees that is used later. -/
theorem Agrees.bind_part {γ : Type} {a : Action α} {part : α → γ} {next : γ → Action β}
    {middle : γ → Prop} {post : β → Prop} (ha : Agrees R env (do return part (← a)) middle)
    (hnext : ∀ result, middle result → Agrees R env (next result) post) :
    Agrees R env (a >>= fun result => next (part result)) post := by
  have hassoc : (a >>= fun result => next (part result)) =
      (do return part (← a)) >>= next := by
    funext env w
    cases hrun : a env w with
    | mk outcome w' =>
      cases outcome with
      | ok result => simp [Bind.bind, pure, hrun]
      | error e => simp [Bind.bind, hrun]
  rw [hassoc]
  exact ha.bind hnext

/-- What only tells has one outcome, so it cannot tell stores apart. -/
theorem Tells.agrees {a : Action α} {outcome : Outcome α} {post : α → Prop}
    (ha : Tells env a outcome) (hpost : ∀ result, outcome = .ok result → post result) :
    Agrees R env a post := by
  intro w₁ w₂ hR
  obtain ⟨events₁, h₁⟩ := ha w₁
  obtain ⟨events₂, h₂⟩ := ha w₂
  rw [h₁, h₂]
  exact ⟨rfl, hR, hpost⟩

theorem agrees_pure {result : α} {post : α → Prop} (h : post result) :
    Agrees R env (pure result) post :=
  (tells_pure env result).agrees fun _ heq => by
    cases heq
    exact h

theorem agrees_lift {outcome : Outcome α} {post : α → Prop}
    (h : ∀ result, outcome = .ok result → post result) :
    Agrees R env (liftM outcome : Action α) post :=
  (tells_lift env outcome).agrees h

/-- A computation whose result is known. -/
theorem agrees_given {outcome : Outcome α} {result : α} {next : α → Action β} {post : β → Prop}
    (h : outcome = .ok result) (hnext : Agrees R env (next result) post) :
    Agrees R env (liftM outcome >>= next) post := by
  subst h
  exact hnext

/-- A computation whose result is not known. -/
theorem agrees_unknown {outcome : Outcome α} {next : α → Action β} {post : β → Prop}
    (hnext : ∀ result, outcome = .ok result → Agrees R env (next result) post) :
    Agrees R env (liftM outcome >>= next) post := by
  have hfirst : Agrees R env (liftM outcome : Action α) fun result => outcome = .ok result :=
    agrees_lift fun _ h => h
  exact hfirst.bind hnext

/-- A reading agrees wherever what it reads is the same on both sides. -/
theorem agrees_read {f : Collections → Outcome α}
    (h : ∀ c₁ c₂, R c₁ c₂ → f c₁ = f c₂) : Agrees R env (read f) fun _ => True :=
  fun w₁ w₂ hR => ⟨h w₁.collections w₂.collections hR, hR, fun _ _ => trivial⟩

/-- Something that could have changed the collections, but did not. -/
theorem agrees_change {f : Collections → Outcome (α × Collections)} {g : Collections → Outcome α}
    (hf : ∀ c, f c = (g c).map fun result => (result, c))
    (h : ∀ c₁ c₂, R c₁ c₂ → g c₁ = g c₂) : Agrees R env (change f) fun _ => True := by
  intro w₁ w₂ hR
  have hrun : ∀ w : World, (change f).run env w = (g w.collections, w) := by
    intro w
    simp only [run, change, hf]
    cases g w.collections with
    | ok result => rfl
    | error e => rfl
  rw [hrun, hrun]
  exact ⟨h _ _ hR, hR, fun _ _ => trivial⟩

theorem Agrees.inOperation {a : Action α} {post : α → Prop} (ha : Agrees R env a post)
    (operation : Operation) (collection : String) :
    Agrees R env (a.inOperation operation collection) post := by
  intro w₁ w₂ hR
  obtain ⟨houtcome, hafter, hpost⟩ := ha w₁ w₂ hR
  have hrun : ∀ w : World, (a.inOperation operation collection).run env w =
      ((a.run env w).1.mapError (·.inOperation operation.name collection), (a.run env w).2) :=
    fun _ => rfl
  rw [hrun, hrun]
  refine ⟨by rw [houtcome], hafter, ?_⟩
  intro result hresult
  apply hpost
  cases h : (a.run env w₁).1 with
  | ok found =>
      rw [h] at hresult
      exact hresult
  | error e =>
      rw [h] at hresult
      cases hresult

theorem Agrees.weaken {a : Action α} {strong post : α → Prop} (ha : Agrees R env a strong)
    (himp : ∀ result, strong result → post result) : Agrees R env a post := by
  intro w₁ w₂ hR
  obtain ⟨houtcome, hafter, hpost⟩ := ha w₁ w₂ hR
  exact ⟨houtcome, hafter, fun result h => himp result (hpost result h)⟩

theorem Agrees.holding {a : Action α} {post : α → Prop} (ha : Agrees R env a post)
    (v : CollectionView) (operation : Operation) :
    Agrees R env (v.holding operation a) post := by
  have hacquire : Agrees R env (v.acquire operation) fun _ => True :=
    (v.tells_acquire env operation).agrees fun _ _ => trivial
  have hattempt : Agrees R env (a.inOperation operation v.name).attempt
      fun outcome => ∀ result, outcome = .ok result → post result := by
    intro w₁ w₂ hR
    obtain ⟨houtcome, hafter, hpost⟩ := ha.inOperation operation v.name w₁ w₂ hR
    have hrun : ∀ w : World, ((a.inOperation operation v.name).attempt.run env w).1 =
        .ok ((a.inOperation operation v.name).run env w).1 := fun _ => rfl
    refine ⟨by rw [hrun, hrun, houtcome], hafter, ?_⟩
    rintro _ ⟨⟩ result hresult
    exact hpost result hresult
  refine hacquire.bind fun _ _ => hattempt.bind fun outcome houtcome => ?_
  exact ((v.tells_release env).agrees fun _ _ => trivial).bind fun _ (_ : True) =>
    agrees_lift houtcome

/-- What is read while a collection is held agrees as far as its parts do. -/
theorem agrees_holding_read (v : CollectionView) (operation : Operation) {f : Collections → α}
    (part : α → β) (h : ∀ c₁ c₂, R c₁ c₂ → part (f c₁) = part (f c₂)) :
    Agrees R env (do return part (← v.holding operation (read fun c => .ok (f c))))
      fun _ => True := by
  intro w₁ w₂ hR
  rcases v.run_holding operation (read fun c => .ok (f c)) env w₁ with
    ⟨e, events, haccess, h₁⟩ | ⟨before, later, haccess, h₁⟩
  · rcases v.run_holding operation (read fun c => .ok (f c)) env w₂ with
      ⟨e', events', haccess', h₂⟩ | ⟨before', later', haccess', h₂⟩
    · rw [run_bind_of_error h₁, run_bind_of_error h₂]
      rw [haccess, Except.error.injEq] at haccess'
      exact ⟨by rw [haccess'], hR, fun _ _ => trivial⟩
    · simp [haccess] at haccess'
  · rcases v.run_holding operation (read fun c => .ok (f c)) env w₂ with
      ⟨e', events', haccess', h₂⟩ | ⟨before', later', haccess', h₂⟩
    · simp [haccess] at haccess'
    · rw [run_bind_of_ok h₁, run_bind_of_ok h₂]
      refine ⟨?_, hR, fun _ _ => trivial⟩
      exact congrArg Except.ok (h _ _ hR)

end DocumentBase.Action
