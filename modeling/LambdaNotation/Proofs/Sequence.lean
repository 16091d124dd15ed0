import LambdaNotation.Context

/-!
# Actions one after the other

An action that fails ends a sequence: those before it went through, and those after it do not
matter (`exists_of_forM_eq_error`, `forM_of_error`). What each action keeps, the sequence keeps
(`forM_keeps`).
-/

namespace LambdaNotation

variable {α β : Type} {k k' k₁ : Context} {y : Failure ParseError}

section Bind

variable {x : Action α} {f : α → Action β} {a : α} {b : β}

theorem bind_of_ok (h : x k = .ok a k₁) : EStateM.bind x f k = f a k₁ := by
  unfold EStateM.bind
  rw [h]

theorem bind_of_error (h : x k = .error y k₁) : EStateM.bind x f k = .error y k₁ := by
  unfold EStateM.bind
  rw [h]

/-- An action that goes through goes through its first part and then its second. -/
theorem exists_of_bind_eq_ok (h : EStateM.bind x f k = .ok b k') :
    ∃ a k₁, x k = .ok a k₁ ∧ f a k₁ = .ok b k' := by
  rcases hx : x k with ⟨a, k₁⟩ | ⟨z, k₁⟩
  · rw [bind_of_ok hx] at h
    exact ⟨a, k₁, rfl, h⟩
  · rw [bind_of_error hx] at h
    cases h

/-- An action that fails does so in its first part or in its second. -/
theorem exists_of_bind_eq_error (h : EStateM.bind x f k = .error y k') :
    x k = .error y k' ∨ ∃ a k₁, x k = .ok a k₁ ∧ f a k₁ = .error y k' := by
  rcases hx : x k with ⟨a, k₁⟩ | ⟨z, k₁⟩
  · rw [bind_of_ok hx] at h
    exact .inr ⟨a, k₁, rfl, h⟩
  · rw [bind_of_error hx] at h
    cases h
    exact .inl rfl

end Bind

section ForM

variable {f : α → Action Unit} {l l' : List α} {a : α}

theorem forM_append_of_ok (h : l.forM f k = .ok () k₁) : (l ++ l').forM f k = l'.forM f k₁ := by
  induction l generalizing k with
  | nil =>
    cases h
    rfl
  | cons a l ih =>
    obtain ⟨_, k₂, ha, hl⟩ := exists_of_bind_eq_ok h
    exact (bind_of_ok ha).trans (ih hl)

/-- A sequence that goes through goes through its first part. -/
theorem exists_of_forM_append_eq_ok (h : (l ++ l').forM f k = .ok () k') :
    ∃ k₁, l.forM f k = .ok () k₁ ∧ l'.forM f k₁ = .ok () k' := by
  induction l generalizing k with
  | nil => exact ⟨k, rfl, h⟩
  | cons a l ih =>
    obtain ⟨_, k₂, ha, hl⟩ := exists_of_bind_eq_ok h
    obtain ⟨k₁, h₁, h₂⟩ := ih hl
    exact ⟨k₁, (bind_of_ok ha).trans h₁, h₂⟩

theorem bind_forM_append_of_ok {g : Unit → Action β} (h : l.forM f k = .ok () k₁) :
    EStateM.bind ((l ++ l').forM f) g k = EStateM.bind (l'.forM f) g k₁ := by
  unfold EStateM.bind
  rw [forM_append_of_ok h]

theorem bind_forM_cons {g : Unit → Action β} :
    EStateM.bind ((a :: l).forM f) g k =
      EStateM.bind (f a) (fun _ => EStateM.bind (l.forM f) g) k := by
  have hl : (a :: l).forM f k = EStateM.bind (f a) (fun _ => l.forM f) k := rfl
  rcases ha : f a k with ⟨_, k₁⟩ | ⟨y, k₁⟩
  · rw [bind_of_ok ha] at hl ⊢
    unfold EStateM.bind
    rw [hl]
  · rw [bind_of_error ha] at hl ⊢
    exact bind_of_error hl

theorem bind_forM_cons_of_ok {g : Unit → Action β} (h : f a k = .ok () k₁) :
    EStateM.bind ((a :: l).forM f) g k = EStateM.bind (l.forM f) g k₁ :=
  bind_forM_cons.trans (bind_of_ok h)

theorem bind_forM_cons_of_error {g : Unit → Action β} (h : f a k = .error y k₁) :
    EStateM.bind ((a :: l).forM f) g k = .error y k₁ :=
  bind_forM_cons.trans (bind_of_error h)

theorem forM_of_error (hl : l.forM f k = .ok () k₁) (ha : f a k₁ = .error y k') :
    (l ++ a :: l').forM f k = .error y k' :=
  (forM_append_of_ok hl).trans (bind_of_error ha)

/-- A sequence fails with one of its elements, once it went through those before it. -/
theorem exists_of_forM_eq_error (h : l.forM f k = .error y k') :
    ∃ p a q k₁, l = p ++ a :: q ∧ p.forM f k = .ok () k₁ ∧ f a k₁ = .error y k' := by
  induction l generalizing k with
  | nil => cases h
  | cons a l ih =>
    rcases exists_of_bind_eq_error h with ha | ⟨_, k₂, ha, hl⟩
    · exact ⟨[], a, l, k, rfl, rfl, ha⟩
    · obtain ⟨p, b, q, k₁, rfl, hp, hb⟩ := ih hl
      exact ⟨a :: p, b, q, k₁, rfl, (bind_of_ok ha).trans hp, hb⟩

/-- What each element keeps, the whole sequence keeps. -/
theorem forM_keeps {P : Context → Prop}
    (hf : ∀ a ∈ l, ∀ k k', P k → f a k = .ok () k' → P k') (hk : P k)
    (h : l.forM f k = .ok () k') : P k' := by
  induction l generalizing k with
  | nil =>
    cases h
    exact hk
  | cons a l ih =>
    obtain ⟨ha, hl⟩ := List.forall_mem_cons.1 hf
    obtain ⟨_, k₁, h₁, h₂⟩ := exists_of_bind_eq_ok h
    exact ih hl (ha k k₁ hk h₁) h₂

end ForM

end LambdaNotation
