import Mathlib.Data.List.Forall2

/-!
# Results one after the other

A sequence gives the results of its elements (`mapM_eq_ok_iff`), or fails with the first element
that does, once those before it gave theirs (`mapM_eq_error_iff`).
-/

namespace LambdaNotation

variable {α β ε : Type} {f : α → Except ε β} {a : α} {b : β} {l : List α} {e : ε}

theorem mapM_cons_of_error (h : f a = .error e) : (a :: l).mapM f = .error e := by
  rw [List.mapM_cons, h]
  rfl

theorem mapM_cons_of_ok (h : f a = .ok b) : (a :: l).mapM f = (l.mapM f).map (b :: ·) := by
  rw [List.mapM_cons, h]
  cases l.mapM f <;> rfl

theorem mapM_append {l' : List α} :
    (l ++ l').mapM f = (l.mapM f).bind fun bs => (l'.mapM f).map (bs ++ ·) := by
  rw [List.mapM_append]
  cases l.mapM f with
  | error e => rfl
  | ok bs => cases l'.mapM f <;> rfl

theorem mapM_append_eq_ok_iff {l' : List α} {bs : List β} :
    (l ++ l').mapM f = .ok bs ↔
      ∃ us vs, l.mapM f = .ok us ∧ l'.mapM f = .ok vs ∧ bs = us ++ vs := by
  rw [mapM_append]
  constructor
  · intro h
    rcases hl : l.mapM f with e | us <;> rw [hl] at h
    · cases h
    rcases hl' : l'.mapM f with e | vs <;> rw [hl'] at h <;> cases h
    exact ⟨us, vs, rfl, rfl, rfl⟩
  · rintro ⟨us, vs, hus, hvs, rfl⟩
    rw [hus, hvs]
    rfl

/-- A sequence gives the results of its elements, if all of them give one. -/
theorem mapM_eq_ok_iff {bs : List β} :
    l.mapM f = .ok bs ↔ List.Forall₂ (fun a b => f a = .ok b) l bs := by
  induction l generalizing bs with
  | nil =>
    rw [List.mapM_nil, List.forall₂_nil_left_iff]
    exact ⟨fun h => (Except.ok.inj h).symm, fun h => h ▸ rfl⟩
  | cons a l ih =>
    rw [List.forall₂_cons_left_iff]
    constructor
    · intro h
      rcases ha : f a with e | b
      · cases (mapM_cons_of_error ha).symm.trans h
      · rw [mapM_cons_of_ok ha] at h
        rcases hl : l.mapM f with e | us <;> rw [hl] at h <;> cases h
        exact ⟨b, us, rfl, ih.1 hl, rfl⟩
    · rintro ⟨b, us, ha, hus, rfl⟩
      rw [mapM_cons_of_ok ha, ih.2 hus]
      rfl

theorem mapM_append_cons_of_error {before after : List α}
    (hbefore : ∀ x ∈ before, ∃ b, f x = .ok b) (ha : f a = .error e) :
    (before ++ a :: after).mapM f = .error e := by
  induction before with
  | nil => exact mapM_cons_of_error ha
  | cons x before ih =>
    obtain ⟨⟨b, hx⟩, hbefore⟩ := List.forall_mem_cons.1 hbefore
    rw [List.cons_append, mapM_cons_of_ok hx, ih hbefore]
    rfl

/-- It fails with the first element that does. -/
theorem mapM_eq_error_iff : l.mapM f = .error e ↔
    ∃ before a after, l = before ++ a :: after ∧ (∀ x ∈ before, ∃ b, f x = .ok b) ∧
      f a = .error e := by
  constructor
  · intro h
    induction l with
    | nil => cases h
    | cons a l ih =>
      rcases ha : f a with e' | b
      · cases (mapM_cons_of_error ha).symm.trans h
        exact ⟨[], a, l, rfl, fun _ h => (nomatch h), ha⟩
      · rw [mapM_cons_of_ok ha] at h
        rcases hl : l.mapM f with e' | us <;> rw [hl] at h <;> cases h
        obtain ⟨before, x, after, rfl, hbefore, hx⟩ := ih hl
        exact ⟨a :: before, x, after, rfl, List.forall_mem_cons.2 ⟨⟨b, ha⟩, hbefore⟩, hx⟩
  · rintro ⟨before, a, after, rfl, hbefore, ha⟩
    exact mapM_append_cons_of_error hbefore ha

/-- Elements can be matched one by one if each can be. -/
theorem exists_forall₂_iff {R : α → β → Prop} :
    (∃ bs, List.Forall₂ R l bs) ↔ ∀ a ∈ l, ∃ b, R a b := by
  induction l with
  | nil => exact ⟨fun _ _ h => (nomatch h), fun _ => ⟨[], .nil⟩⟩
  | cons a l ih =>
    rw [List.forall_mem_cons, ← ih]
    constructor
    · rintro ⟨_, _ | ⟨ha, hl⟩⟩
      exact ⟨⟨_, ha⟩, _, hl⟩
    · rintro ⟨⟨b, ha⟩, bs, hl⟩
      exact ⟨b :: bs, .cons ha hl⟩

end LambdaNotation
