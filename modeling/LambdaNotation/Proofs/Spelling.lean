import LambdaNotation.Proofs.Balance
import LambdaNotation.Text.Name

/-!
# The spelling of variables

A variable is a stem, letters of which the first is not `L`, and then digits; at the end of a text
the stem may stand alone. Names hold no parentheses, and what is raised to upper case once stays as
it is.
-/

namespace LambdaNotation.Text

/-- Letters with which a variable may begin. -/
def IsStem (s : Text) : Prop := s ≠ [] ∧ s.head? ≠ some 'L' ∧ ∀ c ∈ s, c.isUpper

/-- A stem and then digits. -/
def IsVariable (s : Text) : Prop :=
  ∃ stem digits, s = stem ++ digits ∧ IsStem stem ∧ isDigitRun digits

/-! ## Growing by one character -/

theorem isStem_singleton {c : Char} (hc : c.isUpper) (hl : c ≠ 'L') : IsStem [c] :=
  ⟨List.cons_ne_nil _ _, by simpa using hl, by simpa using hc⟩

theorem forall_isUpper_concat {s : Text} {c : Char} (hs : ∀ x ∈ s, x.isUpper) (hc : c.isUpper) :
    ∀ x ∈ s ++ [c], x.isUpper := by
  intro x hx
  rcases List.mem_append.1 hx with hx | hx
  · exact hs x hx
  · rwa [List.mem_singleton.1 hx]

theorem IsStem.concat {s : Text} {c : Char} (h : IsStem s) (hc : c.isUpper) :
    IsStem (s ++ [c]) := by
  obtain ⟨hne, hl, hs⟩ := h
  exact ⟨by simp, by rwa [List.head?_append_of_ne_nil _ hne], forall_isUpper_concat hs hc⟩

theorem isDigitRun_singleton {c : Char} (hc : c.isDigit) : isDigitRun [c] := by
  simp [isDigitRun, hc]

theorem isDigitRun_concat {s : Text} {c : Char} (h : isDigitRun s) (hc : c.isDigit) :
    isDigitRun (s ++ [c]) := by
  rw [isDigitRun_iff] at h ⊢
  refine ⟨by simp, fun x hx => ?_⟩
  rcases List.mem_append.1 hx with hx | hx
  · exact h.2 x hx
  · rwa [List.mem_singleton.1 hx]

theorem IsStem.isVariable {s : Text} {c : Char} (h : IsStem s) (hc : c.isDigit) :
    IsVariable (s ++ [c]) := ⟨s, [c], rfl, h, isDigitRun_singleton hc⟩

theorem IsVariable.concat {s : Text} {c : Char} (h : IsVariable s) (hc : c.isDigit) :
    IsVariable (s ++ [c]) := by
  obtain ⟨stem, digits, rfl, hs, hd⟩ := h
  exact ⟨stem, digits ++ [c], List.append_assoc .., hs, isDigitRun_concat hd hc⟩

theorem isName_of_letters {s : Text} {c : Char} (hne : s ≠ []) (hs : ∀ x ∈ s, x.isUpper)
    (hc : c.isDigit) : isName (s ++ [c]) :=
  isName_iff.2 ⟨s, [c], rfl, hne, hs, isDigitRun_singleton hc⟩

theorem isName_concat {s : Text} {c : Char} (h : isName s) (hc : c.isDigit) :
    isName (s ++ [c]) := by
  obtain ⟨letters, digits, rfl, hne, hl, hd⟩ := isName_iff.1 h
  have hd' := isDigitRun_concat hd hc
  exact isName_iff.2 ⟨letters, digits ++ [c], List.append_assoc .., hne, hl, hd'⟩

theorem IsVariable.isName {s : Text} (h : IsVariable s) : isName s := by
  obtain ⟨stem, digits, rfl, ⟨hne, -, hs⟩, hd⟩ := h
  exact isName_iff.2 ⟨stem, digits, rfl, hne, hs, hd⟩

theorem takeWhile_letters {ls ds : Text} (hl : ∀ c ∈ ls, c.isUpper) (hd : isDigitRun ds) :
    (ls ++ ds).takeWhile Char.isUpper = ls := by
  obtain ⟨hne, hd⟩ := isDigitRun_iff.1 hd
  obtain ⟨d, ds, rfl⟩ := List.exists_cons_of_ne_nil hne
  have hu := not_isUpper_of_isDigit (hd d (by simp))
  rw [List.takeWhile_append_of_pos hl, List.takeWhile_cons_of_neg (by simp [hu]), List.append_nil]

/-- A name is letters and digits in only one way. -/
theorem letters_digits_inj {ls ds ls' ds' : Text} (hl : ∀ c ∈ ls, c.isUpper) (hd : isDigitRun ds)
    (hl' : ∀ c ∈ ls', c.isUpper) (hd' : isDigitRun ds') (h : ls ++ ds = ls' ++ ds') :
    ls = ls' ∧ ds = ds' := by
  have he : ls = ls' := by rw [← takeWhile_letters hl hd, h, takeWhile_letters hl' hd']
  subst he
  exact ⟨rfl, List.append_cancel_left h⟩

/-! ## The characters of names -/

theorem isUpper_or_isDigit_of_mem {s : Text} (h : isName s) {c : Char} (hc : c ∈ s) :
    c.isUpper ∨ c.isDigit := by
  obtain ⟨letters, digits, rfl, -, hl, hd⟩ := isName_iff.1 h
  exact (List.mem_append.1 hc).imp (hl c) ((isDigitRun_iff.1 hd).2 c)

theorem IsStem.not_isVariable {s : Text} (h : IsStem s) : ¬ IsVariable s := by
  rintro ⟨stem, digits, rfl, -, hd⟩
  obtain ⟨hne, hd⟩ := isDigitRun_iff.1 hd
  obtain ⟨d, ds, rfl⟩ := List.exists_cons_of_ne_nil hne
  have hu : d.isUpper := h.2.2 d (by simp)
  rw [not_isUpper_of_isDigit (hd d (by simp))] at hu
  exact Bool.noConfusion hu

theorem ne_parenthesis {c : Char} (h : c.isUpper ∨ c.isDigit) : c ≠ '(' ∧ c ≠ ')' := by
  constructor <;> rintro rfl <;> exact absurd h (by decide)

theorem balanced_of_isName {s : Text} (h : isName s) : Balanced s :=
  balanced_of_forall fun _ hc => ne_parenthesis (isUpper_or_isDigit_of_mem h hc)

/-- In a lambda there is no parenthesis before its body. -/
theorem ne_parenthesis_of_mem_header {w : Text} (h : isName w) :
    ∀ c ∈ 'L' :: (w ++ ['.']), c ≠ '(' ∧ c ≠ ')' := by
  intro c hc
  rcases List.mem_cons.1 hc with rfl | hc
  · decide
  rcases List.mem_append.1 hc with hc | hc
  · exact ne_parenthesis (isUpper_or_isDigit_of_mem h hc)
  · rw [List.mem_singleton.1 hc]
    decide

theorem IsStem.balanced {s : Text} (h : IsStem s) : Balanced s :=
  balanced_of_forall fun c hc => ne_parenthesis (.inl (h.2.2 c hc))

/-! ## Raising -/

@[simp] theorem raised_raised (s : Text) : raised (raised s) = raised s := by
  unfold raised
  rw [List.map_map]
  exact List.map_congr_left fun c _ => Char.toUpper_toUpper_eq_toUpper c

theorem raised_eq_self_iff {s : Text} : raised s = s ↔ ∀ c ∈ s, c.toUpper = c := by
  induction s with
  | nil => simp
  | cons c s ih => rw [raised_cons, List.cons.injEq, ih, List.forall_mem_cons]

theorem toUpper_of_letter {c : Char} (h : c.isUpper ∨ c.isDigit) : c.toUpper = c := by
  apply Char.toUpper_eq_of_not_isLower
  rcases h with h | h
  · exact Char.not_isLower_of_isUpper h
  · simp only [Char.isDigit, Char.isLower, Bool.and_eq_true, decide_eq_true_eq] at h ⊢
    rintro ⟨hl, -⟩
    exact absurd (UInt32.le_trans hl h.2) (by decide)

/-- Raising makes nothing but letters. -/
theorem eq_of_toUpper_eq {c x : Char} (h : c.toUpper = x) (hx : x.isUpper = false) : c = x := by
  have ha : c.isAlpha = false := by rw [← Char.isUpper_toUpper_eq_isAlpha, h, hx]
  have hl : ¬ c.isLower := by
    unfold Char.isAlpha at ha
    rw [(Bool.or_eq_false_iff.1 ha).2]
    decide
  rw [← h, Char.toUpper_eq_of_not_isLower hl]

theorem raised_of_isName {s : Text} (h : isName s) : raised s = s :=
  raised_eq_self_iff.2 fun _ hc => toUpper_of_letter (isUpper_or_isDigit_of_mem h hc)

theorem raised_of_part {s t : Text} (ht : raised t = t) (h : s <:+: t) : raised s = s :=
  raised_eq_self_iff.2 fun c hc => raised_eq_self_iff.1 ht c (h.subset hc)

end LambdaNotation.Text
