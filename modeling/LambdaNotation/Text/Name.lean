import LambdaNotation.Text

/-!
# Names

The names of variables and binders: letters `A` to `Z`, then decimal digits, at least one of each.
-/

namespace LambdaNotation.Text

/-- At least one decimal digit and nothing else. -/
def isDigitRun (s : Text) : Bool := !s.isEmpty && s.all Char.isDigit

/-- A run of letters `A` to `Z`, then a run of digits. -/
def isName (s : Text) : Bool :=
  !(s.takeWhile Char.isUpper).isEmpty && isDigitRun (s.dropWhile Char.isUpper)

theorem isDigitRun_iff {s : Text} : isDigitRun s ↔ s ≠ [] ∧ ∀ c ∈ s, c.isDigit := by
  simp [isDigitRun]

theorem not_isUpper_of_isDigit {c : Char} (h : c.isDigit) : c.isUpper = false := by
  have h : c.val ≤ 57 := by
    simp only [Char.isDigit, Bool.and_eq_true, decide_eq_true_eq] at h
    exact h.2
  exact decide_eq_false fun h' => absurd (UInt32.le_trans h'.1 h) (by decide)

/-- A name is a run of letters followed by a run of digits, in only one way. -/
theorem isName_iff {s : Text} :
    isName s ↔ ∃ letters digits, s = letters ++ digits ∧ letters ≠ [] ∧
      (∀ c ∈ letters, c.isUpper) ∧ isDigitRun digits := by
  constructor
  · intro h
    simp only [isName, Bool.and_eq_true, Bool.not_eq_true', List.isEmpty_eq_false_iff] at h
    exact ⟨_, _, (List.takeWhile_append_dropWhile ..).symm, h.1,
      fun c hc => by simpa using List.all_eq_true.1 (List.all_takeWhile (l := s)) c hc, h.2⟩
  · rintro ⟨letters, digits, rfl, hne, hl, hd⟩
    have hd' := isDigitRun_iff.1 hd
    obtain ⟨d, ds, rfl⟩ := List.exists_cons_of_ne_nil hd'.1
    have hu : d.isUpper = false := not_isUpper_of_isDigit (hd'.2 d (by simp))
    have ht : (letters ++ d :: ds).takeWhile Char.isUpper = letters := by
      rw [List.takeWhile_append_of_pos hl]; simp [hu]
    have hr : (letters ++ d :: ds).dropWhile Char.isUpper = d :: ds := by
      rw [List.dropWhile_append_of_pos hl]; simp [hu]
    simp [isName, ht, hr, hne, hd]

end LambdaNotation.Text
