import LambdaNotation.Proofs.Grammar
import LambdaNotation.Proofs.Joined

/-!
# Which texts are names

Names are known in two ways: `Text.isName` looks at a whole text, and the automaton takes the
letters and digits of a binder or of a variable one by one. The two agree on every text
(`Machine.parse_eq_binder_iff`, `Machine.parse_eq_var_iff`): whatever else a text holds, it is no
binder, and no variable by itself.
-/

namespace LambdaNotation

open Text

namespace Text

variable {s : Text}

/-- A name is a variable unless it begins like a lambda. -/
theorem isVariable_iff : IsVariable s ↔ isName s ∧ s.head? ≠ some 'L' := by
  constructor
  · intro h
    obtain ⟨stem, digits, rfl, ⟨hne, hl, -⟩, -⟩ := id h
    exact ⟨h.isName, by rwa [List.head?_append_of_ne_nil _ hne]⟩
  · rintro ⟨hn, hl⟩
    obtain ⟨letters, digits, rfl, hne, hu, hd⟩ := isName_iff.1 hn
    rw [List.head?_append_of_ne_nil _ hne] at hl
    exact ⟨letters, digits, rfl, ⟨hne, hl, hu⟩, hd⟩

/-- A word is a name or letters alone, and does not begin like a lambda. -/
theorem isWord_iff :
    IsWord s ↔ s.head? ≠ some 'L' ∧ (isName s ∨ s ≠ [] ∧ ∀ c ∈ s, c.isUpper) := by
  unfold IsWord IsStem
  rw [isVariable_iff]
  tauto

end Text

namespace Derivation

variable {d : Derivation} {w v s : Text}

theorem eq_nil_of_terms (h : d.terms = []) : d = nil := by
  cases d with
  | nil => rfl
  | _ => cases h

/-- A word has a derivation, as a variable. -/
theorem exists_of_isWord (h : IsWord s) :
    ∃ d : Derivation, d.text = s ∧ d.terms = [.var s] ∧ d.depth = 0 := by
  rcases h with ⟨stem, digits, rfl, hs, hd⟩ | h
  · exact ⟨.name stem digits hs hd .nil, List.append_nil _, rfl, rfl⟩
  · exact ⟨.stem s h, rfl, rfl, rfl⟩

/-- What is derived as one variable is its word. -/
theorem isWord_of_terms (h : d.terms = [.var v]) : d.text = v ∧ IsWord v := by
  cases d with
  | stem ls hs =>
    obtain rfl := Term.var.inj (List.cons.inj h).1
    exact ⟨rfl, .inr hs⟩
  | name ls ds hs hd rest =>
    obtain ⟨hv, hrest⟩ := List.cons.inj h
    obtain rfl := Term.var.inj hv
    rw [eq_nil_of_terms hrest]
    exact ⟨List.append_nil _, .inl ⟨ls, ds, rfl, hs, hd⟩⟩
  | nil | group | lambda => cases h

/-- A name binds an empty body. -/
theorem exists_of_isName (h : isName w) : ∃ d : Derivation,
    d.text = 'L' :: (w ++ ".()".toList) ∧ d.terms = [.lambda w (.group [])] ∧ d.depth = 1 := by
  obtain ⟨ls, ds, rfl, hne, hl, hd⟩ := isName_iff.1 h
  exact ⟨.lambda ls ds hne hl hd .nil .nil, List.append_nil _, rfl, rfl⟩

/-- What is derived as a bound node is bound by a name. -/
theorem isName_of_terms {parts ts : List Term} {stored : Text}
    (h : d.terms = .node (some w) parts stored :: ts) : isName w := by
  cases d with
  | lambda ls ds hne hl hd body rest =>
    obtain ⟨hbinder, -, -⟩ := Term.node.inj (List.cons.inj h).1
    rw [← Option.some.inj hbinder]
    exact isName_iff.2 ⟨ls, ds, rfl, hne, hl, hd⟩
  | nil | stem | name | group => cases h

end Derivation

namespace Machine

variable {limit : UInt64} {s : Text}

/-- A text is taken as the binder of an empty lambda just if its raised letters make it a name. -/
theorem parse_eq_binder_iff (hs : s.length < 2 ^ 30) (hl : 1 ≤ limit) :
    (∃ inner stored, ((standard limit).parse ('L' :: (s ++ ".()".toList))).value =
      .ok [.node (some s.raised) [.node none [] inner] stored]) ↔ isName s.raised := by
  have hlen : ('L' :: (s ++ ".()".toList)).length < 2 ^ 31 := by
    simp only [List.length_cons, List.length_append]
    have h3 : ".()".toList.length = 3 := by decide
    omega
  have hraised : raised ('L' :: (s ++ ".()".toList)) = 'L' :: (s.raised ++ ".()".toList) := by
    rw [raised_cons, raised_append]
    rfl
  constructor
  · rintro ⟨inner, stored, h⟩
    obtain ⟨d, -, -, hd⟩ := exists_derivation_of_parse hlen h
    exact Derivation.isName_of_terms hd
  · intro h
    obtain ⟨d, htext, hterms, hdepth⟩ := Derivation.exists_of_isName h
    have hlimit : 1 ≤ limit.toNat := UInt64.le_iff_toNat_le.1 hl
    have hwithin : d.depth ≤ limit.toNat := by omega
    have hread := parse_of_derivation d hlen (htext.trans hraised.symm) hwithin
    rw [hterms] at hread
    exact ⟨_, _, hread⟩

/-- A text is read as one variable just if its raised letters make it a word. -/
theorem parse_eq_var_iff (hs : s.length < 2 ^ 31) (v : Text) :
    ((standard limit).parse s).value = .ok [.var v] ↔ v = s.raised ∧ IsWord s.raised := by
  constructor
  · intro h
    obtain ⟨d, htext, -, hd⟩ := exists_derivation_of_parse hs h
    obtain ⟨rfl, hw⟩ := Derivation.isWord_of_terms hd
    rw [← htext]
    exact ⟨rfl, hw⟩
  · rintro ⟨rfl, h⟩
    obtain ⟨d, htext, hterms, hdepth⟩ := Derivation.exists_of_isWord h
    rw [parse_of_derivation d hs htext (by omega), hterms]

/-- **Both ways to know names agree**, on every text: a binder is what `isName` calls a name, and a
variable is that or letters alone, unless it begins like a lambda. What is found is the text itself,
raised. -/
theorem parse_agrees_with_isName (hs : s.length < 2 ^ 30) (hl : 1 ≤ limit) :
    ((∃ inner stored, ((standard limit).parse ('L' :: (s ++ ".()".toList))).value =
        .ok [.node (some s.raised) [.node none [] inner] stored]) ↔ isName s.raised) ∧
      ∀ v, ((standard limit).parse s).value = .ok [.var v] ↔
        v = s.raised ∧ s.raised.head? ≠ some 'L' ∧
          (isName s.raised ∨ s.raised ≠ [] ∧ ∀ c ∈ s.raised, c.isUpper) := by
  refine ⟨parse_eq_binder_iff hs hl, fun v => ?_⟩
  rw [parse_eq_var_iff (by omega), isWord_iff]

/-- A binder may begin with the letter for lambda, and then is no variable; two lambdas are not one
with a long binder. -/
theorem parse_agrees_with_isName_after_lambda :
    "lx1".toList.length < 2 ^ 30 ∧ "x1.()ly1".toList.length < 2 ^ 30 ∧ (1 : UInt64) ≤ 1 ∧
      (∃ inner stored, ((standard 1).parse ('L' :: ("lx1".toList ++ ".()".toList))).value =
        .ok [.node (some "LX1".toList) [.node none [] inner] stored]) ∧
      (∀ v, ((standard 1).parse "lx1".toList).value ≠ .ok [.var v]) ∧
      ¬ ∃ inner stored, ((standard 1).parse ('L' :: ("x1.()ly1".toList ++ ".()".toList))).value =
        .ok [.node (some "X1.()LY1".toList) [.node none [] inner] stored] := by
  have hlen : "lx1".toList.length < 2 ^ 30 := by decide
  have hlen' : "x1.()ly1".toList.length < 2 ^ 30 := by decide
  have hl : (1 : UInt64) ≤ 1 := by decide
  obtain ⟨hbinder, hvar⟩ := parse_agrees_with_isName hlen hl
  obtain ⟨hbinder', -⟩ := parse_agrees_with_isName hlen' hl
  refine ⟨hlen, hlen', hl, hbinder.2 (by decide), fun v h => ?_, fun h => ?_⟩
  · exact ((hvar v).1 h).2.1 rfl
  · exact absurd (hbinder'.1 h) (by decide)

end Machine

end LambdaNotation
