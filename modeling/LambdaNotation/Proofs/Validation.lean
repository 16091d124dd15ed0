import LambdaNotation.Proofs.Agreement

/-!
# The machine without callbacks

The machine without callbacks does what the machine that builds terms would do if it could read
every body (`Machine.run_bare_value`). So it accepts more: the bodies of groups and lambdas may be
any balanced texts, but the pieces around them are those of the notation
(`Machine.parse_bare_eq_ok_iff`).
-/

namespace LambdaNotation

open Text

/-- Reads every body, as no terms at all. -/
def BodyReader.lenient : BodyReader := fun _ _ => ⟨.ok [], ∅⟩

theorem BodyReader.inner_lenient (b : Text) : (lenient.inner b 0).value = .ok [] :=
  inner_eq_ok_iff.2 ⟨by decide, rfl⟩

/-- What the automaton alone finds in a text: its error, if there is one. -/
def Cut.verdict (x : Cut) : Outcome :=
  match x.error with
  | none => .ok []
  | some g => .error (.ofFault (.grammar g))

theorem Cut.verdict_eq_ok_iff {x : Cut} {ts : List Term} :
    x.verdict = .ok ts ↔ ts = [] ∧ x.error = none := by
  unfold verdict
  rcases x.error with _ | g
  · constructor
    · intro h
      exact ⟨(Except.ok.inj h).symm, rfl⟩
    · rintro ⟨rfl, -⟩
      rfl
  · exact ⟨fun h => (nomatch h), fun h => nomatch h.2⟩

/-- With all bodies read, only the automaton fails. -/
theorem Cut.error_of_outcome_lenient {x : Cut} {y : Failure ParseError}
    (h : x.outcome BodyReader.lenient 0 = .error y) :
    ∃ g, x.error = some g ∧ y = .ofFault (.grammar g) := by
  rcases Cut.outcome_eq_error h with ⟨p, -, hp⟩ | hg
  · obtain ⟨b, -, hb⟩ := Piece.exists_of_read_eq_error hp
    rw [BodyReader.inner_lenient] at hb
    cases hb
  · exact hg

namespace Machine

variable {limit level : UInt64} {s : Text}

/-- **What a run without callbacks makes of a text** is what the automaton finds in it. -/
theorem run_bare_value (read : BodyReader) (hs : s.length < 2 ^ 31) :
    ((bare limit).run read s level).value = (Pending.start.cut s.raised).verdict := by
  have hrun := run_value limit BodyReader.lenient hs 0
  rcases run_agrees_with_bare (keeps_standard limit) limit BodyReader.lenient read s 0 level
    with ⟨x, hx⟩ | ⟨ts, hstd, hbare⟩ | ⟨y, hstd, hbare, -⟩
  · -- A callback fails only with the failure of a body, and no body has one.
    obtain ⟨b, -, -, -, -, hb⟩ := exists_inner_of_callbackFails hx
    cases (BodyReader.inner_lenient b).symm.trans hb
  · rw [hrun] at hstd
    rw [hbare, Cut.verdict, (Cut.outcome_eq_ok_iff.1 hstd).1]
  · rw [hrun] at hstd
    obtain ⟨g, hg, hy⟩ := Cut.error_of_outcome_lenient hstd
    rw [hbare, hy, Cut.verdict, hg]

/-- **The texts that pass without callbacks** are the rows of pieces of the notation, with any
balanced texts as bodies. No terms come of them. -/
theorem parse_bare_eq_ok_iff (limit : UInt64) (hs : s.length < 2 ^ 31) (ts : List Term) :
    ((bare limit).parse s).value = .ok ts ↔
      ts = [] ∧ ∃ ps, Piece.Row ps ∧ Piece.textAll ps = s.raised := by
  have hrun : ((bare limit).parse s).value = (Pending.start.cut s.raised).verdict :=
    run_bare_value (bare limit).parseBody hs
  rw [hrun, Cut.verdict_eq_ok_iff]
  refine and_congr_right fun _ => ⟨fun h => ⟨_, Pending.row_of_no_error h⟩, ?_⟩
  rintro ⟨ps, hps⟩
  rw [Pending.cut_eq_iff.2 hps]

/-- Neither body is a text of the notation, and the first holds parentheses of its own. -/
theorem parse_bare_of_opaque_bodies :
    "(1.(é))lx2.(-)z".toList.length < 2 ^ 31 ∧
      Piece.Row [.group "1.(é)".toList, .lambda "X2".toList "-".toList, .name "Z".toList] ∧
      ((bare 0).parse "(1.(é))lx2.(-)z".toList).value = .ok [] := by
  have hlen : "(1.(é))lx2.(-)z".toList.length < 2 ^ 31 := by decide
  have hcut : Pending.start.cut (raised "(1.(é))lx2.(-)z".toList) =
      ⟨[.group "1.(é)".toList, .lambda "X2".toList "-".toList, .name "Z".toList], none⟩ := by cbv
  have hrow := Pending.cut_eq_iff.1 hcut
  exact ⟨hlen, hrow.1, (parse_bare_eq_ok_iff 0 hlen []).2 ⟨rfl, _, hrow⟩⟩

end Machine

end LambdaNotation
