import LambdaNotation.Proofs.Level

/-!
# Characters that are refused

A character that leads nowhere is refused where it stands: what comes before it can still be
completed to a text that is read (`Machine.exists_parse_completion`), and what comes after it is not
looked at (`Machine.parse_of_refused`). Inside a body every character leads on, so the automaton
refuses only where a few characters complete the text (`State.completion`).
-/

namespace LambdaNotation

open Text

/-- Characters that complete a text, if the automaton stands outside every body after it. -/
def State.completion : State → Text
  | .lambda => "X1.()".toList
  | .binderLetters => "1.()".toList
  | .binderDigits => ".()".toList
  | .binderDot => "()".toList
  | _ => []

theorem State.length_completion_le (s : State) : s.completion.length ≤ 5 := by
  cases s <;> decide

theorem State.raised_completion (s : State) : raised s.completion = s.completion := by
  cases s <;> decide

namespace Pending

variable {d : Pending} {c : Char}

/-- Where a character is refused, the completion is cut to its end, and has no body but an empty
one. -/
theorem exists_cut_completion (h : d.next c = none) : ∃ ps,
    d.cut d.state.completion = ⟨ps, none⟩ ∧ ∀ p ∈ ps, ∀ b, p.body? = some b → b = [] := by
  cases d with
  | start | groupEnd | lambdaEnd => exact ⟨[], rfl, fun _ hp => by cases hp⟩
  | letters w | digits w => exact ⟨[.name w], rfl, by simp [Piece.body?]⟩
  | lambda => exact ⟨[.lambda "X1".toList []], rfl, by simp [Piece.body?]⟩
  | binderLetters w => exact ⟨[.lambda (w ++ ['1']) []], rfl, by simp [Piece.body?]⟩
  | binderDigits w | binderDot w => exact ⟨[.lambda w []], rfl, by simp [Piece.body?]⟩
  | lambdaBody w b | groupBody b =>
    rw [next] at h
    split_ifs at h

end Pending

namespace Machine

variable {limit : UInt64} {s p q : Text} {k : Context} {d : Pending} {c : Char} {state : State}
  {expected : Text}

/-- Before a refused character the machine went through, and the automaton stands where the
character leads nowhere. -/
theorem exists_refused (hs : s.length < 2 ^ 31)
    (h : ((standard limit).parse s).value =
      .error (.ofFault (.grammar (.unexpectedCharacter state c expected)))) : ∃ p q k d,
      s.raised = p ++ c :: q ∧
      p.forM ((standard limit).feed (standard limit).parseBody) {} = .ok () k ∧
      k.Holds d ∧ d.Valid ∧ k.level = 0 ∧ d.next c = none ∧
      state = d.state ∧ expected = d.state.expected := by
  rw [parse_value hs] at h
  obtain ⟨g, ts, hg, he, hps⟩ := exists_of_outcome_eq_unwrapped h rfl
  cases he
  obtain ⟨p, q, d, hpq, hreads, hd, hstate, hexpected⟩ := Pending.exists_reads_of_refused hg
  have hp : p.length < 2 ^ 31 := by
    have hlen := congrArg List.length hpq
    rw [length_raised, List.length_append] at hlen
    omega
  obtain ⟨k, hk, hholds, hlevel, -⟩ := forM_of_reads limit (standard limit).parseBody hreads
    (holds_start 0) trivial (Pending.fits_of_depth_eq_zero rfl hp) hps
  exact ⟨p, q, k, d, hpq, hk, hholds, hreads.valid trivial, hlevel, hd, hstate, hexpected⟩

/-- What comes after a refused character is not looked at. -/
theorem parse_of_refused (hp : raised (p ++ [c]) = p ++ [c])
    (hk : p.forM ((standard limit).feed (standard limit).parseBody) {} = .ok () k)
    (hd : k.Holds d) (hc : d.next c = none) (r : Text) :
    ((standard limit).parse (p ++ c :: r)).value =
      .error (.ofFault (.grammar (.unexpectedCharacter d.state c d.state.expected))) := by
  obtain ⟨k', hc⟩ := feed_of_next_none limit (standard limit).parseBody hd hc
  have hr : raised (p ++ c :: r) = p ++ c :: raised r := by
    rw [List.append_cons, raised_append, hp, List.append_assoc, List.singleton_append]
  rw [parse_eq_outcome, hr, bind_of_error (forM_of_error hk hc)]
  rfl

/-! ## The completion is read -/

theorem inner_nil (hl : 1 ≤ limit) : ((standard limit).parseBody.inner [] 0).value = .ok [] :=
  BodyReader.inner_eq_ok_iff.2 ⟨by decide, (parseBody_eq_ok_iff (by decide)).2 ⟨hl, rfl⟩⟩

theorem exists_mapM_of_empty_bodies (hl : 1 ≤ limit) {ps : List Piece}
    (hps : ∀ p ∈ ps, ∀ b, p.body? = some b → b = []) :
    ∃ ts, ps.mapM (Piece.read (standard limit).parseBody 0) = .ok ts := by
  rcases h : ps.mapM (Piece.read (standard limit).parseBody 0) with x | ts
  · obtain ⟨p, hp, hx⟩ := Piece.exists_of_mapM_read_eq_error h
    obtain ⟨b, hb, hx⟩ := Piece.exists_of_read_eq_error hx
    obtain rfl := hps p hp b hb
    cases (inner_nil hl).symm.trans hx
  · exact ⟨ts, rfl⟩

/-- Where a character is refused, the text before it can be completed. -/
theorem exists_parse_completion (hl : 1 ≤ limit) (hp : raised p = p)
    (hk : p.forM ((standard limit).feed (standard limit).parseBody) {} = .ok () k)
    (hd : k.Holds d) (hv : d.Valid) (hlevel : k.level = 0) (hc : d.next c = none) :
    ∃ ts, ((standard limit).parse (p ++ d.state.completion)).value = .ok ts := by
  obtain ⟨ps, hcut, hbodies⟩ := Pending.exists_cut_completion hc
  obtain ⟨ts, hts⟩ := exists_mapM_of_empty_bodies hl hbodies
  have hfit : d.Fits d.state.completion := by
    have hlen := d.state.length_completion_le
    exact Pending.fits_of_depth_eq_zero (Pending.depth_eq_zero_of_next_none hc) (by omega)
  have hout : (d.cut d.state.completion).outcome (standard limit).parseBody k.level = .ok ts := by
    rw [hcut, hlevel]
    exact Cut.outcome_eq_ok_iff.2 ⟨rfl, hts⟩
  refine ⟨k.terms.toList ++ ts, ?_⟩
  rw [parse_eq_outcome, raised_append, hp, State.raised_completion, bind_forM_append_of_ok hk,
    outcome_feed limit _ hd hv hfit, hout]
  rfl

/-- **A character is refused at the first point where it must be, and for good**: the text before it
can be completed to one that is read, and every text that goes on with the character has the same
error, so none is read. -/
theorem unexpectedCharacter_earliest (hl : 1 ≤ limit) (hs : s.length < 2 ^ 31)
    (h : ((standard limit).parse s).value =
      .error (.ofFault (.grammar (.unexpectedCharacter state c expected)))) :
    ∃ p q, s.raised = p ++ c :: q ∧
      (∃ r ts, ((standard limit).parse (p ++ r)).value = .ok ts) ∧
      (∀ r, ((standard limit).parse (p ++ c :: r)).value =
        .error (.ofFault (.grammar (.unexpectedCharacter state c expected)))) ∧
      ∀ t, p ++ [c] <+: t.raised → ∀ ts, ((standard limit).parse t).value ≠ .ok ts := by
  obtain ⟨p, q, k, d, hpq, hk, hd, hv, hlevel, hc, rfl, rfl⟩ := exists_refused hs h
  have hpc : raised (p ++ [c]) = p ++ [c] :=
    raised_of_part (raised_raised s) ⟨[], q, by rw [hpq, List.nil_append, ← List.append_cons]⟩
  have hp : raised p = p := raised_of_part hpc (List.prefix_append ..).isInfix
  refine ⟨p, q, hpq, ?_, parse_of_refused hpc hk hd hc, fun t ⟨r, hr⟩ ts ht => ?_⟩
  · obtain ⟨ts, hts⟩ := exists_parse_completion hl hp hk hd hv hlevel hc
    exact ⟨d.state.completion, ts, hts⟩
  · -- A text and its raised text are read the same.
    have hraised :
        ((standard limit).parse t).value = ((standard limit).parse (p ++ c :: r)).value := by
      rw [parse_eq_outcome, parse_eq_outcome, List.append_cons, hr, raised_raised]
    rw [hraised, parse_of_refused hpc hk hd hc] at ht
    cases ht

/-- The binder of a lambda is cut off after its letter, behind a variable and a group. -/
theorem unexpectedCharacter_earliest_in_binder :
    (1 : UInt64) ≤ 1 ∧ "a1(b)lx(c)".toList.length < 2 ^ 31 ∧
      ((standard 1).parse "a1(b)lx(c)".toList).value = .error (.ofFault (.grammar
        (.unexpectedCharacter .binderLetters '(' State.binderLetters.expected))) ∧
      ∃ p q, raised "a1(b)lx(c)".toList = p ++ '(' :: q ∧
        ∃ r ts, ((standard 1).parse (p ++ r)).value = .ok ts := by
  have hl : (1 : UInt64) ≤ 1 := by decide
  have hs : "a1(b)lx(c)".toList.length < 2 ^ 31 := by decide
  have hcut : Pending.start.cut (raised "a1(b)lx(c)".toList) =
      ⟨[.name "A1".toList, .group "B".toList],
        some (.unexpectedCharacter .binderLetters '(' State.binderLetters.expected)⟩ := rfl
  have hpieces : [Piece.name "A1".toList, .group "B".toList].mapM
      (Piece.read (standard 1).parseBody 0) = .ok [.var "A1".toList, .group [.var "B".toList]] := by
    cbv
  have hread : ((standard 1).parse "a1(b)lx(c)".toList).value = .error (.ofFault (.grammar
      (.unexpectedCharacter .binderLetters '(' State.binderLetters.expected))) := by
    rw [parse_value hs, hcut, Cut.outcome, hpieces]
    rfl
  obtain ⟨p, q, hpq, hr, -, -⟩ := unexpectedCharacter_earliest hl hs hread
  exact ⟨hl, hs, hread, p, q, hpq, hr⟩

end Machine

end LambdaNotation
