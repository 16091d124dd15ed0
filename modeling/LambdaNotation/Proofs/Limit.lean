import LambdaNotation.Proofs.Level

/-!
# What the limit changes

Under a smaller limit a text comes to the same as under a larger one, or the smaller limit is the
fault (`UpToLimit`). So it is of every body and hence of the pieces of a text
(`Machine.outcome_upToLimit`): the two runs take the bodies in the same order, and the first body
that comes to something else ends the run under the smaller limit.
-/

namespace LambdaNotation

open Text

/-- The first of two outcomes is the second, or the limit cut it short. -/
def UpToLimit (limit : UInt64) {α : Type} (x y : Except (Failure ParseError) α) : Prop :=
  x = y ∨ ∃ e, x = .error (.reported e) ∧ e.fault = .tooDeep limit

namespace UpToLimit

variable {limit : UInt64} {α β : Type} {x y : Except (Failure ParseError) α}

theorem refl (limit : UInt64) (x : Except (Failure ParseError) α) : UpToLimit limit x x := .inl rfl

theorem of_fault {e : ParseError} (he : e.fault = .tooDeep limit)
    (y : Except (Failure ParseError) α) : UpToLimit limit (.error (.reported e)) y :=
  .inr ⟨e, rfl, he⟩

/-- The limit leaves alone what is read. -/
theorem eq_of_ok {a : α} (h : UpToLimit limit x y) (hx : x = .ok a) : y = .ok a := by
  rcases h with rfl | ⟨e, he, -⟩
  · exact hx
  · rw [he] at hx
    cases hx

theorem bind {f g : α → Except (Failure ParseError) β} (h : UpToLimit limit x y)
    (hf : ∀ a, UpToLimit limit (f a) (g a)) : UpToLimit limit (x >>= f) (y >>= g) := by
  rcases h with rfl | ⟨e, rfl, he⟩
  · rcases x with e | a
    · exact refl limit _
    · exact hf a
  · exact of_fault he _

theorem map (f : α → β) (h : UpToLimit limit x y) : UpToLimit limit (x.map f) (y.map f) := by
  rcases h with rfl | ⟨e, rfl, he⟩
  · exact refl limit _
  · exact of_fault he _

/-- Naming a body keeps the fault. -/
theorem within {x y : Outcome} (b : Text) (h : UpToLimit limit x y) :
    UpToLimit limit (x.mapError (·.within b)) (y.mapError (·.within b)) := by
  rcases h with rfl | ⟨e, rfl, he⟩
  · exact refl limit _
  · exact of_fault (e := e.within b) he _

end UpToLimit

section Read

variable {limit level : UInt64} {read read' : BodyReader}

theorem Piece.mapM_read_upToLimit {ps : List Piece}
    (h : ∀ p ∈ ps, UpToLimit limit (p.read read level) (p.read read' level)) :
    UpToLimit limit (ps.mapM (Piece.read read level)) (ps.mapM (Piece.read read' level)) := by
  induction ps with
  | nil => exact .refl limit _
  | cons p ps ih =>
    obtain ⟨hp, hps⟩ := List.forall_mem_cons.1 h
    rw [List.mapM_cons, List.mapM_cons]
    exact hp.bind fun _ => (ih hps).bind fun _ => .refl limit _

/-- If the bodies of a text come to the same up to a limit, so does the text. -/
theorem Cut.outcome_upToLimit {x : Cut}
    (h : ∀ p ∈ x.pieces, ∀ b, p.body? = some b →
      UpToLimit limit (read.inner b level).value (read'.inner b level).value) :
    UpToLimit limit (x.outcome read level) (x.outcome read' level) := by
  refine UpToLimit.bind (Piece.mapM_read_upToLimit fun p hp => ?_) fun _ => .refl limit _
  cases p with
  | name s => exact .refl limit _
  | group b | lambda w b => exact (h _ hp b rfl).map _

end Read

namespace Machine

variable {limit limit' level : UInt64} {s : Text}

/-- A body is refused under the smaller limit, or it is read under both. -/
theorem outcome_upToLimit (hl : limit ≤ limit') (hs : s.length < 2 ^ 31) :
    UpToLimit limit ((Pending.start.cut s).outcome (standard limit).parseBody level)
      ((Pending.start.cut s).outcome (standard limit').parseBody level) := by
  -- On the length of the text, since a body is shorter than the text around it.
  induction hn : s.length using Nat.strong_induction_on generalizing s level with
  | _ n ih =>
    refine Cut.outcome_upToLimit fun p hp b hb => ?_
    have he := Pending.encloses_of_mem_cut hp hb
    have hlen := he.length_le
    unfold BodyReader.inner
    split
    case isFalse => exact .refl limit _
    by_cases hdeep : limit < level + 1
    · rw [parseBody_of_tooDeep hdeep]
      exact .of_fault rfl _
    · have hlev := UInt64.not_lt.1 hdeep
      rw [parseBody_value (by omega) hlev,
        parseBody_value (by omega) (UInt64.le_trans hlev hl)]
      exact (ih b.raised.length (by rw [length_raised]; omega)
        (by rw [length_raised]; omega) rfl).within b

/-- **The limit only adds failures of depth**: under a smaller limit a text comes to the same terms
or to the same error, or the smaller limit is the fault. So what is read under a limit is read the
same under every larger one. -/
theorem parse_eq_or_tooDeep (hl : limit ≤ limit') (hs : s.length < 2 ^ 31) :
    (((standard limit).parse s).value = ((standard limit').parse s).value ∨
      ∃ e, ((standard limit).parse s).value = .error (.reported e) ∧
        e.fault = .tooDeep limit) ∧
    ∀ ts, ((standard limit).parse s).value = .ok ts →
      ((standard limit').parse s).value = .ok ts := by
  have h : UpToLimit limit ((standard limit).parse s).value ((standard limit').parse s).value := by
    rw [parse_value hs, parse_value hs]
    exact outcome_upToLimit hl (by rwa [length_raised])
  exact ⟨h, fun ts hts => h.eq_of_ok hts⟩

/-- The first body is read under both limits, the second only under the larger one, and not to its
end. -/
theorem parse_eq_or_tooDeep_of_unfinished_binder :
    (1 : UInt64) ≤ 2 ∧ "(x1)((lY))".toList.length < 2 ^ 31 ∧
      ((standard 1).parse "(x1)((lY))".toList).value =
        .error (.reported ⟨["(LY)".toList, "LY".toList], .tooDeep 1⟩) ∧
      ((standard 2).parse "(x1)((lY))".toList).value =
        .error (.reported
          ⟨["(LY)".toList, "LY".toList], .grammar (.unexpectedEnd .binderLetters)⟩) ∧
      (((standard 1).parse "(x1)((lY))".toList).value =
          ((standard 2).parse "(x1)((lY))".toList).value ∨
        ∃ e, ((standard 1).parse "(x1)((lY))".toList).value = .error (.reported e) ∧
          e.fault = .tooDeep 1) := by
  have hl : (1 : UInt64) ≤ 2 := by decide
  have hs : "(x1)((lY))".toList.length < 2 ^ 31 := by decide
  have hsmall : ((standard 1).parse "(x1)((lY))".toList).value =
      .error (.reported ⟨["(LY)".toList, "LY".toList], .tooDeep 1⟩) := by cbv
  have hlarge : ((standard 2).parse "(x1)((lY))".toList).value =
      .error (.reported
        ⟨["(LY)".toList, "LY".toList], .grammar (.unexpectedEnd .binderLetters)⟩) := by cbv
  exact ⟨hl, hs, hsmall, hlarge, (parse_eq_or_tooDeep hl hs).1⟩

end Machine

end LambdaNotation
