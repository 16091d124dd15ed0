import LambdaNotation.Proofs.Level

/-!
# Levels against the limit

A level counts only against the limit: a text is read as a body at a level like a text of its own
under what the level leaves of the limit (`Machine.parseBody_eq_parse`). The two runs take the same
bodies, always the same number of levels apart (`Machine.bodies_offset`), and only an error of depth
tells them from one another, since it names the limit.
-/

namespace LambdaNotation

open Text

/-- The error with another limit in it, if `old` is the limit at fault. -/
def ParseError.replaceLimit (old new : UInt64) (e : ParseError) : ParseError :=
  if e.fault = .tooDeep old then { e with fault := .tooDeep new } else e

/-- The failure with another limit in it. -/
def Failure.replaceLimit (old new : UInt64) (x : Failure ParseError) : Failure ParseError :=
  x.map (·.replaceLimit old new)

theorem ParseError.replaceLimit_within (old new : UInt64) (e : ParseError) (b : Text) :
    (e.within b).replaceLimit old new = (e.replaceLimit old new).within b := by
  unfold replaceLimit
  by_cases h : e.fault = .tooDeep old
  · rw [if_pos h, if_pos (show (e.within b).fault = _ from h)]
    rfl
  · rw [if_neg h, if_neg (show ¬ (e.within b).fault = _ from h)]

namespace Failure

variable {old new : UInt64}

theorem replaceLimit_tooDeep (b : Text) :
    ((ofFault (.tooDeep old)).within b).replaceLimit old new =
      (ofFault (.tooDeep new)).within b := congrArg reported (if_pos rfl)

theorem replaceLimit_grammar (g : GrammarError) :
    (ofFault (.grammar g)).replaceLimit old new = ofFault (.grammar g) :=
  congrArg reported (if_neg fun h => nomatch h)

theorem replaceLimit_within (x : Failure ParseError) (b : Text) :
    (x.within b).replaceLimit old new = (x.replaceLimit old new).within b := by
  cases x with
  | reported e => exact congrArg reported (e.replaceLimit_within old new b)
  | overflow => rfl

end Failure

section MapError

variable {f : Failure ParseError → Failure ParseError} {α β : Type}

theorem mapError_bind (x : Except (Failure ParseError) α) (k : α → Except (Failure ParseError) β) :
    (x >>= k).mapError f = x.mapError f >>= fun a => (k a).mapError f := by
  cases x <;> rfl

theorem mapError_map (x : Except (Failure ParseError) α) (k : α → β) :
    (x.map k).mapError f = (x.mapError f).map k := by
  cases x <;> rfl

theorem mapError_within_replaceLimit (x : Except (Failure ParseError) α) (b : Text)
    (old new : UInt64) :
    (x.mapError (·.within b)).mapError (·.replaceLimit old new) =
      (x.mapError (·.replaceLimit old new)).mapError (·.within b) := by
  cases x with
  | error y => exact congrArg Except.error (y.replaceLimit_within b)
  | ok a => rfl

end MapError

section Read

variable {level level' : UInt64} {read read' : BodyReader}
  {f : Failure ParseError → Failure ParseError}

theorem Piece.mapM_read_mapError {ps : List Piece}
    (h : ∀ p ∈ ps, p.read read level = (p.read read' level').mapError f) :
    ps.mapM (Piece.read read level) = (ps.mapM (Piece.read read' level')).mapError f := by
  induction ps with
  | nil => rfl
  | cons p ps ih =>
    obtain ⟨hp, hps⟩ := List.forall_mem_cons.1 h
    rw [List.mapM_cons, List.mapM_cons, mapError_bind, hp, ih hps]
    simp only [mapError_bind]
    rfl

/-- If the bodies of a text come to the same up to their errors, so does the text. -/
theorem Cut.outcome_mapError {x : Cut} (hf : ∀ g, f (.ofFault (.grammar g)) = .ofFault (.grammar g))
    (h : ∀ p ∈ x.pieces, ∀ b, p.body? = some b →
      (read.inner b level).value = (read'.inner b level').value.mapError f) :
    x.outcome read level = (x.outcome read' level').mapError f := by
  have hps : x.pieces.mapM (Piece.read read level) =
      (x.pieces.mapM (Piece.read read' level')).mapError f := by
    refine Piece.mapM_read_mapError fun p hp => ?_
    cases p with
    | name s => rfl
    | group b | lambda w b => rw [Piece.read, Piece.read, mapError_map, h _ hp b rfl]
  unfold outcome
  rw [mapError_bind, hps]
  cases x.error with
  | none => rfl
  | some g => exact congrArg _ (funext fun _ => congrArg Except.error (hf g).symm)

end Read

namespace Machine

variable {limit base level level' : UInt64} {s b : Text} {n n' : Nat}

/-- Levels that lie as far apart as the limits are beyond them together. -/
theorem sub_lt_iff (hle : base ≤ limit) (hlev : level'.toNat = base.toNat + level.toNat) :
    limit - base < level ↔ limit < level' := by
  have hle' := UInt64.le_iff_toNat_le.1 hle
  rw [UInt64.lt_iff_toNat_lt, UInt64.lt_iff_toNat_lt, UInt64.toNat_sub_of_le _ _ hle]
  omega

theorem bodies_offset_of_tooDeep (hle : base ≤ limit)
    (hlev : level'.toNat = base.toNat + level.toNat) (h : limit < level') :
    ((standard limit).bodies n b level').value =
      ((standard (limit - base)).bodies n' b level).value.mapError
        (·.replaceLimit (limit - base) limit) := by
  rw [bodies_of_tooDeep h, bodies_of_tooDeep ((sub_lt_iff hle hlev).2 h), refuse_value,
    refuse_value]
  exact congrArg Except.error (Failure.replaceLimit_tooDeep b).symm

/-- Reading bodies so many levels further in, under a limit that is as much larger, comes to the
same, up to the limit that an error names. -/
theorem bodies_offset (hm : limit.toNat + 1 < 2 ^ 64) (hle : base ≤ limit) (hb : b.length < 2 ^ 31)
    (hlev : level'.toNat = base.toNat + level.toNat) (hn : limit.toNat < level'.toNat + n)
    (hn' : limit.toNat < level'.toNat + n') :
    ((standard limit).bodies n b level').value =
      ((standard (limit - base)).bodies n' b level).value.mapError
        (·.replaceLimit (limit - base) limit) := by
  induction n generalizing n' b level level' with
  | zero => exact bodies_offset_of_tooDeep hle hlev (UInt64.lt_iff_toNat_lt.2 hn)
  | succ n ih =>
    by_cases hl : limit < level'
    · exact bodies_offset_of_tooDeep hle hlev hl
    · have hlim : level'.toNat ≤ limit.toNat := UInt64.le_iff_toNat_le.1 (UInt64.not_lt.1 hl)
      obtain ⟨n', rfl⟩ : ∃ k, n' = k + 1 := ⟨n' - 1, by omega⟩
      rw [bodies_succ_value hl hb, bodies_succ_value (mt (sub_lt_iff hle hlev).1 hl) hb,
        mapError_within_replaceLimit]
      congr 1
      -- Every body has a level, since none is more than one beyond the limit.
      have hsucc' : (level' + 1).toNat = level'.toNat + 1 := toNat_add_one (by omega)
      have hsucc : (level + 1).toNat = level.toNat + 1 := toNat_add_one (by omega)
      refine Cut.outcome_mapError Failure.replaceLimit_grammar fun p hp c hc => ?_
      have hlen := (Pending.encloses_of_mem_cut hp hc).length_le
      rw [length_raised] at hlen
      rw [BodyReader.inner_of_lt (show level'.toNat + 1 < 2 ^ 64 by omega),
        BodyReader.inner_of_lt (show level.toNat + 1 < 2 ^ 64 by omega)]
      exact ih (by omega) (by omega) (by omega) (by omega)

/-- The whole text as a body at level zero. -/
theorem bodies_zero_value (s : Text) :
    ((standard limit).bodies (limit.toNat + 1 + 1) s 0).value =
      ((standard limit).parse s).value.mapError (·.within s) := by
  have hl : ¬ limit < 0 := UInt64.not_lt.2 UInt64.zero_le
  rw [bodies_succ hl]
  rfl

/-- **Reading at a level is reading under what it leaves of the limit.** A body at a level within
the limit comes to what the text comes to under the difference, with the body named in an error, and
the limit itself where the error names a limit. Beyond the limit it is too deep. -/
theorem parseBody_eq_parse (hm : limit.toNat + 1 < 2 ^ 64) (hs : s.length < 2 ^ 31) :
    (level ≤ limit →
        ((standard limit).parseBody s level).value =
          ((standard (limit - level)).parse s).value.mapError
            fun x => (x.replaceLimit (limit - level) limit).within s) ∧
      (limit < level →
        ((standard limit).parseBody s level).value =
          .error ((Failure.ofFault (.tooDeep limit)).within s)) := by
  refine ⟨fun hl => ?_, fun hl => parseBody_of_tooDeep hl s⟩
  have hzero : (0 : UInt64).toNat = 0 := rfl
  have hsub : (limit - level).toNat = limit.toNat - level.toNat := UInt64.toNat_sub_of_le _ _ hl
  have hread : ((standard limit).bodies (limit.toNat + 1) s level).value =
      ((standard (limit - level)).bodies ((limit - level).toNat + 1 + 1) s 0).value.mapError
        (·.replaceLimit (limit - level) limit) :=
    bodies_offset hm hl hs (by omega) (by omega) (by omega)
  rw [bodies_zero_value, mapError_within_replaceLimit] at hread
  refine hread.trans ?_
  cases ((standard (limit - level)).parse s).value <;> rfl

/-- Two levels below the greatest limit that leaves room for a level beyond it, two bodies are read
and the third is too deep. -/
theorem parseBody_eq_parse_near_the_top :
    let limit : UInt64 := 18446744073709551614
    let level : UInt64 := 18446744073709551612
    let s := "a1(lx1.((b)))".toList
    let e : ParseError := ⟨["LX1.((B))".toList, "(B)".toList, "B".toList], .tooDeep 2⟩
    limit.toNat + 1 < 2 ^ 64 ∧ s.length < 2 ^ 31 ∧ level ≤ limit ∧ limit - level = 2 ∧
      ((standard 2).parse s).value = .error (.reported e) ∧
      ((standard limit).parseBody s level).value =
        .error (.reported ⟨s :: e.captured, .tooDeep limit⟩) ∧
      limit < limit + 1 ∧
      ((standard limit).parseBody s (limit + 1)).value =
        .error (.reported ⟨[s], .tooDeep limit⟩) := by
  have hread : ((standard 2).parse "a1(lx1.((b)))".toList).value =
      .error (.reported ⟨["LX1.((B))".toList, "(B)".toList, "B".toList], .tooDeep 2⟩) := by cbv
  intro limit level s e
  have hm : limit.toNat + 1 < 2 ^ 64 := by decide
  have hs : s.length < 2 ^ 31 := by decide
  have hl : level ≤ limit := by decide
  have hsub : limit - level = 2 := by decide
  have hdeep : limit < limit + 1 := by decide
  have hlimit : e.replaceLimit 2 limit = { e with fault := .tooDeep limit } := if_pos rfl
  have hbody := (parseBody_eq_parse hm hs).1 hl
  rw [hsub, hread] at hbody
  refine ⟨hm, hs, hl, hsub, hread, hbody.trans ?_, hdeep, (parseBody_eq_parse hm hs).2 hdeep⟩
  exact congrArg (fun e => Except.error (Failure.reported (e.within s))) hlimit

end Machine

end LambdaNotation
