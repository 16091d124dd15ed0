import LambdaNotation.Proofs.Level

/-!
# What a move does to the terms

The callbacks of a move add one complete term to a context or none, and if one of them fails the
terms are as they were (`Machine.apply_adds_at_most_one`). So it is for every move and in every
context, also for moves that the automaton does not make and contexts that no text leads to. It
rests on which callbacks meet on one move: a body is captured on a move of its own, and before any
other callback a variable is taken at most once (`Machine.exists_callbacks_of_other`).
-/

namespace LambdaNotation

open Text

/-- The context stands where it stood, at the same level. -/
structure Context.Stays (k k₀ : Context) : Prop where
  state : k.state = k₀.state
  nesting : k.nesting = k₀.nesting
  level : k.level = k₀.level

theorem Context.Stays.trans {k k₁ k₀ : Context} (h : k.Stays k₁) (h₁ : k₁.Stays k₀) : k.Stays k₀ :=
  ⟨h.state.trans h₁.state, h.nesting.trans h₁.nesting, h.level.trans h₁.level⟩

namespace Callback

variable {read : BodyReader} {c : Option Char} {k k' : Context} {x : Failure ParseError}

/-! ## One callback -/

theorem captureVariable_adds (read : BodyReader) (c : Option Char) (k : Context) :
    ∃ k', captureVariable read c k = .ok () k' ∧ k'.Stays k ∧
      k'.terms.toList = k.terms.toList ++ [.var k.name.toList] :=
  ⟨_, captureVariable_apply read c k, ⟨rfl, rfl, rfl⟩, Array.toList_push⟩

theorem captureGroup_adds (h : captureGroup read c k = .ok () k') :
    k'.Stays k ∧ ∃ parts, k'.terms.toList = k.terms.toList ++ [.group parts] := by
  obtain ⟨parts, -, rfl⟩ := exists_of_captureGroup_eq_ok h
  exact ⟨⟨rfl, rfl, rfl⟩, parts, Array.toList_push⟩

theorem captureLambda_adds (h : captureLambda read c k = .ok () k') :
    k'.Stays k ∧ ∃ parts,
      k'.terms.toList = k.terms.toList ++ [.lambda k.name.toList (.group parts)] := by
  obtain ⟨-, parts, -, rfl⟩ := exists_of_captureLambda_eq_ok h
  exact ⟨⟨rfl, rfl, rfl⟩, parts, Array.toList_push⟩

/-- A group that fails leaves the terms: its body could not be read. -/
theorem captureGroup_fails (h : captureGroup read c k = .error x k') :
    k'.Stays k ∧ k'.terms = k.terms ∧ (read.inner k.body.toList k.level).value = .error x := by
  have hread := value_of_captureGroup_eq_error h
  rw [captureGroup_of_error hread] at h
  cases h
  exact ⟨⟨rfl, rfl, rfl⟩, rfl, hread⟩

/-- So does a lambda: its binder is no name, or its body could not be read. -/
theorem captureLambda_fails (h : captureLambda read c k = .error x k') :
    k'.Stays k ∧ k'.terms = k.terms ∧
      (¬ isName k.name.toList ∧ x = .ofFault (.invalidBinder k.name.toList) ∨
        isName k.name.toList ∧ (read.inner k.body.toList k.level).value = .error x) := by
  by_cases hn : isName k.name.toList
  · have hread := value_of_captureLambda_eq_error hn h
    rw [captureLambda_of_error hn hread] at h
    cases h
    exact ⟨⟨rfl, rfl, rfl⟩, rfl, .inr ⟨hn, hread⟩⟩
  · rw [captureLambda_of_not_isName hn] at h
    cases h
    exact ⟨⟨rfl, rfl, rfl⟩, rfl, .inl ⟨hn, rfl⟩⟩

/-! ## Callbacks that collect -/

/-- The callback adds the character to a buffer. -/
def Collects (callback : Callback) : Prop := callback = extendName ∨ callback = extendBody

/-- Collecting goes through and leaves the terms. -/
theorem exists_of_collects {fs : List Callback} (h : ∀ f ∈ fs, f.Collects) (read : BodyReader)
    (c : Option Char) (k : Context) :
    ∃ k', (fs.forM fun f => f read c) k = .ok () k' ∧ k'.Stays k ∧ k'.terms = k.terms := by
  induction fs generalizing k with
  | nil => exact ⟨k, rfl, ⟨rfl, rfl, rfl⟩, rfl⟩
  | cons f fs ih =>
    obtain ⟨hf, hfs⟩ := List.forall_mem_cons.1 h
    obtain ⟨k₁, hk₁, hstays, hterms⟩ : ∃ k₁, f read c k = .ok () k₁ ∧ k₁.Stays k ∧
        k₁.terms = k.terms := by
      rcases hf with rfl | rfl
      · exact ⟨_, extendName_apply read c k, ⟨rfl, rfl, rfl⟩, rfl⟩
      · exact ⟨_, extendBody_apply read c k, ⟨rfl, rfl, rfl⟩, rfl⟩
    obtain ⟨k', hk', hstays', hterms'⟩ := ih hfs k₁
    exact ⟨k', (bind_of_ok hk₁).trans hk', hstays'.trans hstays, hterms'.trans hterms⟩

end Callback

/-! ## The callbacks of a move -/

/-- The moves with which a variable is complete. -/
def variableMoves : List Move :=
  [⟨.nameDigits, .nameLetters⟩, ⟨.nameDigits, .lambda⟩, ⟨.nameDigits, .groupBody⟩,
    ⟨.nameDigits, .done⟩, ⟨.nameLetters, .done⟩]

namespace Machine

variable {limit : UInt64} {read : BodyReader} {move : Move} {c : Option Char} {k k' : Context}
  {x : Failure ParseError}

/-- Where no term is complete, characters are collected. -/
theorem collects_of_mem_callbacksFor (hv : move ∉ variableMoves)
    (hg : move ≠ ⟨.groupBody, .groupEnd⟩) (hl : move ≠ ⟨.lambdaBody, .lambdaEnd⟩) :
    ∀ f ∈ (standard limit).callbacksFor move, f.Collects := by
  have hall : ∀ x ∈ termCallbacks, x.2.Collects ∨ ∃ move : Move, x.1 = .exact move ∧
      (move ∈ variableMoves ∨ move = ⟨.groupBody, .groupEnd⟩ ∨
        move = ⟨.lambdaBody, .lambdaEnd⟩) := by
    simp [termCallbacks, variableMoves, Callback.Collects]
  intro f hf
  obtain ⟨x, hx, rfl⟩ := List.mem_map.1 hf
  obtain ⟨hx, hfires⟩ := List.mem_filter.1 hx
  rcases hall x hx with hcollects | ⟨move', htrigger, hcompletes⟩
  · exact hcollects
  · have hmove : x.1.fires move := hfires
    rw [htrigger] at hmove
    obtain rfl : move' = move := of_decide_eq_true hmove
    exact absurd hcompletes (by simp [hv, hg, hl])

/-- Except where a body is captured, a variable is taken once or not at all, and then characters are
collected. -/
theorem exists_callbacks_of_other (limit : UInt64) (hg : move ≠ ⟨.groupBody, .groupEnd⟩)
    (hl : move ≠ ⟨.lambdaBody, .lambdaEnd⟩) : ∃ taken collected,
      (standard limit).callbacksFor move = taken ++ collected ∧
      (taken = [] ∨ taken = [Callback.captureVariable]) ∧ ∀ f ∈ collected, f.Collects := by
  by_cases hv : move ∈ variableMoves
  · simp only [variableMoves, List.mem_cons, List.not_mem_nil, or_false] at hv
    rcases hv with rfl | rfl | rfl | rfl | rfl
    · exact ⟨[Callback.captureVariable], [Callback.extendName], rfl, .inr rfl,
        List.forall_mem_singleton.2 (.inl rfl)⟩
    all_goals exact ⟨[Callback.captureVariable], [], rfl, .inr rfl, fun _ h => nomatch h⟩
  · exact ⟨[], _, rfl, .inl rfl, collects_of_mem_callbacksFor hv hg hl⟩

/-- Such a move goes through. -/
theorem exists_applyWith_of_other (limit : UInt64) (read : BodyReader) (c : Option Char)
    (k : Context) (hg : move ≠ ⟨.groupBody, .groupEnd⟩) (hl : move ≠ ⟨.lambdaBody, .lambdaEnd⟩) :
    ∃ k', (standard limit).applyWith read move c k = .ok () k' ∧ k'.Stays k ∧
      ∃ new : Option Term, k'.terms.toList = k.terms.toList ++ new.toList := by
  obtain ⟨taken, collected, hcallbacks, htaken, hcollected⟩ := exists_callbacks_of_other limit hg hl
  unfold applyWith
  rw [hcallbacks]
  rcases htaken with rfl | rfl
  · obtain ⟨k', hk', hstays, hterms⟩ := Callback.exists_of_collects hcollected read c k
    exact ⟨k', hk', hstays, none, by rw [hterms]; exact (List.append_nil _).symm⟩
  · obtain ⟨k₁, hk₁, hstays, hterms⟩ := Callback.captureVariable_adds read c k
    obtain ⟨k', hk', hstays', hterms'⟩ := Callback.exists_of_collects hcollected read c k₁
    have htaken : ([Callback.captureVariable].forM fun f => f read c) k = .ok () k₁ :=
      (bind_of_ok hk₁).trans rfl
    exact ⟨k', (forM_append_of_ok htaken).trans hk', hstays'.trans hstays, some _,
      by rw [hterms', hterms]; rfl⟩

/-! ## One move -/

/-- A move that goes through adds at most one term. -/
theorem adds_of_applyWith (h : (standard limit).applyWith read move c k = .ok () k') :
    k'.Stays k ∧ ∃ new : Option Term, k'.terms.toList = k.terms.toList ++ new.toList := by
  by_cases hg : move = ⟨.groupBody, .groupEnd⟩
  · subst hg
    rw [applyWith_groupEnd] at h
    obtain ⟨hstays, parts, hterms⟩ := Callback.captureGroup_adds h
    exact ⟨hstays, some (.group parts), hterms⟩
  by_cases hl : move = ⟨.lambdaBody, .lambdaEnd⟩
  · subst hl
    rw [applyWith_lambdaEnd] at h
    obtain ⟨hstays, parts, hterms⟩ := Callback.captureLambda_adds h
    exact ⟨hstays, some (.lambda k.name.toList (.group parts)), hterms⟩
  · obtain ⟨k₁, hk₁, hadds⟩ := exists_applyWith_of_other limit read c k hg hl
    cases hk₁.symm.trans h
    exact hadds

/-- A move that fails leaves the terms: it captures a lambda whose binder is no name, or a body that
could not be read. -/
theorem terms_of_applyWith_eq_error (h : (standard limit).applyWith read move c k = .error x k') :
    k'.Stays k ∧ k'.terms = k.terms ∧
      (move = ⟨.lambdaBody, .lambdaEnd⟩ ∧ ¬ isName k.name.toList ∧
          x = .ofFault (.invalidBinder k.name.toList) ∨
        (read.inner k.body.toList k.level).value = .error x) := by
  by_cases hg : move = ⟨.groupBody, .groupEnd⟩
  · subst hg
    rw [applyWith_groupEnd] at h
    obtain ⟨hstays, hterms, hread⟩ := Callback.captureGroup_fails h
    exact ⟨hstays, hterms, .inr hread⟩
  by_cases hl : move = ⟨.lambdaBody, .lambdaEnd⟩
  · subst hl
    rw [applyWith_lambdaEnd] at h
    obtain ⟨hstays, hterms, ⟨hn, he⟩ | ⟨-, hread⟩⟩ := Callback.captureLambda_fails h
    · exact ⟨hstays, hterms, .inl ⟨rfl, hn, he⟩⟩
    · exact ⟨hstays, hterms, .inr hread⟩
  · obtain ⟨k₁, hk₁, -⟩ := exists_applyWith_of_other limit read c k hg hl
    cases hk₁.symm.trans h

/-- A body that cannot be captured is named by the error, unless something is counted beyond its
bits: under the greatest limit, at the greatest level or in a long body. -/
theorem exists_within_or_overflow_of_inner (h : ((standard limit).parseBody.inner k.body.toList
    k.level).value = .error x) : (∃ e : ParseError, x = .reported (e.within k.body.toList)) ∨
      (x = .overflow ∧
        (limit.toNat + 1 = 2 ^ 64 ∨ k.level.toNat + 1 = 2 ^ 64 ∨ 2 ^ 31 ≤ k.body.size)) := by
  have hlimit := UInt64.toNat_lt limit
  have hlevel := UInt64.toNat_lt k.level
  obtain ⟨y, rfl⟩ := exists_within_of_inner h
  by_cases hroom : limit.toNat + 1 < 2 ^ 64 ∧ k.level.toNat + 1 < 2 ^ 64 ∧ k.body.size < 2 ^ 31
  · obtain ⟨hlim, hlev, hsize⟩ := hroom
    have hshallow := shallow_length (raised k.body.toList)
    rw [length_raised, Array.length_toList] at hshallow
    rw [BodyReader.inner_of_lt hlev] at h
    obtain ⟨e, he⟩ := exists_reported_of_bodies hshallow hsize (.inr hlim) h
    obtain ⟨e', -, rfl⟩ := Failure.within_eq_reported_iff.1 he
    exact .inl ⟨e', he⟩
  · cases y with
    | reported e => exact .inl ⟨e, rfl⟩
    | overflow => exact .inr ⟨rfl, by omega⟩

/-- **A move adds one complete term or none**, or it fails and leaves the terms as they were,
whatever the move and the context. Either way the context stands where it stood. A move fails with
an error that names the whole body it captures, or for a binder that is no name, which it names; the
latter just if it captures a lambda with such a binder, whatever the body holds. Under the greatest
limit, at the greatest level or for a long body a count may overflow. -/
theorem apply_adds_at_most_one (limit : UInt64) (move : Move) (c : Option Char) (k : Context) :
    (∀ k', (standard limit).apply move c k = .ok () k' →
      k'.Stays k ∧ ∃ new : Option Term, k'.terms.toList = k.terms.toList ++ new.toList) ∧
    (∀ x k', (standard limit).apply move c k = .error x k' →
      k'.Stays k ∧ k'.terms = k.terms ∧
        ((∃ e : ParseError, x = .reported (e.within k.body.toList)) ∨
          x = .ofFault (.invalidBinder k.name.toList) ∨
          (x = .overflow ∧
            (limit.toNat + 1 = 2 ^ 64 ∨ k.level.toNat + 1 = 2 ^ 64 ∨ 2 ^ 31 ≤ k.body.size)))) ∧
    ((∃ k', (standard limit).apply move c k =
        .error (.ofFault (.invalidBinder k.name.toList)) k') ↔
      move = ⟨.lambdaBody, .lambdaEnd⟩ ∧ ¬ isName k.name.toList) := by
  refine ⟨fun k' h => adds_of_applyWith h, fun x k' h => ?_, fun ⟨k', h⟩ => ?_, fun ⟨hm, hn⟩ => ?_⟩
  · obtain ⟨hstays, hterms, ⟨-, -, hx⟩ | hread⟩ := terms_of_applyWith_eq_error h
    · exact ⟨hstays, hterms, .inr (.inl hx)⟩
    · rcases exists_within_or_overflow_of_inner hread with hx | hx
      · exact ⟨hstays, hterms, .inl hx⟩
      · exact ⟨hstays, hterms, .inr (.inr hx)⟩
  · obtain ⟨-, -, ⟨hm, hn, -⟩ | hread⟩ := terms_of_applyWith_eq_error h
    · exact ⟨hm, hn⟩
    · -- The error of a body names the body, and this one names none.
      obtain ⟨y, hy⟩ := exists_within_of_inner hread
      obtain ⟨e, -, he⟩ := Failure.within_eq_reported_iff.1 hy.symm
      exact absurd (congrArg ParseError.captured he) (List.cons_ne_nil _ _).symm
  · subst hm
    exact ⟨_, (applyWith_lambdaEnd limit _ c).trans (Callback.captureLambda_of_not_isName hn)⟩

/-- In a context that no text leads to: of two callbacks on a move only the first adds a term, a
group fails with its body, and a lambda over the same body fails for its binder. -/
theorem apply_adds_at_most_one_out_of_place :
    let k : Context := {
      state := .done
      name := "1X".toList.toArray
      body := "(y".toList.toArray
      terms := #[.var "Q".toList]
      level := 7 }
    (∃ k', (standard 256).apply ⟨.nameDigits, .nameLetters⟩ (some 'é') k = .ok () k' ∧
        k'.Stays k ∧ ∃ new : Option Term, k'.terms.toList = k.terms.toList ++ new.toList) ∧
      (∃ e : ParseError, ∃ k', (standard 256).apply ⟨.groupBody, .groupEnd⟩ none k =
          .error (.reported (e.within "(y".toList)) k' ∧
        k'.Stays k ∧ k'.terms = k.terms) ∧
      ∃ k', (standard 256).apply ⟨.lambdaBody, .lambdaEnd⟩ none k =
          .error (.ofFault (.invalidBinder "1X".toList)) k' ∧
        k'.Stays k ∧ k'.terms = k.terms := by
  have hread : ((standard 256).parseBody.inner "(y".toList 7).value =
      .error (.reported ⟨["(y".toList], .grammar (.unexpectedEnd .groupBody)⟩) := by
    rw [BodyReader.inner_of_lt (by decide)]
    cbv
  intro k
  have hgroup := (applyWith_groupEnd 256 (standard 256).parseBody none).trans
    (Callback.captureGroup_of_error (k := k) hread)
  obtain ⟨k', hlambda⟩ :=
    (apply_adds_at_most_one 256 ⟨.lambdaBody, .lambdaEnd⟩ none k).2.2.2 ⟨rfl, by decide⟩
  obtain ⟨hstays, hterms, -⟩ := (apply_adds_at_most_one 256 _ none k).2.1 _ k' hlambda
  obtain ⟨hstays', hterms', -⟩ := (apply_adds_at_most_one 256 _ none k).2.1 _ _ hgroup
  have hname := (apply_adds_at_most_one 256 ⟨.nameDigits, .nameLetters⟩ (some 'é') k).1 _ rfl
  exact ⟨⟨_, rfl, hname⟩, ⟨⟨[], _⟩, _, hgroup, hstays', hterms'⟩, k', hlambda, hstays, hterms⟩

end Machine

end LambdaNotation
