import LambdaNotation.Proofs.Level

/-!
# Callbacks and the automaton

Callbacks that leave the automaton where it stands (`Callback.Keeps`) do not change what it does,
whatever else they do. A machine with such callbacks and the machine without any go through a text
in step (`Machine.exists_bare_forM`), so both read it or both fail where the automaton does, unless
a callback fails first (`Machine.run_agrees_with_bare`). So it is whatever reads bodies for the run.
In the machine that builds terms a callback fails only with the error of a body
(`Machine.exists_within_of_callbackFails`).
-/

namespace LambdaNotation

open Text

/-- The failure of a text at which the automaton fails. -/
def Failure.ofAutomaton (x : Failure GrammarError) : Failure ParseError :=
  x.map fun g => .ofFault (.grammar g)

/-! ## What a run takes -/

/-- What a run takes: the characters of the raised text, and its end. -/
def Text.inputs (s : Text) : List (Option Char) := s.raised.map some ++ [none]

/-- Before a character only characters are taken. -/
theorem Text.exists_of_inputs_eq {s : Text} {p q : List (Option Char)} {c : Char}
    (h : s.inputs = p ++ some c :: q) : ∃ t r, p = t.map some ∧ s.raised = t ++ c :: r := by
  rcases List.append_eq_append_iff.1 h with ⟨a, rfl, ha⟩ | ⟨a, ha, hq⟩
  · cases a with
    | nil => cases ha
    | cons x a => simp at ha
  · cases a with
    | nil => cases hq
    | cons x a =>
      obtain ⟨rfl, -⟩ := List.cons.inj hq
      obtain ⟨t, r, hs, rfl, hr⟩ := List.map_eq_append_iff.1 ha
      obtain ⟨c', r, rfl, hc, -⟩ := List.map_eq_cons_iff.1 hr
      cases hc
      exact ⟨t, r, rfl, hs⟩

/-- A move and the parentheses open after it. -/
structure Step where
  move : Move
  nesting : Nesting

namespace Context

/-- The step that a character or the end leads to. -/
def next (k : Context) : Option Char → Except (Failure GrammarError) Step
  | some c =>
    match k.nesting.count? c with
    | none => .error .overflow
    | some n => ((k.state.step c n).mapError .reported).map (⟨·, n⟩)
  | none => (k.state.finish.mapError .reported).map (⟨·, k.nesting⟩)

/-- The context in which the callbacks of a step run. -/
def enter (k : Context) (step : Step) (c : Option Char) : Context :=
  { k.note (.ofMove step.move c) with state := step.move.target, nesting := step.nesting }

/-- The automaton stands at the same place. -/
structure Alike (k k₀ : Context) : Prop where
  state : k.state = k₀.state
  nesting : k.nesting = k₀.nesting

variable {k k₀ k₁ : Context}

theorem Alike.trans (h : k.Alike k₁) (h₁ : k₁.Alike k₀) : k.Alike k₀ :=
  ⟨h.state.trans h₁.state, h.nesting.trans h₁.nesting⟩

theorem Alike.next (h : k.Alike k₀) (c : Option Char) : k.next c = k₀.next c := by
  unfold Context.next
  rw [h.state, h.nesting]

theorem alike_enter (k k₀ : Context) (step : Step) (c : Option Char) :
    (k.enter step c).Alike (k₀.enter step c) := ⟨rfl, rfl⟩

theorem next_of_overflow {c : Char} (h : k.nesting.count? c = none) :
    k.next (some c) = .error .overflow := by
  simp only [Context.next, h]

theorem next_of_count {c : Char} {n : Nesting} (h : k.nesting.count? c = some n) :
    k.next (some c) = ((k.state.step c n).mapError .reported).map (⟨·, n⟩) := by
  simp only [Context.next, h]

/-- A character that leads on is counted. -/
theorem exists_of_next_eq_ok {c : Char} {step : Step} (h : k.next (some c) = .ok step) :
    k.nesting.count? c = some step.nesting ∧
      k.state.step c step.nesting = .ok step.move := by
  rcases hn : k.nesting.count? c with _ | n
  · rw [next_of_overflow hn] at h
    cases h
  · rw [next_of_count hn] at h
    rcases hs : k.state.step c n with g | move
    · rw [hs] at h
      cases h
    · rw [hs] at h
      cases h
      exact ⟨rfl, hs⟩

/-- At the end the automaton leads on just where a text may end. -/
theorem next_none_eq_ok_iff {step : Step} :
    k.next none = .ok step ↔ k.state.finish = .ok step.move ∧ step.nesting = k.nesting := by
  obtain ⟨move, n⟩ := step
  simp only [Context.next]
  cases k.state.finish with
  | error g => simp [Except.mapError, Except.map]
  | ok move' => simp [Except.mapError, Except.map, eq_comm]

end Context

/-! ## Callbacks that leave the automaton where it stands -/

/-- A callback that goes through leaves the automaton where it stands. -/
def Callback.Keeps (callback : Callback) : Prop :=
  ∀ read c k k', callback read c k = .ok () k' → k'.Alike k

namespace Callback

theorem keeps_extendName : extendName.Keeps := by
  intro read c k k' h
  cases h
  exact ⟨rfl, rfl⟩

theorem keeps_extendBody : extendBody.Keeps := by
  intro read c k k' h
  cases h
  exact ⟨rfl, rfl⟩

theorem keeps_captureVariable : captureVariable.Keeps := by
  intro read c k k' h
  cases h
  exact ⟨rfl, rfl⟩

theorem keeps_captureGroup : captureGroup.Keeps := by
  intro read c k k' h
  obtain ⟨parts, -, rfl⟩ := exists_of_captureGroup_eq_ok h
  exact ⟨rfl, rfl⟩

theorem keeps_captureLambda : captureLambda.Keeps := by
  intro read c k k' h
  obtain ⟨-, parts, -, rfl⟩ := exists_of_captureLambda_eq_ok h
  exact ⟨rfl, rfl⟩

end Callback

namespace Machine

/-- Machines with no callbacks or with those that build terms, and with more registered that leave
the automaton where it stands. -/
inductive Extended (limit : UInt64) : Machine → Prop where
  | bare : Extended limit (bare limit)
  | standard : Extended limit (standard limit)
  | register {m : Machine} (h : Extended limit m) (trigger : Trigger) {callback : Callback}
      (hc : callback.Keeps) : Extended limit (m.register trigger callback)

/-- All callbacks of a machine leave the automaton where it stands. -/
def Keeps (m : Machine) : Prop := ∀ x ∈ m.callbacks, x.2.Keeps

theorem keeps_standard (limit : UInt64) : (standard limit).Keeps := by
  have h : ∀ x ∈ termCallbacks, x.2.Keeps := by
    simp only [termCallbacks, List.forall_mem_cons, Callback.keeps_captureVariable,
      Callback.keeps_extendName, Callback.keeps_extendBody, Callback.keeps_captureGroup,
      Callback.keeps_captureLambda, List.not_mem_nil, false_imp_iff, implies_true, and_self]
  exact h

variable {limit : UInt64} {m : Machine}

theorem Extended.keeps (h : m.Extended limit) : m.Keeps := by
  induction h with
  | bare => exact fun _ hx => nomatch hx
  | standard => exact keeps_standard limit
  | register _ _ hc ih =>
    intro x hx
    rcases List.mem_append.1 hx with hx | hx
    · exact ih x hx
    · rw [List.mem_singleton.1 hx]
      exact hc

/-! ## A run as a sequence -/

section Receive

variable (m : Machine) (read : BodyReader) {k : Context} {step : Step} {c : Option Char}
  {x : Failure ParseError}

/-- Takes a character or the end of the text. -/
def receive : Option Char → Action Unit
  | some c => m.feed read c
  | none => m.finish read

theorem scan_eq_forM (s : Text) : m.scan read s = s.inputs.forM (m.receive read) := by
  simp only [scan, Text.inputs, List.forM_eq_forM, List.forM_append, List.forM_map,
    List.forM_cons, List.forM_nil, receive, bind_pure_unit]

theorem forM_receive_map (t : Text) :
    (t.map some).forM (m.receive read) = t.forM (m.feed read) := by
  simp only [List.forM_eq_forM, List.forM_map, receive]

theorem receive_of_next (h : k.next c = .ok step) :
    m.receive read c k = m.applyWith read step.move c (k.enter step c) := by
  cases c with
  | some c =>
    obtain ⟨hn, hs⟩ := Context.exists_of_next_eq_ok h
    rw [receive, m.feed_of_count read hn, hs]
    rfl
  | none =>
    obtain ⟨hs, hn⟩ := Context.next_none_eq_ok_iff.1 h
    rw [receive, finish_apply, hs, follow_ok, Context.enter, hn]
    rfl

theorem receive_of_stop {y : Failure GrammarError} (h : k.next c = .error y) :
    ∃ k', m.receive read c k = .error y.ofAutomaton k' := by
  cases c with
  | some c =>
    rw [receive]
    rcases hn : k.nesting.count? c with _ | n
    · rw [Context.next_of_overflow hn] at h
      cases h
      exact ⟨k, m.feed_of_overflow read hn⟩
    · rw [Context.next_of_count hn] at h
      rw [m.feed_of_count read hn]
      rcases hs : k.state.step c n with g | move
      · rw [hs] at h
        cases h
        exact ⟨_, rfl⟩
      · rw [hs] at h
        cases h
  | none =>
    rw [receive, finish_apply]
    rcases hs : k.state.finish with g | move
    · rw [Context.next, hs] at h
      cases h
      exact ⟨k, rfl⟩
    · rw [Context.next, hs] at h
      cases h

/-- On a move, a callback fails after those before it went through. -/
def FailsOn (move : Move) (c : Option Char) (k : Context) (x : Failure ParseError) : Prop :=
  ∃ before callback after k₁ k₂, m.callbacksFor move = before ++ callback :: after ∧
    before.forM (fun f => f read c) k = .ok () k₁ ∧ callback read c k₁ = .error x k₂

/-- In a run a callback fails, the first that does. -/
def CallbackFails (l : List (Option Char)) (k : Context) (x : Failure ParseError) : Prop :=
  ∃ p c q k₁ step, l = p ++ c :: q ∧ p.forM (m.receive read) k = .ok () k₁ ∧
    k₁.next c = .ok step ∧ m.FailsOn read step.move c (k₁.enter step c) x

variable {m read}

theorem failsOn_iff {move : Move} :
    m.FailsOn read move c k x ↔ ∃ k', m.applyWith read move c k = .error x k' := by
  constructor
  · rintro ⟨before, callback, after, k₁, k₂, hlist, hbefore, hcallback⟩
    unfold applyWith
    rw [hlist]
    exact ⟨k₂, forM_of_error hbefore hcallback⟩
  · rintro ⟨k', h⟩
    obtain ⟨before, callback, after, k₁, hlist, hbefore, hcallback⟩ := exists_of_forM_eq_error h
    exact ⟨before, callback, after, k₁, k', hlist, hbefore, hcallback⟩

/-- The failure of the callback ends the run. -/
theorem CallbackFails.exists_forM {l : List (Option Char)} (h : m.CallbackFails read l k x) :
    ∃ k', l.forM (m.receive read) k = .error x k' := by
  obtain ⟨p, c, q, k₁, step, rfl, hp, hstep, hfail⟩ := h
  obtain ⟨k', hk'⟩ := failsOn_iff.1 hfail
  exact ⟨k', forM_of_error hp ((receive_of_next m read hstep).trans hk')⟩

/-- A run fails with a callback, or where the automaton fails. -/
theorem exists_of_forM_receive_eq_error {l : List (Option Char)} {k' : Context}
    (h : l.forM (m.receive read) k = .error x k') : m.CallbackFails read l k x ∨
      ∃ p c q k₁ y, l = p ++ c :: q ∧ p.forM (m.receive read) k = .ok () k₁ ∧
        k₁.next c = .error y ∧ x = y.ofAutomaton := by
  obtain ⟨p, c, q, k₁, rfl, hp, hc⟩ := exists_of_forM_eq_error h
  rcases hstep : k₁.next c with y | step
  · obtain ⟨k₂, hstop⟩ := receive_of_stop m read hstep
    rw [hstop] at hc
    cases hc
    exact .inr ⟨p, c, q, k₁, y, rfl, hp, hstep, rfl⟩
  · rw [receive_of_next m read hstep] at hc
    exact .inl ⟨p, c, q, k₁, step, rfl, hp, hstep, failsOn_iff.2 ⟨k', hc⟩⟩

end Receive

/-! ## In step with the machine without callbacks -/

section Bare

variable {m : Machine} {read : BodyReader} {k k' k₀ : Context} {step : Step} {c : Option Char}
  {l : List (Option Char)}

theorem alike_of_applyWith {move : Move} (hm : m.Keeps)
    (h : m.applyWith read move c k = .ok () k') : k'.Alike k := by
  refine forM_keeps (P := (·.Alike k)) (fun callback hcallback k₁ k₂ h₁ h₂ => ?_) ⟨rfl, rfl⟩ h
  obtain ⟨x, hx, rfl⟩ := List.mem_map.1 hcallback
  exact (hm x (List.mem_filter.1 hx).1 read c k₁ k₂ h₂).trans h₁

/-- What is taken leads on, and the automaton stands where it leads. -/
theorem exists_next_of_receive (hm : m.Keeps) (h : m.receive read c k = .ok () k') :
    ∃ step, k.next c = .ok step ∧ k'.Alike (k.enter step c) := by
  rcases hstep : k.next c with y | step
  · obtain ⟨k₁, hstop⟩ := receive_of_stop m read hstep
    rw [hstop] at h
    cases h
  · rw [receive_of_next m read hstep] at h
    exact ⟨step, rfl, alike_of_applyWith hm h⟩

/-- The count after characters that were taken is their excess. -/
theorem toInt_of_forM_feed (hm : m.Keeps) {t : Text} (h : t.forM (m.feed read) k = .ok () k') :
    k'.nesting.depth.toInt = k.nesting.depth.toInt + excess t := by
  induction t generalizing k with
  | nil =>
    cases h
    rw [excess_nil, Int.add_zero]
  | cons c t ih =>
    obtain ⟨_, k₁, hc, ht⟩ := exists_of_bind_eq_ok h
    obtain ⟨step, hstep, halike⟩ := exists_next_of_receive (c := some c) hm hc
    have hcount := Nesting.toInt_of_count (Context.exists_of_next_eq_ok hstep).1
    have hnesting : k₁.nesting = step.nesting := halike.nesting
    rw [ih ht, hnesting, hcount, excess_cons c t, Int.add_assoc]

/-- Only long texts have so many parentheses open that they cannot be counted. -/
theorem length_of_overflow (hm : m.Keeps) {s : Text} {p q : List (Option Char)}
    (hs : s.inputs = p ++ c :: q) (hk : k.nesting = {})
    (hp : p.forM (m.receive read) k = .ok () k') (h : k'.next c = .error .overflow) :
    2 ^ 31 ≤ s.length := by
  cases c with
  | none =>
    rw [Context.next] at h
    rcases hf : k'.state.finish with g | move <;> rw [hf] at h <;> cases h
  | some c =>
    obtain ⟨t, r, rfl, hraised⟩ := exists_of_inputs_eq hs
    rw [forM_receive_map] at hp
    have hdepth := toInt_of_forM_feed hm hp
    have hzero : k.nesting.depth.toInt = 0 := by
      rw [hk]
      rfl
    have hlen := congrArg List.length hraised
    rw [length_raised, List.length_append, List.length_cons] at hlen
    rcases hn : k'.nesting.count? c with _ | n
    · have hbeyond := Nesting.le_or_lt_of_count_eq_none hn
      have hlo := neg_length_le_excess (t ++ [c])
      have hhi := excess_le_length (t ++ [c])
      rw [excess_append, List.length_append, List.length_singleton] at hlo hhi
      omega
    · rw [Context.next_of_count hn] at h
      rcases hf : k'.state.step c n with g | move <;> rw [hf] at h <;> cases h

variable (limit' : UInt64) (read' : BodyReader)

/-- The machine without callbacks makes every move that a machine with callbacks makes. -/
theorem exists_bare_receive (hm : m.Keeps) (hk : k.Alike k₀)
    (h : m.receive read c k = .ok () k') : ∃ k₀',
      (bare limit').receive read' c k₀ = .ok () k₀' ∧ k'.Alike k₀' ∧ k₀'.terms = k₀.terms := by
  obtain ⟨step, hstep, halike⟩ := exists_next_of_receive hm h
  rw [hk.next] at hstep
  exact ⟨k₀.enter step c, receive_of_next _ read' hstep,
    halike.trans (Context.alike_enter k k₀ step c), rfl⟩

/-- So the two go through a text in step. -/
theorem exists_bare_forM (hm : m.Keeps) (hk : k.Alike k₀)
    (h : l.forM (m.receive read) k = .ok () k') : ∃ k₀',
      l.forM ((bare limit').receive read') k₀ = .ok () k₀' ∧ k'.Alike k₀' ∧
      k₀'.terms = k₀.terms := by
  induction l generalizing k k₀ with
  | nil =>
    cases h
    exact ⟨k₀, rfl, hk, rfl⟩
  | cons c l ih =>
    obtain ⟨_, k₁, hc, hl⟩ := exists_of_bind_eq_ok h
    obtain ⟨k₂, hc', hk₂, ht⟩ := exists_bare_receive limit' read' hm hk hc
    obtain ⟨k₀', hl', hk', ht'⟩ := ih hk₂ hl
    exact ⟨k₀', (bind_of_ok hc').trans hl', hk', ht'.trans ht⟩

end Bare

/-- A machine and the machine without callbacks read the same texts and fail alike where the
automaton fails, unless a callback fails. So it is for every reader of bodies and at every level. -/
theorem run_agrees_with_bare {m : Machine} (hm : m.Keeps) (limit' : UInt64)
    (read read' : BodyReader) (s : Text) (level level' : UInt64) :
    (∃ x, m.CallbackFails read s.inputs { level := level } x) ∨
    (∃ ts, (m.run read s level).value = .ok ts ∧
      ((bare limit').run read' s level').value = .ok []) ∨
    ∃ y : Failure GrammarError, (m.run read s level).value = .error y.ofAutomaton ∧
      ((bare limit').run read' s level').value = .error y.ofAutomaton ∧
      (y = .overflow → 2 ^ 31 ≤ s.length) := by
  have hstart : ({ level := level } : Context).Alike { level := level' } := ⟨rfl, rfl⟩
  rw [run_eq_outcome_scan, run_eq_outcome_scan, scan_eq_forM, scan_eq_forM]
  rcases h : s.inputs.forM (m.receive read) { level := level } with ⟨_, k⟩ | ⟨x, k⟩
  · obtain ⟨k₀, hbare, -, hterms⟩ := exists_bare_forM limit' read' hm hstart h
    rw [hbare]
    refine .inr (.inl ⟨k.terms.toList, rfl, ?_⟩)
    rw [Context.outcome, hterms]
  · rcases exists_of_forM_receive_eq_error h with hfail | ⟨p, c, q, k₁, y, hs, hp, hstep, rfl⟩
    · exact .inl ⟨x, hfail⟩
    · -- Both stand at the same place before the character, or the end, that stops them.
      obtain ⟨k₀, hbare, hk, -⟩ := exists_bare_forM limit' read' hm hstart hp
      have hlen : y = .overflow → 2 ^ 31 ≤ s.length := by
        rintro rfl
        exact length_of_overflow hm hs rfl hp hstep
      rw [hk.next] at hstep
      obtain ⟨k₂, hstop⟩ := receive_of_stop (bare limit') read' hstep
      rw [hs, forM_of_error hbare hstop]
      exact .inr (.inr ⟨y, rfl, rfl, hlen⟩)

theorem run_of_callbackFails {m : Machine} {read : BodyReader} {s : Text} {level : UInt64}
    {x : Failure ParseError} (h : m.CallbackFails read s.inputs { level := level } x) :
    (m.run read s level).value = .error x := by
  obtain ⟨k, hk⟩ := h.exists_forM
  rw [run_eq_outcome_scan, scan_eq_forM]
  exact congrArg Context.outcome hk

/-! ## The callbacks that build terms -/

section Standard

variable {limit level : UInt64} {read : BodyReader} {k : Context} {s t : Text}
  {x : Failure ParseError}

/-- The parentheses of characters that were taken can be counted. -/
theorem fits_of_forM_feed (h : t.forM ((standard limit).feed read) { level := level } = .ok () k) :
    Pending.start.Fits t := by
  rintro p ⟨r, rfl⟩
  obtain ⟨k₁, hp, -⟩ := exists_of_forM_append_eq_ok h
  have hdepth := toInt_of_forM_feed (keeps_standard limit) hp
  have hlt := k₁.nesting.toInt_lt
  have hzero : ({ level := level } : Context).nesting.depth.toInt = 0 := rfl
  show (0 : Int) + excess p < 2 ^ 31
  omega

/-- So can those of the character that leads on from there. -/
theorem shallow_of_next {c : Char} {step : Step}
    (h : t.forM ((standard limit).feed read) { level := level } = .ok () k)
    (hstep : k.next (some c) = .ok step) : Shallow (t ++ [c]) 2147483647 := by
  intro u hu
  rcases List.prefix_concat_iff.1 hu with rfl | hu
  · have hdepth := toInt_of_forM_feed (keeps_standard limit) h
    have hcount := Nesting.toInt_of_count (Context.exists_of_next_eq_ok hstep).1
    have hlt := step.nesting.toInt_lt
    have hzero : ({ level := level } : Context).nesting.depth.toInt = 0 := rfl
    rw [excess_append]
    omega
  · have hle : (0 : Int) + excess u < 2 ^ 31 := fits_of_forM_feed h u hu
    omega

/-- At the end of a text no callback fails. -/
theorem applyWith_done_ne_error (s : State) (k k' : Context) :
    (standard limit).applyWith read ⟨s, .done⟩ none k ≠ .error x k' := by
  cases s <;> exact fun h => nomatch h

/-- A character on which a callback fails completes a piece whose body cannot be read. -/
theorem exists_piece_of_failsOn {d : Pending} {c : Char} {step : Step} (hk : k.Holds d)
    (hd : d.Valid) (hstep : k.next (some c) = .ok step)
    (h : (standard limit).FailsOn read step.move (some c) (k.enter step (some c)) x) :
    ∃ p e b, d.next c = some (some p, e) ∧ p.body? = some b ∧
      (read.inner b k.level).value = .error x := by
  obtain ⟨k', hfail⟩ := failsOn_iff.1 h
  have hfeed : (standard limit).feed read c k = .error x k' :=
    (receive_of_next _ read hstep).trans hfail
  obtain ⟨hcount, hmove⟩ := Context.exists_of_next_eq_ok hstep
  have hfit : d.depth + excess [c] < 2 ^ 31 := by
    rw [← hk.depth, ← Nesting.toInt_of_count hcount]
    exact step.nesting.toInt_lt
  rcases hn : d.next c with _ | ⟨p, e⟩
  · rw [hk.state, State.step, Pending.next?_of_none hn] at hmove
    cases hmove
  · rcases hp : p.toList.mapM (Piece.read read k.level) with y | ts
    · obtain ⟨k₁, hr⟩ := feed_of_error limit read hk hd hfit hn hp
      cases hr.symm.trans hfeed
      obtain ⟨q, hq, hread⟩ := Piece.exists_of_mapM_read_eq_error hp
      obtain ⟨b, hb, hread⟩ := Piece.exists_of_read_eq_error hread
      rw [Option.mem_toList] at hq
      cases hq
      exact ⟨q, e, b, rfl, hb, hread⟩
    · obtain ⟨k₁, hr, -⟩ := feed_of_ok limit read hk hd hfit hn hp
      cases hr.symm.trans hfeed

/-- In a run a callback fails only with the failure of a body, which has fewer parentheses open than
the text. -/
theorem exists_inner_of_callbackFails
    (h : (standard limit).CallbackFails read s.inputs { level := level } x) :
    ∃ b d, raised b = b ∧ Shallow b d ∧ d + 1 < 2 ^ 31 ∧ (read.inner b level).value = .error x := by
  obtain ⟨p, c, q, k, step, hs, hp, hstep, hfail⟩ := h
  cases c with
  | none =>
    obtain ⟨hf, -⟩ := Context.next_none_eq_ok_iff.1 hstep
    obtain ⟨k', hfail⟩ := failsOn_iff.1 hfail
    rw [(State.finish_eq_ok_iff.1 hf).2] at hfail
    exact absurd hfail (applyWith_done_ne_error _ _ _)
  | some c =>
    obtain ⟨t, r, rfl, hraised⟩ := exists_of_inputs_eq hs
    rw [forM_receive_map] at hp
    obtain ⟨ps, d, ts, hreads, -, hk, hlevel, -⟩ :=
      reads_of_forM limit read (holds_start level) trivial (fits_of_forM_feed hp) hp
    obtain ⟨piece, e, b, hn, hb, hread⟩ :=
      exists_piece_of_failsOn hk (hreads.valid trivial) hstep hfail
    -- The body is one of the text up to here, in which the parentheses are counted.
    have hmem : piece ∈ (Pending.start.cut (t ++ [c])).pieces := by
      rw [hreads.cut_append, Pending.cut_cons_of_some hn]
      simp [Cut.prepend]
    obtain ⟨n, hn, hshallow⟩ :=
      Pending.exists_shallow_of_mem_cut hmem hb (shallow_of_next hp hstep)
    have htext : raised (t ++ [c]) = t ++ [c] :=
      raised_of_part (raised_raised s) ⟨[], r, by rw [hraised]; simp⟩
    have hlevel : k.level = level := hlevel
    rw [hlevel] at hread
    exact ⟨b, n, (Pending.encloses_of_mem_cut hmem hb).raised_eq htext, hshallow, by omega, hread⟩

/-- In a parse the failure of a callback names a body. -/
theorem exists_within_of_callbackFails {n : Nat}
    (h : (standard limit).CallbackFails ((standard limit).bodies n) s.inputs {} x) :
    ∃ (e : ParseError) (b : Text), x = .reported (e.within b) := by
  obtain ⟨b, d, hb, hshallow, hd, hread⟩ := exists_inner_of_callbackFails h
  have hzero : (0 : UInt64).toNat + 1 < UInt64.size := by decide
  rw [BodyReader.inner_of_lt hzero] at hread
  have hone : ((0 : UInt64) + 1).toNat = 1 := rfl
  rw [← hb] at hshallow
  obtain ⟨e, rfl⟩ := exists_reported_of_bodies hshallow (by omega) (.inl (by omega)) hread
  obtain ⟨y, hy⟩ := exists_within_of_bodies hread
  obtain ⟨e', -, rfl⟩ := Failure.within_eq_reported_iff.1 hy.symm
  exact ⟨e', b, rfl⟩

end Standard

/-! ## Agreement -/

/-- **Callbacks do not change what the automaton does**, whatever reads the bodies: a callback that
fails ends the run with its failure, the first that does; otherwise the text is read just if the
machine without callbacks reads it, and where the automaton fails both fail alike. The count of
parentheses overflows in long texts only. In the machine that builds terms a callback fails only
with the error of a body. -/
theorem agrees_with_bare {limit : UInt64} {m : Machine} (hm : m.Extended limit) (limit' : UInt64)
    (s : Text) :
    (∀ read : BodyReader,
      (∀ x, m.CallbackFails read s.inputs {} x → (m.run read s 0).value = .error x) ∧
      ((∃ x, m.CallbackFails read s.inputs {} x) ∨
        (∃ ts, (m.run read s 0).value = .ok ts ∧ ((bare limit').parse s).value = .ok []) ∨
        ∃ y : Failure GrammarError, (m.run read s 0).value = .error y.ofAutomaton ∧
          ((bare limit').parse s).value = .error y.ofAutomaton ∧
          (y = .overflow → 2 ^ 31 ≤ s.length))) ∧
    (∀ ts, ((standard limit).parse s).value = .ok ts → ((bare limit').parse s).value = .ok []) ∧
    (∀ x, ((standard limit).parse s).value = .error x → (∀ e, x = .reported e → e.captured = []) →
      ((bare limit').parse s).value = .error x) ∧
    ∀ x, ((bare limit').parse s).value = .error x → ∃ x',
      ((standard limit).parse s).value = .error x' ∧
        (x' = x ∨ ∃ e, x' = .reported e ∧ e.captured ≠ []) := by
  refine ⟨fun read => ⟨fun _ => run_of_callbackFails, ?_⟩, ?_⟩
  · exact run_agrees_with_bare hm.keeps limit' read (bare limit').parseBody s 0 0
  -- The machine that builds terms is one of these machines, and a callback that fails names a body.
  have hstd : (∃ (e : ParseError) (b : Text),
        ((standard limit).parse s).value = .error (.reported (e.within b))) ∨
      (∃ ts, ((standard limit).parse s).value = .ok ts ∧ ((bare limit').parse s).value = .ok []) ∨
      ∃ y : Failure GrammarError, ((standard limit).parse s).value = .error y.ofAutomaton ∧
        ((bare limit').parse s).value = .error y.ofAutomaton := by
    rcases run_agrees_with_bare (keeps_standard limit) limit' (standard limit).parseBody
      (bare limit').parseBody s 0 0 with ⟨x, hx⟩ | h | ⟨y, hy, hy', -⟩
    · obtain ⟨e, b, rfl⟩ := exists_within_of_callbackFails hx
      exact .inl ⟨e, b, run_of_callbackFails hx⟩
    · exact .inr (.inl h)
    · exact .inr (.inr ⟨y, hy, hy'⟩)
  rcases hstd with ⟨e, b, hv⟩ | ⟨us, hv, hb⟩ | ⟨y, hv, hb⟩ <;> rw [hv]
  · refine ⟨fun _ h => (nomatch h), fun x h hc => ?_, fun _ _ => ⟨_, rfl, .inr ⟨_, rfl, ?_⟩⟩⟩
    · cases h
      exact absurd (hc _ rfl) (List.cons_ne_nil b e.captured)
    · exact List.cons_ne_nil b e.captured
  · rw [hb]
    exact ⟨fun _ _ => rfl, fun _ h => (nomatch h), fun _ h => (nomatch h)⟩
  · rw [hb]
    exact ⟨fun _ h => (nomatch h), fun _ h _ => h, fun _ h => ⟨_, h, .inl rfl⟩⟩

/-- A machine whose callback has the body of a group read at the level of the group itself, by a
reader that reads everything: it passes, as without callbacks. The machine that builds terms finds
the inner body too deep, and stops behind a group where the machine without callbacks does. -/
theorem agrees_with_bare_reading_again :
    let again : Callback := fun read _ k =>
      match (read k.body.toList k.level).value with
      | .ok _ => .ok () k.clearBody
      | .error x => .error x k
    let m := ((bare 1).register (.exact ⟨.groupBody, .groupBody⟩) Callback.extendBody).register
      (.exact ⟨.groupBody, .groupEnd⟩) again
    let read : BodyReader := fun _ _ => ⟨.ok [], ∅⟩
    m.Extended 1 ∧
      ((m.run read "((a1))".toList 0).value = .ok [] ∧
        ((bare 0).parse "((a1))".toList).value = .ok []) ∧
      ((standard 1).parse "((a1))".toList).value =
        .error (.reported ⟨["(A1)".toList, "A1".toList], .tooDeep 1⟩) ∧
      ((standard 1).parse "(a1)+".toList).value = .error (.ofFault (.grammar
        (.unexpectedCharacter .groupEnd '+' State.groupEnd.expected))) ∧
      ((bare 0).parse "(a1)+".toList).value = .error (.ofFault (.grammar
        (.unexpectedCharacter .groupEnd '+' State.groupEnd.expected))) := by
  have hdeep : ((standard 1).parse "((a1))".toList).value =
      .error (.reported ⟨["(A1)".toList, "A1".toList], .tooDeep 1⟩) := by cbv
  have hsign : ((standard 1).parse "(a1)+".toList).value = .error (.ofFault (.grammar
      (.unexpectedCharacter .groupEnd '+' State.groupEnd.expected))) := by
    have hcut : Pending.start.cut (raised "(a1)+".toList) = ⟨[.group "A1".toList],
        some (.unexpectedCharacter .groupEnd '+' State.groupEnd.expected)⟩ := rfl
    have hpieces : [Piece.group "A1".toList].mapM (Piece.read (standard 1).parseBody 0) =
        .ok [.group [.var "A1".toList]] := by cbv
    rw [parse_value (by decide), hcut, Cut.outcome, hpieces]
    rfl
  have hrun : ((((bare 1).register (.exact ⟨.groupBody, .groupBody⟩)
      Callback.extendBody).register (.exact ⟨.groupBody, .groupEnd⟩) fun read _ k =>
        match (read k.body.toList k.level).value with
        | .ok _ => .ok () k.clearBody
        | .error x => .error x k).run (fun _ _ => ⟨.ok [], ∅⟩) "((a1))".toList 0).value =
      .ok [] := by cbv
  intro again m read
  have hagain : again.Keeps := by
    intro read c k k' h
    rcases hr : (read k.body.toList k.level).value with x | parts
    · simp [again, hr] at h
    · simp only [again, hr] at h
      cases h
      exact ⟨rfl, rfl⟩
  have hm : m.Extended 1 := .register (.register .bare _ Callback.keeps_extendBody) _ hagain
  refine ⟨hm, ⟨hrun, ?_⟩, hdeep, hsign, ?_⟩
  · obtain ⟨hfail, hfails | ⟨ts, -, hbare⟩ | ⟨y, hy, -⟩⟩ :=
      (agrees_with_bare hm 0 "((a1))".toList).1 read
    · obtain ⟨x, hx⟩ := hfails
      cases hrun.symm.trans (hfail x hx)
    · exact hbare
    · cases hrun.symm.trans hy
  · refine (agrees_with_bare hm 0 "(a1)+".toList).2.2.1 _ hsign fun e he => ?_
    cases he
    rfl

end Machine

end LambdaNotation
