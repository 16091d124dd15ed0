import LambdaNotation.Proofs.Yield

/-!
# The signs of a text that is read

A text that is read holds letters, digits, dots and parentheses only, however long it is and however
deep its bodies lie (`Machine.isSign_of_parse`). Outside bodies the automaton sees to it. Inside a
body it takes any character, but then the body is read by itself: at every moment what was taken so
far are signs, or it waits in the buffer of the body (`Context.Spent`), and at the end of a text
nothing waits.
-/

namespace LambdaNotation

open Text

/-! ## Signs -/

/-- The characters of the notation, with letters in either case. -/
def Text.isSign (c : Char) : Bool := c.isAlphanum || c == '.' || c == '(' || c == ')'

namespace Text

variable {c : Char}

theorem isSign_of_letter (h : c.isUpper ∨ c.isDigit) : isSign c := by
  rcases h with h | h <;> simp [isSign, Char.isAlphanum, Char.isAlpha, h]

/-- Raising makes no sign of what is none. -/
theorem isSign_of_toUpper (h : isSign c.toUpper) : isSign c := by
  by_cases hl : c.isLower
  · simp [isSign, Char.isAlphanum, Char.isAlpha, hl]
  · rwa [Char.toUpper_eq_of_not_isLower hl] at h

/-- A break between lines is no sign. -/
theorem not_isSign_of_break (h : c = '\n' ∨ c = '\r') : ¬ isSign c := by
  rcases h with rfl | rfl <;> decide

theorem IsWord.isSign {s : Text} (h : IsWord s) (hc : c ∈ s) : isSign c := by
  rcases h with h | h
  · exact isSign_of_letter (isUpper_or_isDigit_of_mem h.isName hc)
  · exact isSign_of_letter (.inl (h.2.2 c hc))

end Text

/-! ## What a character does to the body -/

theorem State.isSign_of_next {s t : State} {c : Char} {n : Nesting} (ho : ¬ s.Inside)
    (h : s.next? c n = some t) : isSign c := by
  have hopening : ∀ {t}, State.opening c = some t → isSign c := fun {t} h => by
    unfold State.opening at h
    split_ifs at h with hl ho hu
    · exact hl ▸ rfl
    · exact ho ▸ rfl
    · exact isSign_of_letter (.inl hu)
  cases s with
  | start | lambdaEnd | groupEnd => exact hopening h
  | groupBody => exact absurd (.inl rfl) ho
  | lambdaBody => exact absurd (.inr rfl) ho
  | nameDigits =>
    rw [State.next?] at h
    split_ifs at h with hd
    · exact isSign_of_letter (.inr hd)
    · exact hopening h
  | done => cases h
  | lambda =>
    rw [State.next?] at h
    split_ifs at h with hu
    exact isSign_of_letter (.inl hu)
  | binderLetters | nameLetters =>
    rw [State.next?] at h
    split_ifs at h with hu hd
    · exact isSign_of_letter (.inl hu)
    · exact isSign_of_letter (.inr hd)
  | binderDigits =>
    rw [State.next?] at h
    split_ifs at h with hd hdot
    · exact isSign_of_letter (.inr hd)
    · exact hdot ▸ rfl
  | binderDot =>
    rw [State.next?] at h
    split_ifs at h with hopen
    exact hopen ▸ rfl

namespace Machine

variable {limit : UInt64} {read : BodyReader} {k k' : Context} {s t : State} {c : Char}
  {n : Nesting} {move : Move} {callback : Callback} {x : Option Char}

/-- The body is collected and captured on moves that start in it. -/
theorem mem_callbacksFor_of_outside (ho : ¬ move.source.Inside)
    (h : callback ∈ (standard limit).callbacksFor move) :
    callback = Callback.extendName ∨ callback = Callback.captureVariable := by
  have hall : ∀ x ∈ termCallbacks, (x.2 = Callback.extendName ∨ x.2 = Callback.captureVariable) ∨
      ∃ move : Move, x.1 = .exact move ∧ move.source.Inside := by
    simp [termCallbacks, State.Inside]
  obtain ⟨y, hy, rfl⟩ := List.mem_map.1 h
  obtain ⟨hy, hfires⟩ := List.mem_filter.1 hy
  rcases hall y hy with hcallback | ⟨move', htrigger, hinside⟩
  · exact hcallback
  · have hmove : y.1.fires move := hfires
    rw [htrigger] at hmove
    obtain rfl : move' = move := of_decide_eq_true hmove
    exact absurd hinside ho

theorem body_of_applyWith (ho : ¬ move.source.Inside)
    (h : (standard limit).applyWith read move x k = .ok () k') : k'.body = k.body := by
  refine forM_keeps (P := (·.body = k.body)) (fun callback hcallback k₁ k₂ h₁ h₂ => ?_) rfl h
  rcases mem_callbacksFor_of_outside ho hcallback with rfl | rfl <;> cases h₂ <;> exact h₁

/-- Inside a body a character is collected, or it closes the body, which is then read. -/
theorem body_of_applyWith_inside (hi : s.Inside) (hs : s.next? c n = some t)
    (h : (standard limit).applyWith read ⟨s, t⟩ (some c) k = .ok () k') :
    (t = s ∧ k'.body = k.body.push c ∧ k'.state = k.state) ∨
      (c = ')' ∧ k'.body = #[] ∧
        ∃ parts, (read.inner k.body.toList k.level).value = .ok parts) := by
  rcases hi with rfl | rfl <;> obtain rfl := Option.some.inj hs <;> unfold State.closing at h ⊢ <;>
    split_ifs at h ⊢ with hc
  · rw [applyWith_groupEnd] at h
    obtain ⟨parts, hr, rfl⟩ := Callback.exists_of_captureGroup_eq_ok h
    exact .inr ⟨hc.1, rfl, parts, hr⟩
  · cases h
    exact .inl ⟨rfl, rfl, rfl⟩
  · rw [applyWith_lambdaEnd] at h
    obtain ⟨-, parts, hr, rfl⟩ := Callback.exists_of_captureLambda_eq_ok h
    exact .inr ⟨hc.1, rfl, parts, hr⟩
  · cases h
    exact .inl ⟨rfl, rfl, rfl⟩

/-- What a character that is fed does to the body: none outside bodies, where it is a sign; inside
a body it is collected, or closes the body and has it read. -/
theorem body_of_feed (h : (standard limit).feed read c k = .ok () k') :
    (¬ k.state.Inside ∧ isSign c ∧ k'.body = k.body) ∨
    (k'.state.Inside ∧ k'.body = k.body.push c) ∨
    (isSign c ∧ k'.body = #[] ∧ ∃ parts, (read.inner k.body.toList k.level).value = .ok parts) := by
  obtain ⟨n, -, h⟩ := exists_count_of_feed_eq_ok _ h
  rcases hs : k.state.step c n with e | ⟨s, t⟩
  · rw [hs, follow_error] at h
    cases h
  · obtain ⟨rfl, hnext⟩ := State.step_eq_ok_iff.1 hs
    rw [hs, follow_ok] at h
    by_cases hi : k.state.Inside
    · rcases body_of_applyWith_inside hi hnext h with ⟨ht, hbody, hstate⟩ | ⟨rfl, hbody, hread⟩
      · refine .inr (.inl ⟨?_, hbody⟩)
        rw [hstate]
        exact ht ▸ hi
      · exact .inr (.inr ⟨rfl, hbody, hread⟩)
    · have hbody := body_of_applyWith hi h
      exact .inl ⟨hi, State.isSign_of_next hi hnext, hbody⟩

end Machine

/-! ## What is taken is signs, or waits -/

/-- What a context took so far are signs, or it waits in the body; outside bodies nothing waits. -/
structure Context.Spent (k : Context) (p : Text) : Prop where
  signs : ∀ c ∈ p, isSign c ∨ c ∈ k.body
  outside : ¬ k.state.Inside → k.body = #[]

/-- The bodies that a reader takes hold signs only. -/
def BodyReader.TakesSigns (read : BodyReader) : Prop :=
  ∀ b level parts, (read b level).value = .ok parts → ∀ c ∈ b, isSign c

namespace Machine

variable {limit : UInt64} {read : BodyReader} {k k' : Context} {c : Char} {p s : Text}

theorem spent_start (level : UInt64) : ({ level := level } : Context).Spent [] :=
  ⟨fun _ h => (nomatch h), fun _ => rfl⟩

theorem spent_of_feed (hread : read.TakesSigns) (hk : k.Spent p)
    (h : (standard limit).feed read c k = .ok () k') : k'.Spent (p ++ [c]) := by
  rcases body_of_feed h with ⟨ho, hc, hbody⟩ | ⟨hi, hbody⟩ | ⟨hc, hbody, parts, hparts⟩
  · refine ⟨fun x hx => ?_, fun _ => hbody.trans (hk.outside ho)⟩
    rcases List.mem_append.1 hx with hx | hx
    · exact hbody ▸ hk.signs x hx
    · exact .inl (List.mem_singleton.1 hx ▸ hc)
  · refine ⟨fun x hx => ?_, fun ho => absurd hi ho⟩
    rw [hbody]
    rcases List.mem_append.1 hx with hx | hx
    · exact (hk.signs x hx).imp_right (Array.mem_push_of_mem c)
    · exact .inr (List.mem_singleton.1 hx ▸ Array.mem_push_self)
  · have hparts := (BodyReader.inner_eq_ok_iff.1 hparts).2
    refine ⟨fun x hx => .inl ?_, fun _ => hbody⟩
    rcases List.mem_append.1 hx with hx | hx
    · exact (hk.signs x hx).elim id fun hx => hread _ _ _ hparts x (Array.mem_toList_iff.2 hx)
    · exact List.mem_singleton.1 hx ▸ hc

theorem spent_of_forM (hread : read.TakesSigns) (hk : k.Spent p)
    (h : s.forM ((standard limit).feed read) k = .ok () k') : k'.Spent (p ++ s) := by
  induction s generalizing k p with
  | nil =>
    cases h
    rwa [List.append_nil]
  | cons c s ih =>
    obtain ⟨_, k₁, hc, hs⟩ := exists_of_bind_eq_ok h
    have hs' := ih (spent_of_feed hread hk hc) hs
    rwa [List.append_assoc] at hs'

/-- The text does not end inside a body. -/
theorem not_inside_of_finish (h : (standard limit).finish read k = .ok () k') :
    ¬ k.state.Inside := by
  rw [finish_apply] at h
  rcases hs : k.state.finish with e | move
  · rw [hs, follow_error] at h
    cases h
  · obtain ⟨ha, -⟩ := State.finish_eq_ok_iff.1 hs
    intro hi
    rcases hi with hi | hi <;> rw [hi] at ha <;> cases ha

theorem isSign_of_run (hread : read.TakesSigns) {level : UInt64} {ts : List Term}
    (h : ((standard limit).run read s level).value = .ok ts) : ∀ c ∈ s, isSign c := by
  intro c hc
  rw [run_eq_outcome_scan] at h
  obtain ⟨k, hscan, -⟩ := Context.exists_of_outcome_eq_ok h
  obtain ⟨_, k₁, hfeed, hfinish⟩ := exists_of_bind_eq_ok hscan
  have hk₁ := spent_of_forM hread (spent_start level) hfeed
  rcases hk₁.signs c.toUpper (List.mem_map_of_mem hc) with h | h
  · exact isSign_of_toUpper h
  · rw [hk₁.outside (not_inside_of_finish hfinish)] at h
    exact absurd h (Array.not_mem_empty _)

theorem takesSigns_bodies (limit : UInt64) (n : Nat) : ((standard limit).bodies n).TakesSigns :=
  bodies_keep (fun _ hread _ _ _ h => isSign_of_run hread h) n

/-- **A text that is read holds signs only**, at every depth of its bodies. -/
theorem isSign_of_parse {ts : List Term} (h : ((standard limit).parse s).value = .ok ts) :
    ∀ c ∈ s, isSign c :=
  isSign_of_run (takesSigns_bodies limit _) h

end Machine

/-! ## The signs of what is printed -/

namespace Term

/-- What is printed are signs and the letter of lambdas. -/
theorem Built.isSign_print {t : Term} (h : t.Built IsWord) :
    ∀ c ∈ t.print, isSign c ∨ c = lambdaLetter := by
  induction h with
  | var hw => exact fun c hc => .inl (hw.isSign hc)
  | @group parts _ ih =>
    have hall : ∀ c ∈ printAll parts, isSign c ∨ c = lambdaLetter := fun c hc => by
      obtain ⟨t, ht, hc⟩ := List.mem_flatMap.1 hc
      exact ih t ht c hc
    by_cases hone : parts.length = 1
    · obtain ⟨t, rfl⟩ := List.length_eq_one_iff.1 hone
      exact ih t (List.mem_singleton_self t)
    · rw [print_group hone]
      intro c hc
      simp only [List.mem_cons, List.mem_append, List.not_mem_nil, or_false] at hc
      rcases hc with rfl | hc | rfl
      · exact .inl rfl
      · exact hall c hc
      · exact .inl rfl
  | lambda hn _ ih =>
    intro c hc
    simp only [print_lambda, List.mem_cons, List.mem_append] at hc
    rcases hc with rfl | hc | rfl | hc
    · exact .inr rfl
    · exact .inl (isSign_of_letter (isUpper_or_isDigit_of_mem hn hc))
    · exact .inl rfl
    · exact ih c hc

end Term

end LambdaNotation
