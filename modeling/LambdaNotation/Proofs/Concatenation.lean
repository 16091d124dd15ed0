import LambdaNotation.Proofs.Level

/-!
# One text after another

A text that is read and does not end with a letter leaves the machine where a piece may begin. A
text after it comes to the same as by itself, behind the terms of the first
(`Machine.outcome_resumed`): only where its first character is refused does the error show where the
first text ended (`ParseError.resumed`). A digit after a digit is left out, since it goes on with
the variable.
-/

namespace LambdaNotation

open Text

/-- The error, if the text begins in this state and not at the start. -/
def GrammarError.resumed (s : State) : GrammarError → GrammarError
  | .unexpectedCharacter .start c expected => .unexpectedCharacter s c expected
  | e => e

/-- The error of a text, if the text begins in this state and not at the start. The error of a body
does not change. -/
def ParseError.resumed (s : State) : ParseError → ParseError
  | ⟨[], .grammar e⟩ => ⟨[], .grammar (e.resumed s)⟩
  | e => e

/-- The failure of a text, if the text begins in this state and not at the start. -/
def Failure.resumed (s : State) (x : Failure ParseError) : Failure ParseError := x.map (·.resumed s)

/-! ## Where a text ends -/

/-- Where a text can end that is read and does not end with a letter. -/
inductive Text.EndsIn : Text → State → Prop where
  | start : EndsIn [] .start
  | digit {a : Text} {c : Char} (h : a.getLast? = some c) (hc : c.isDigit) : EndsIn a .nameDigits
  | group {a : Text} (h : a.getLast? = some ')') : EndsIn a .groupEnd
  | lambda {a : Text} (h : a.getLast? = some ')') : EndsIn a .lambdaEnd

namespace Pending

variable {d e : Pending} {c : Char} {p : Option Piece} {s : Text}

theorem opening_ne_start (h : opening c = some e) : e ≠ start := by
  rintro rfl
  rcases opening_eq_some h with ⟨-, h⟩ | ⟨-, h⟩ | ⟨-, -, h⟩ <;> cases h

/-- No character leads back to the start. -/
theorem Leads.ne_start (h : Leads c d p e) : e ≠ start := by
  cases h with
  | first _ he | follows he => exact opening_ne_start he
  | _ => exact fun h => by cases h

/-- The character with which a text ends, and what it leaves pending. -/
theorem Leads.accepts (h : Leads c d p e) (ha : e.state.acceptsEnd) :
    c.isUpper ∨ (c.isDigit ∧ e.Ready ∧ e.state = .nameDigits) ∨
      (c = ')' ∧ e.Ready ∧ (e.state = .groupEnd ∨ e.state = .lambdaEnd)) := by
  cases h with
  | first _ he | follows he =>
    rcases opening_eq_some he with ⟨-, rfl⟩ | ⟨-, rfl⟩ | ⟨hu, -, -⟩
    · cases ha
    · cases ha
    · exact .inl hu
  | letter hc => exact .inl hc
  | firstDigit hc | digit hc => exact .inr (.inl ⟨hc, trivial, rfl⟩)
  | lambdaCloses hc _ => exact .inr (.inr ⟨hc, trivial, .inr rfl⟩)
  | groupCloses hc _ => exact .inr (.inr ⟨hc, trivial, .inl rfl⟩)
  | _ => cases ha

/-- After a text that does not end with a letter a piece may begin. -/
theorem Reads.ready {ps : List Piece} (h : Reads start s.raised ps d) (ha : d.state.acceptsEnd)
    (hlast : ∀ c ∈ s.getLast?, ¬ c.isAlpha) : d.Ready ∧ EndsIn s d.state := by
  rcases h.exists_leads with ⟨hnil, rfl⟩ | ⟨t, c, f, p, hs, hl⟩
  · obtain rfl := List.map_eq_nil_iff.1 hnil
    exact ⟨trivial, .start⟩
  · obtain ⟨x, hx, hxc⟩ : ∃ x, s.getLast? = some x ∧ x.toUpper = c := by
      have hmap : (s.map Char.toUpper).getLast? = some c := by
        rw [show s.map Char.toUpper = t ++ [c] from hs, List.getLast?_concat]
      rw [List.getLast?_map] at hmap
      exact Option.map_eq_some_iff.1 hmap
    rcases hl.accepts ha with hu | ⟨hdigit, hready, hstate⟩ | ⟨rfl, hready, hstate⟩
    · rw [← hxc, Char.isUpper_toUpper_eq_isAlpha] at hu
      exact absurd hu (hlast x hx)
    · obtain rfl := eq_of_toUpper_eq hxc (not_isUpper_of_isDigit hdigit)
      rw [hstate]
      exact ⟨hready, .digit hx hdigit⟩
    · obtain rfl := eq_of_toUpper_eq hxc rfl
      rcases hstate with hstate | hstate <;> rw [hstate]
      · exact ⟨hready, .group hx⟩
      · exact ⟨hready, .lambda hx⟩

/-! ## The text after it -/

/-- After its first character the start is never met again. -/
theorem resumed_of_cut {g : GrammarError} {t : State} (hd : d ≠ start)
    (h : (d.cut s).error = some g) : g.resumed t = g := by
  unfold GrammarError.resumed
  split
  · next c x =>
    obtain ⟨p, q, e, -, hreads, -, hstate, -⟩ := exists_reads_of_refused h
    have he : e = start := by
      cases e with
      | start => rfl
      | _ => cases hstate
    rcases hreads.exists_leads with ⟨-, rfl⟩ | ⟨_, _, _, _, -, hl⟩
    · exact absurd he hd
    · exact absurd he hl.ne_start
  · rfl

theorem next_of_opening_none (hd : d.Ready) (hc : d.state = .nameDigits → c.isDigit = false)
    (h : opening c = none) : d.next c = none := by
  cases d with
  | start | groupEnd | lambdaEnd => simp [next, h]
  | digits w => simp [next, h, hc rfl]
  | _ => exact hd.elim

theorem Ready.acceptsEnd (h : d.Ready) : d.state.acceptsEnd := by
  cases d with
  | start | groupEnd | lambdaEnd | digits w => rfl
  | _ => exact h.elim

theorem Ready.expected (h : d.Ready) : d.state.expected = State.start.expected := by
  cases d with
  | start | groupEnd | lambdaEnd | digits w => rfl
  | _ => exact h.elim

end Pending

namespace Machine

variable {limit level : UInt64} {d : Pending} {s a b : Text} {ts us vs : List Term} {n : Nat}

/-- Where a piece may begin, a text comes to the same as at the start, behind the term that is
completed first. -/
theorem outcome_resumed (m : Machine) (hd : d.Ready)
    (hs : ∀ c ∈ s.head?, d.state = .nameDigits → c.isDigit = false)
    (hv : d.last.toList.mapM (Piece.read (m.bodies n) level) = .ok vs) :
    (d.cut s).outcome (m.bodies n) level =
      (((Pending.start.cut s).outcome (m.bodies n) level).map (vs ++ ·)).mapError
        (·.resumed d.state) := by
  cases s with
  | nil =>
    rw [Pending.cut_nil_of_accepts hd.acceptsEnd]
    refine (Cut.outcome_eq_ok_iff.2 ⟨rfl, hv⟩).trans ?_
    exact congrArg Except.ok (List.append_nil vs).symm
  | cons c s =>
    rcases ho : Pending.opening c with _ | e
    · have hn := Pending.next_of_opening_none hd (hs c rfl) ho
      have hn' := Pending.next_of_opening_none (d := .start) trivial (fun h => by cases h) ho
      rw [Pending.cut_cons_of_none hn, Pending.cut_cons_of_none hn', hd.expected]
      rfl
    · rw [Pending.cut_opening hd ho, Pending.cut_opening (d := .start) trivial ho,
        Cut.outcome_prepend, Cut.outcome_prepend, hv]
      rcases hx : (e.cut s).outcome (m.bodies n) level with x | us
      · -- An error of the automaton comes after the first character, so not at the start.
        have hres : x.resumed d.state = x := by
          cases x with
          | overflow => rfl
          | reported y =>
            refine congrArg Failure.reported (show y.resumed d.state = y from ?_)
            unfold ParseError.resumed
            split
            · next g =>
              obtain ⟨g', -, hg, he, -⟩ := exists_of_outcome_eq_unwrapped hx rfl
              cases he
              rw [Pending.resumed_of_cut (Pending.opening_ne_start ho) hg]
            · rfl
        exact congrArg Except.error hres.symm
      · rfl

/-- The machine takes a text that is read, and does not end with a letter, up to where a piece may
begin. -/
theorem exists_ready_of_parse (hlen : a.length < 2 ^ 31)
    (ha : ((standard limit).parse a).value = .ok ts) (hlast : ∀ c ∈ a.getLast?, ¬ c.isAlpha) :
    ∃ k d vs, a.raised.forM ((standard limit).feed (standard limit).parseBody) {} = .ok () k ∧
      k.Holds d ∧ d.Valid ∧ k.level = 0 ∧ d.Ready ∧
      d.last.toList.mapM (Piece.read (standard limit).parseBody 0) = .ok vs ∧
      ts = k.terms.toList ++ vs ∧ EndsIn a d.state := by
  rw [parse_value hlen] at ha
  obtain ⟨herr, hread⟩ := Cut.outcome_eq_ok_iff.1 ha
  obtain ⟨ps, d, hreads, hacc, hps⟩ := Pending.exists_reads_of_no_error herr
  rw [hps] at hread
  obtain ⟨us, vs, hus, hvs, rfl⟩ := Piece.exists_of_mapM_read_append_eq_ok hread
  have hfit : Pending.start.Fits a.raised :=
    Pending.fits_of_depth_eq_zero rfl (by rwa [length_raised])
  obtain ⟨k, hk, hd, hlevel, hterms⟩ := forM_of_reads limit (standard limit).parseBody hreads
    (holds_start 0) trivial hfit hus
  obtain ⟨hready, hend⟩ := hreads.ready hacc hlast
  refine ⟨k, d, vs, hk, hd, hreads.valid trivial, hlevel, hready, hvs, ?_, hend⟩
  rw [hterms]
  rfl

/-- After a digit the next text does not begin with one. -/
theorem not_isDigit_of_head {t : State} (hend : EndsIn a t)
    (hdigits : ∀ c ∈ a.getLast?, ∀ x ∈ b.head?, ¬ (c.isDigit ∧ x.isDigit)) :
    ∀ c ∈ b.raised.head?, t = .nameDigits → c.isDigit = false := by
  rintro c hc rfl
  obtain ⟨y, hy, hydigit⟩ : ∃ y, a.getLast? = some y ∧ y.isDigit := by
    cases hend with
    | digit h hc => exact ⟨_, h, hc⟩
  have hmap : (b.map Char.toUpper).head? = some c := hc
  rw [List.head?_map] at hmap
  obtain ⟨x, hx, rfl⟩ := Option.map_eq_some_iff.1 hmap
  refine Bool.eq_false_iff.2 fun hxdigit => hdigits y hy x hx ⟨hydigit, ?_⟩
  rwa [eq_of_toUpper_eq rfl (not_isUpper_of_isDigit hxdigit)]

/-- **Reading goes on after a text that is read**, unless the text ends with a letter or its last
digit is followed by a digit. The terms of the second text come after those of the first, and the
second has the error that it has by itself; only if its first character is refused does the error
name the state in which the first text ended. -/
theorem parse_append (limit : UInt64) (hlen : (a ++ b).length < 2 ^ 31)
    (ha : ((standard limit).parse a).value = .ok ts) (hlast : ∀ c ∈ a.getLast?, ¬ c.isAlpha)
    (hdigits : ∀ c ∈ a.getLast?, ∀ x ∈ b.head?, ¬ (c.isDigit ∧ x.isDigit)) :
    ∃ k : Context,
      a.raised.forM ((standard limit).feed (standard limit).parseBody) {} = .ok () k ∧
      EndsIn a k.state ∧
      (∀ us, ((standard limit).parse b).value = .ok us →
        ((standard limit).parse (a ++ b)).value = .ok (ts ++ us)) ∧
      ∀ x, ((standard limit).parse b).value = .error x →
        ((standard limit).parse (a ++ b)).value = .error (x.resumed k.state) := by
  rw [List.length_append] at hlen
  obtain ⟨k, d, vs, hk, hd, hvalid, hlevel, hready, hvs, rfl, hend⟩ :=
    exists_ready_of_parse (by omega) ha hlast
  have hfit : d.Fits b.raised := by
    refine Pending.fits_of_depth_eq_zero (Pending.depth_eq_zero_of_accepts hready.acceptsEnd) ?_
    rw [length_raised]
    omega
  have hhead := not_isDigit_of_head hend hdigits
  have hres : (d.cut b.raised).outcome (standard limit).parseBody 0 =
      (((Pending.start.cut b.raised).outcome (standard limit).parseBody 0).map (vs ++ ·)).mapError
        (·.resumed d.state) := outcome_resumed (standard limit) hready hhead hvs
  have hout : ((standard limit).parse (a ++ b)).value =
      (((standard limit).parse b).value.map (k.terms.toList ++ vs ++ ·)).mapError
        (·.resumed d.state) := by
    rw [parse_eq_outcome, raised_append, bind_forM_append_of_ok hk,
      outcome_feed limit _ hd hvalid hfit, hlevel, hres, parse_value (by omega)]
    rcases (Pending.start.cut b.raised).outcome (standard limit).parseBody 0 with x | us
    · rfl
    · exact congrArg Except.ok (List.append_assoc ..).symm
  refine ⟨k, hk, by rwa [hd.state], fun us hb => ?_, fun x hb => ?_⟩
  · rw [hout, hb]
    rfl
  · rw [hout, hb, hd.state]
    rfl

/-- The first text ends with a digit, where its variable may go on, and the second begins with a
character that is refused. -/
theorem parse_append_after_digit :
    ("(a)b1".toList ++ ".c".toList).length < 2 ^ 31 ∧
      ((standard 3).parse "(a)b1".toList).value =
        .ok [.group [.var "A".toList], .var "B1".toList] ∧
      ((standard 3).parse ".c".toList).value = .error (.ofFault (.grammar
        (.unexpectedCharacter .start '.' State.start.expected))) ∧
      ((standard 3).parse ("(a)b1".toList ++ ".c".toList)).value = .error (.ofFault (.grammar
        (.unexpectedCharacter .nameDigits '.' State.start.expected))) := by
  have hlen : ("(a)b1".toList ++ ".c".toList).length < 2 ^ 31 := by decide
  have ha : ((standard 3).parse "(a)b1".toList).value =
      .ok [.group [.var "A".toList], .var "B1".toList] := by cbv
  have hb : ((standard 3).parse ".c".toList).value = .error (.ofFault (.grammar
      (.unexpectedCharacter .start '.' State.start.expected))) := by
    rw [parse_value (by decide)]
    rfl
  have hlast : ∀ c ∈ "(a)b1".toList.getLast?, ¬ c.isAlpha := by
    intro c hc
    obtain rfl : '1' = c := Option.some.inj hc
    decide
  have hfirst : ∀ c ∈ "(a)b1".toList.getLast?, ∀ x ∈ ".c".toList.head?,
      ¬ (c.isDigit ∧ x.isDigit) := by
    intro c _ x hx
    obtain rfl : '.' = x := Option.some.inj hx
    exact fun h => absurd h.2 (by decide)
  obtain ⟨k, -, hstate, -, herr⟩ := parse_append 3 hlen ha hlast hfirst
  have hdigits : k.state = .nameDigits := by
    generalize k.state = t at hstate
    cases hstate with
    | digit _ _ => rfl
    | group h | lambda h => exact absurd h (by decide)
  have hab := herr _ hb
  rw [hdigits] at hab
  exact ⟨hlen, ha, hb, hab⟩

end Machine

end LambdaNotation
