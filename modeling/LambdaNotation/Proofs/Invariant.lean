import LambdaNotation.Proofs.RoundTrip

/-!
# What a context accounts for

After every character, the count of parentheses, the two buffers and the terms of a context account
for the text read so far (`Context.Accounts`): its terms are the pieces that the text completes, and
its buffers are what it leaves pending (`Machine.traces_of_forM`). When the text ends, all of it is
in the terms.
-/

namespace LambdaNotation

open Text

/-! ## The account -/

/-- The states inside a body. -/
def State.Inside (s : State) : Prop := s = .groupBody ∨ s = .lambdaBody

/-- The names that can be read in a state. -/
def State.Spells : State → Text → Prop
  | .nameLetters, w => IsStem w
  | .nameDigits, w => IsVariable w
  | .binderLetters, w => w ≠ [] ∧ ∀ c ∈ w, c.isUpper
  | .binderDigits, w | .binderDot, w | .lambdaBody, w => isName w
  | _, w => w = []

/-- The text that is read and not yet in the terms. -/
def Context.unfinished (k : Context) : Text :=
  match k.state with
  | .nameLetters | .nameDigits => k.name.toList
  | .lambda | .binderLetters | .binderDigits => 'L' :: k.name.toList
  | .binderDot => 'L' :: (k.name.toList ++ ['.'])
  | .lambdaBody => 'L' :: (k.name.toList ++ '.' :: '(' :: k.body.toList)
  | .groupBody => '(' :: k.body.toList
  | _ => []

/-- A context accounts for the text `s`: its fields agree with each other and with `s`. -/
structure Context.Accounts (k : Context) (s : Text) : Prop where
  /-- Inside a body its parenthesis is open and those in the body are. -/
  depth_inside : k.state.Inside → k.nesting.depth.toInt = 1 + excess k.body.toList
  /-- Outside a body no parenthesis is open. -/
  depth_outside : ¬ k.state.Inside → k.nesting.depth.toInt = 0
  /-- No prefix of a body closes more than it opens. -/
  opened : Opened k.body.toList
  /-- Outside a body none is kept. -/
  body_outside : ¬ k.state.Inside → k.body = #[]
  name : k.state.Spells k.name.toList
  /-- The terms and what is unfinished are the text. -/
  text : Term.sourceAll k.terms.toList ++ k.unfinished = s

/-! ## Readers that lose nothing -/

/-- What a reader makes of a body is written as the body. -/
def Faithful (read : BodyReader) : Prop :=
  ∀ b level ts, raised b = b → b.length < 2 ^ 31 → (read b level).value = .ok ts →
    Term.sourceAll ts = b

variable {read : BodyReader} {level : UInt64}

/-- The term of a piece is written as the piece. -/
theorem Piece.source_of_read {p : Piece} {t : Term} (hread : Faithful read)
    (hr : raised p.text = p.text) (hlen : p.text.length < 2 ^ 31)
    (h : p.read read level = .ok t) : t.source = p.text := by
  have hb : ∀ b parts, p.body? = some b → (read.inner b level).value = .ok parts →
      Term.sourceAll parts = b := by
    intro b parts hb hparts
    have he : Encloses p.text b := infix_text hb
    have hl := he.length_le
    exact hread b _ parts (he.raised_eq hr) (by omega) (BodyReader.inner_eq_ok_iff.1 hparts).2
  cases p with
  | name w =>
    cases h
    rw [Term.source, text]
  | group b =>
    obtain ⟨parts, hv, rfl⟩ := map_eq_ok_iff.1 h
    rw [Term.source_group, hb b parts rfl hv, text]
  | lambda w b =>
    obtain ⟨parts, hv, rfl⟩ := map_eq_ok_iff.1 h
    rw [Term.source_lambda_group, hb b parts rfl hv, text]

/-- The terms of pieces are written as the pieces. -/
theorem Piece.sourceAll_of_mapM {ps : List Piece} {ts : List Term} (hread : Faithful read)
    (hr : raised (textAll ps) = textAll ps) (hlen : (textAll ps).length < 2 ^ 31)
    (h : ps.mapM (Piece.read read level) = .ok ts) : Term.sourceAll ts = textAll ps := by
  induction ps generalizing ts with
  | nil =>
    cases h
    rfl
  | cons p ps ih =>
    obtain ⟨t, us, ht, hus, rfl⟩ := mapM_read_cons_eq_ok_iff.1 h
    rw [textAll_cons] at hr hlen ⊢
    have hp : raised p.text = p.text := raised_of_part hr (List.prefix_append ..).isInfix
    have hps : raised (textAll ps) = textAll ps := raised_of_part hr (List.suffix_append ..).isInfix
    rw [List.length_append] at hlen
    rw [Term.sourceAll, source_of_read hread hp (by omega) ht, ih hps (by omega) hus]

namespace Machine

/-- The machine that builds terms loses nothing of a body, however many it may hold open. -/
theorem faithful_bodies (limit : UInt64) (n : Nat) : Faithful ((standard limit).bodies n) := by
  induction n with
  | zero => exact fun b level ts _ _ h => nomatch h
  | succ n ih =>
    intro b level ts hr hlen h
    by_cases hl : limit < level
    · rw [bodies_of_tooDeep hl] at h
      exact nomatch h
    · rw [bodies_succ_value hl hlen, mapError_eq_ok_iff, hr] at h
      obtain ⟨herr, hok⟩ := Cut.outcome_eq_ok_iff.1 h
      obtain ⟨-, ht⟩ := Pending.row_of_no_error herr
      have hs := Piece.sourceAll_of_mapM ih (by rw [ht, hr]) (by rw [ht]; exact hlen) hok
      exact hs.trans ht

end Machine

/-! ## A context traces a text -/

/-- A context stands where a pending piece says, and its terms and this piece are the text. -/
structure Context.Traces (k : Context) (d : Pending) (s : Text) : Prop where
  holds : k.Holds d
  valid : d.Valid
  text : Term.sourceAll k.terms.toList ++ d.text = s

theorem Context.Traces.unfinished {k : Context} {d : Pending} {s : Text} (h : k.Traces d s) :
    k.unfinished = d.text := by
  obtain ⟨⟨hstate, hname, hbody, -⟩, -, -⟩ := h
  unfold Context.unfinished
  rw [hstate, hname, hbody]
  cases d <;> rfl

theorem Context.Traces.accounts {k : Context} {d : Pending} {s : Text} (h : k.Traces d s) :
    k.Accounts s := by
  have hu := h.unfinished
  obtain ⟨⟨hstate, hname, hbody, hdepth⟩, hd, ht⟩ := h
  refine ⟨fun hi => ?_, fun ho => ?_, ?_, fun ho => ?_, ?_, ?_⟩
  · rw [hstate] at hi
    rw [hdepth, hbody]
    cases d with
    | lambdaBody w b | groupBody b => rfl
    | _ => rcases hi with h | h <;> cases h
  · rw [hstate] at ho
    rw [hdepth]
    cases d with
    | lambdaBody w b => exact absurd (.inr rfl) ho
    | groupBody b => exact absurd (.inl rfl) ho
    | _ => rfl
  · rw [hbody]
    cases d with
    | lambdaBody w b => exact hd.2
    | groupBody b => exact hd
    | _ => exact opened_nil
  · rw [hstate] at ho
    apply Array.toList_eq_nil_iff.1
    rw [hbody]
    cases d with
    | lambdaBody w b => exact absurd (.inr rfl) ho
    | groupBody b => exact absurd (.inl rfl) ho
    | _ => rfl
  · rw [hstate, hname]
    cases d with
    | start | groupEnd | lambdaEnd | lambda | groupBody b => rfl
    | lambdaBody w b => exact hd.1
    | _ => exact hd
  · rw [hu, ht]

/-- At the end nothing is open and nothing is kept. -/
theorem Context.accounts_of_done {k : Context} (hs : k.state = .done)
    (hdepth : k.nesting.depth.toInt = 0) (hname : k.name.toList = []) (hbody : k.body.toList = []) :
    k.Accounts (Term.sourceAll k.terms.toList) := by
  refine ⟨fun hi => ?_, fun _ => hdepth, ?_, fun _ => Array.toList_eq_nil_iff.1 hbody, ?_, ?_⟩
  · rw [hs] at hi
    rcases hi with h | h <;> cases h
  · rw [hbody]
    exact opened_nil
  · rw [hs, hname]
    rfl
  · unfold Context.unfinished
    rw [hs]
    exact List.append_nil _

theorem Context.traces_start (level : UInt64) :
    ({ level := level } : Context).Traces .start [] :=
  ⟨Machine.holds_start level, trivial, rfl⟩

/-! ## A text that is taken -/

namespace Machine

variable {limit : UInt64} {k k' : Context} {d : Pending} {c : Char} {s t : Text}

/-- A text that is taken is traced. -/
theorem traces_of_forM (hread : Faithful read) (hk : k.Traces d s)
    (hr : raised (s ++ t) = s ++ t) (hlen : (s ++ t).length < 2 ^ 31)
    (h : t.forM ((standard limit).feed read) k = .ok () k') : ∃ e, k'.Traces e (s ++ t) := by
  obtain ⟨hh, hd, ht⟩ := hk
  have hfit : d.Fits t := by
    have hle := d.depth_le_length
    rw [← ht, List.length_append, List.length_append] at hlen
    apply Pending.fits_of_length
    omega
  obtain ⟨ps, e, ts, hreads, hps, hh', -, hts⟩ := reads_of_forM limit read hh hd hfit h
  have htext : Term.sourceAll k.terms.toList ++ (Piece.textAll ps ++ e.text) = s ++ t := by
    rw [← hreads.text, ← ht, List.append_assoc]
  -- What the characters complete stands in the text read so far, so it is raised and short.
  have hin : Piece.textAll ps <:+: s ++ t := ⟨_, _, by rw [← htext, List.append_assoc]⟩
  have hsource := Piece.sourceAll_of_mapM hread (raised_of_part hr hin)
    (Nat.lt_of_le_of_lt hin.length_le hlen) hps
  refine ⟨e, hh', hreads.valid hd, ?_⟩
  rw [hts, Term.sourceAll_append, hsource, List.append_assoc, htext]

/-- A name that the end of the text completes is read without a reader. -/
theorem exists_mapM_last (read : BodyReader) (level : UInt64) (d : Pending) :
    ∃ ts, d.last.toList.mapM (Piece.read read level) = .ok ts ∧
      Term.sourceAll ts = Piece.textAll d.last.toList := by
  cases d with
  | letters w | digits w =>
    refine ⟨[.var w], rfl, ?_⟩
    rw [Term.sourceAll_singleton, Term.source]
    exact (List.append_nil w).symm
  | _ => exact ⟨[], rfl, rfl⟩

/-- When the text ends, all of it is in the terms. -/
theorem accounts_of_finish (hk : k.Traces d s)
    (h : (standard limit).finish read k = .ok () k') : k'.state = .done ∧ k'.Accounts s := by
  obtain ⟨hh, -, ht⟩ := hk
  by_cases ha : d.state.acceptsEnd
  · obtain ⟨k₀, hs, hc, -, hts, hg⟩ := finish_of_accepts limit read hh ha
    obtain ⟨ts, hp, hsource⟩ := exists_mapM_last read k₀.level d
    rw [hp] at hg
    obtain ⟨k₁, hr, hs₁, hc₁, -, hname, hbody, hts₁⟩ := hg
    rw [hr] at h
    cases h
    have hdone : k'.state = .done := hs₁.trans hs
    have hdepth : k'.nesting.depth.toInt = 0 := by
      rw [hc₁, hc, hh.depth, Pending.depth_eq_zero_of_accepts ha]
    have htext : Term.sourceAll k'.terms.toList = s := by
      rw [hts₁, hts, Term.sourceAll_append, hsource, Pending.textAll_last ha, ht]
    have hacc := Context.accounts_of_done hdone hdepth hname hbody
    rw [htext] at hacc
    exact ⟨hdone, hacc⟩
  · obtain ⟨k₀, hr⟩ := finish_of_not_accepts limit read hh ha
    rw [hr] at h
    cases h

/-- **A run accounts for its text**: after every character its context does for what is read so far,
and at the end for the whole text, with all of it in the terms. So it is at every level, and
however many bodies may be open in the bodies that are read for the run. -/
theorem accounts_of_run (limit level : UInt64) (n : Nat) {s : Text} (hs : s.length < 2 ^ 31) :
    (∀ p k, p <+: s.raised →
      p.forM ((standard limit).feed ((standard limit).bodies n)) { level := level } = .ok () k →
      k.Accounts p) ∧
    ∀ k, (standard limit).scan ((standard limit).bodies n) s { level := level } = .ok () k →
      k.state = .done ∧ k.Accounts s.raised := by
  have htraces : ∀ p k, p <+: s.raised →
      p.forM ((standard limit).feed ((standard limit).bodies n)) { level := level } = .ok () k →
      ∃ e, k.Traces e p := by
    intro p k hp h
    have hlen := hp.length_le
    rw [length_raised] at hlen
    exact traces_of_forM (s := []) (faithful_bodies limit n) (Context.traces_start level)
      (raised_of_part (raised_raised s) hp.isInfix) (Nat.lt_of_le_of_lt hlen hs) h
  refine ⟨fun p k hp h => ?_, fun k h => ?_⟩
  · obtain ⟨e, he⟩ := htraces p k hp h
    exact he.accounts
  · obtain ⟨_, k₁, hfeed, hfinish⟩ := exists_of_bind_eq_ok h
    obtain ⟨e, he⟩ := htraces s.raised k₁ (List.prefix_refl _) hfeed
    exact accounts_of_finish he hfinish

/-- A group is complete, and of a lambda one parenthesis of the body is closed. -/
theorem accounts_inside_lambda :
    "a1(b)lx2.(c(d)e)".toList.length < 2 ^ 31 ∧
      ∃ k : Context, "A1(B)LX2.(C(D)".toList.forM
          ((standard 256).feed ((standard 256).bodies 3)) { level := 2 } = .ok () k ∧
        k.terms.toList = [.var "A1".toList, .group [.var "B".toList]] ∧
        k.Accounts "A1(B)LX2.(C(D)".toList := by
  have hlen : "a1(b)lx2.(c(d)e)".toList.length < 2 ^ 31 := by decide
  have hread : Context.outcome ("A1(B)LX2.(C(D)".toList.forM
      ((standard 256).feed ((standard 256).bodies 3)) { level := 2 }) =
      .ok [.var "A1".toList, .group [.var "B".toList]] := by cbv
  obtain ⟨k, hk, hts⟩ := Context.exists_of_outcome_eq_ok hread
  exact ⟨hlen, k, hk, hts, (accounts_of_run 256 2 3 hlen).1 _ k ⟨"E)".toList, by decide⟩ hk⟩

end Machine

end LambdaNotation
