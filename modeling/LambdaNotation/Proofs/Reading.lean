import LambdaNotation.Machine
import LambdaNotation.Proofs.Cut
import LambdaNotation.Proofs.Results
import LambdaNotation.Proofs.Sequence

/-!
# Reading pieces

What the machine that builds terms makes of a text is what it makes of its pieces, one after the
other, and then of the error of the automaton (`Machine.run_value`).
-/

namespace LambdaNotation

open Text

namespace Callback

variable {read : BodyReader} {c : Option Char} {k k' : Context} {parts : List Term}
  {x : Failure ParseError}

theorem captureGroup_of_ok (h : (read.inner k.body.toList k.level).value = .ok parts) :
    captureGroup read c k =
      .ok () (Context.push (.group parts) (.foundGroup (.group parts))
        { k.clearBody with log := k.log ++ (read.inner k.body.toList k.level).log }) := by
  show (EStateM.bind (readBody read k.body.toList) _ k.clearBody) = _
  unfold EStateM.bind
  rw [readBody_of_ok (k := k.clearBody) h]
  rfl

theorem captureGroup_of_error (h : (read.inner k.body.toList k.level).value = .error x) :
    captureGroup read c k =
      .error x { k.clearBody with log := k.log ++ (read.inner k.body.toList k.level).log } := by
  show (EStateM.bind (readBody read k.body.toList) _ k.clearBody) = _
  unfold EStateM.bind
  rw [readBody_of_error (k := k.clearBody) h]
  rfl

theorem exists_of_captureGroup_eq_ok (h : captureGroup read c k = .ok () k') : ∃ parts,
    (read.inner k.body.toList k.level).value = .ok parts ∧
    k' = Context.push (.group parts) (.foundGroup (.group parts))
      { k.clearBody with log := k.log ++ (read.inner k.body.toList k.level).log } := by
  rcases hr : (read.inner k.body.toList k.level).value with x | parts
  · rw [captureGroup_of_error hr] at h
    cases h
  · rw [captureGroup_of_ok hr] at h
    cases h
    exact ⟨parts, rfl, rfl⟩

theorem value_of_captureGroup_eq_error (h : captureGroup read c k = .error x k') :
    (read.inner k.body.toList k.level).value = .error x := by
  rcases hr : (read.inner k.body.toList k.level).value with y | parts
  · rw [captureGroup_of_error hr] at h
    cases h
    rfl
  · rw [captureGroup_of_ok hr] at h
    cases h

theorem captureLambda_of_isName (hn : isName k.name.toList) :
    captureLambda read c k = EStateM.bind (readBody read k.body.toList)
      (fun parts => modify (·.push (.lambda k.name.toList (.group parts))
        (.foundLambda (.lambda k.name.toList (.group parts))))) k.clearName.clearBody := by
  show (if isName k.name.toList then _ else throw _ : Action Unit) k.clearName.clearBody = _
  rw [if_pos hn]
  rfl

theorem captureLambda_of_ok (hn : isName k.name.toList)
    (h : (read.inner k.body.toList k.level).value = .ok parts) :
    captureLambda read c k =
      .ok () (Context.push (.lambda k.name.toList (.group parts))
        (.foundLambda (.lambda k.name.toList (.group parts)))
        { k.clearName.clearBody with log := k.log ++ (read.inner k.body.toList k.level).log }) := by
  rw [captureLambda_of_isName hn]
  unfold EStateM.bind
  rw [readBody_of_ok (k := k.clearName.clearBody) h]
  rfl

theorem captureLambda_of_error (hn : isName k.name.toList)
    (h : (read.inner k.body.toList k.level).value = .error x) :
    captureLambda read c k =
      .error x
        { k.clearName.clearBody with log := k.log ++ (read.inner k.body.toList k.level).log } := by
  rw [captureLambda_of_isName hn]
  unfold EStateM.bind
  rw [readBody_of_error (k := k.clearName.clearBody) h]
  rfl

theorem captureLambda_of_not_isName (hn : ¬ isName k.name.toList) :
    captureLambda read c k =
      .error (.ofFault (.invalidBinder k.name.toList)) k.clearName.clearBody := by
  show (if isName k.name.toList then _ else throw _ : Action Unit) k.clearName.clearBody = _
  rw [if_neg hn]
  rfl

theorem exists_of_captureLambda_eq_ok (h : captureLambda read c k = .ok () k') :
    isName k.name.toList ∧ ∃ parts,
      (read.inner k.body.toList k.level).value = .ok parts ∧
      k' = Context.push (.lambda k.name.toList (.group parts))
        (.foundLambda (.lambda k.name.toList (.group parts)))
        { k.clearName.clearBody with
          log := k.log ++ (read.inner k.body.toList k.level).log } := by
  by_cases hn : isName k.name.toList
  · rcases hr : (read.inner k.body.toList k.level).value with x | parts
    · rw [captureLambda_of_error hn hr] at h
      cases h
    · rw [captureLambda_of_ok hn hr] at h
      cases h
      exact ⟨hn, parts, rfl, rfl⟩
  · rw [captureLambda_of_not_isName hn] at h
    cases h

theorem value_of_captureLambda_eq_error (hn : isName k.name.toList)
    (h : captureLambda read c k = .error x k') :
    (read.inner k.body.toList k.level).value = .error x := by
  rcases hr : (read.inner k.body.toList k.level).value with y | parts
  · rw [captureLambda_of_error hn hr] at h
    cases h
    rfl
  · rw [captureLambda_of_ok hn hr] at h
    cases h

end Callback

/-! ## What a run makes of pieces -/

/-- The term of a piece, for a run at a level. -/
def Piece.read (read : BodyReader) (level : UInt64) : Piece → Except (Failure ParseError) Term
  | name s => .ok (.var s)
  | group b => (read.inner b level).value.map Term.group
  | lambda w b => (read.inner b level).value.map fun parts => .lambda w (.group parts)

/-- The terms of the pieces, or the first error; the automaton's comes last. -/
def Cut.outcome (read : BodyReader) (level : UInt64) (x : Cut) : Outcome := do
  let terms ← x.pieces.mapM (Piece.read read level)
  match x.error with
  | none => return terms
  | some g => throw (.ofFault (.grammar g))

theorem Cut.outcome_prepend (read : BodyReader) (level : UInt64) (ps : List Piece) (x : Cut) :
    (x.prepend ps).outcome read level = do
      let terms ← ps.mapM (Piece.read read level)
      let rest ← x.outcome read level
      return terms ++ rest := by
  unfold outcome prepend
  cases x.error with
  | none => simp [List.mapM_append]
  | some g => simp [List.mapM_append]; rfl

theorem map_eq_ok_iff {f : List Term → Term} {x : Outcome} {t : Term} :
    x.map f = .ok t ↔ ∃ ts, x = .ok ts ∧ t = f ts := by
  cases x with
  | error y => exact ⟨fun h => (nomatch h), fun ⟨_, h, _⟩ => (nomatch h)⟩
  | ok us =>
    constructor
    · intro h
      exact ⟨us, rfl, (Except.ok.inj h).symm⟩
    · rintro ⟨_, hu, rfl⟩
      cases hu
      rfl

theorem Piece.exists_of_read_eq_error {read : BodyReader} {level : UInt64} {p : Piece}
    {x : Failure ParseError} (h : p.read read level = .error x) :
    ∃ b, p.body? = some b ∧ (read.inner b level).value = .error x := by
  cases p with
  | name s => cases h
  | group b | lambda w b =>
    refine ⟨b, rfl, ?_⟩
    rcases hr : (read.inner b level).value with y | parts
    · rw [Piece.read, hr] at h
      cases h
      rfl
    · rw [Piece.read, hr] at h
      cases h

theorem Piece.mapM_read_cons_eq_ok_iff {read : BodyReader} {level : UInt64} {p : Piece}
    {ps : List Piece} {ts : List Term} :
    (p :: ps).mapM (Piece.read read level) = .ok ts ↔
      ∃ t us, p.read read level = .ok t ∧ ps.mapM (Piece.read read level) = .ok us ∧
        ts = t :: us := by
  rw [mapM_eq_ok_iff, List.forall₂_cons_left_iff]
  simp only [mapM_eq_ok_iff]

theorem Piece.exists_of_mapM_read_append_eq_ok {read : BodyReader} {level : UInt64}
    {ps qs : List Piece} {ts : List Term} (h : (ps ++ qs).mapM (Piece.read read level) = .ok ts) :
    ∃ us vs, ps.mapM (Piece.read read level) = .ok us ∧
      qs.mapM (Piece.read read level) = .ok vs ∧ ts = us ++ vs :=
  mapM_append_eq_ok_iff.1 h

theorem Piece.exists_of_mapM_read_eq_error {read : BodyReader} {level : UInt64} {ps : List Piece}
    {x : Failure ParseError} (h : ps.mapM (Piece.read read level) = .error x) :
    ∃ p ∈ ps, p.read read level = .error x := by
  obtain ⟨before, p, after, rfl, -, hp⟩ := mapM_eq_error_iff.1 h
  exact ⟨p, by simp, hp⟩

theorem Cut.outcome_eq_ok_iff {read : BodyReader} {level : UInt64} {x : Cut} {ts : List Term} :
    x.outcome read level = .ok ts ↔
      x.error = none ∧ x.pieces.mapM (Piece.read read level) = .ok ts := by
  unfold outcome
  rcases x.pieces.mapM (Piece.read read level) with y | us
  · exact ⟨fun h => (nomatch h), fun h => nomatch h.2⟩
  · rcases x.error with _ | g
    · exact ⟨fun h => ⟨rfl, h⟩, fun h => h.2⟩
    · exact ⟨fun h => (nomatch h), fun h => nomatch h.1⟩

/-- An error comes from a piece or from the automaton. -/
theorem Cut.outcome_eq_error {read : BodyReader} {level : UInt64} {x : Cut} {y : Failure ParseError}
    (h : x.outcome read level = .error y) :
    (∃ p ∈ x.pieces, p.read read level = .error y) ∨
      ∃ g, x.error = some g ∧ y = .ofFault (.grammar g) := by
  unfold outcome at h
  rcases hp : x.pieces.mapM (Piece.read read level) with z | us
  · rw [hp] at h
    cases h
    exact .inl (Piece.exists_of_mapM_read_eq_error hp)
  · rw [hp] at h
    rcases hg : x.error with _ | g
    · rw [hg] at h
      exact nomatch h
    · rw [hg] at h
      cases h
      exact .inr ⟨g, rfl, rfl⟩

/-! ## A run follows the cut -/

/-- A context stands where the pending piece says. -/
structure Context.Holds (k : Context) (d : Pending) : Prop where
  state : k.state = d.state
  name : k.name.toList = d.name
  body : k.body.toList = d.body
  depth : k.nesting.depth.toInt = d.depth

/-- From a context, a result goes on with the buffers of a pending piece and with more terms, or
ends with an error. -/
def Context.Goes (k : Context) (d : Pending)
    (r : EStateM.Result (Failure ParseError) Context Unit) : Outcome → Prop
  | .ok ts => ∃ k', r = .ok () k' ∧ k'.state = k.state ∧ k'.nesting = k.nesting ∧
      k'.level = k.level ∧ k'.name.toList = d.name ∧ k'.body.toList = d.body ∧
      k'.terms.toList = k.terms.toList ++ ts
  | .error x => ∃ k', r = .error x k'

namespace Pending

variable {d e : Pending} {c : Char} {p : Option Piece} {n : Nesting}

theorem state_opening_of_none (h : opening c = none) : State.opening c = none := by
  unfold opening at h
  unfold State.opening
  split_ifs at h ⊢
  rfl

theorem state_opening_of_some (h : opening c = some e) : State.opening c = some e.state := by
  unfold State.opening
  rcases opening_eq_some h with ⟨rfl, rfl⟩ | ⟨rfl, rfl⟩ | ⟨hu, hl, rfl⟩
  · rfl
  · rfl
  · rw [if_neg hl, if_neg (ne_parenthesis (.inl hu)).1, if_pos hu]; rfl

/-- The automaton stops where the pending piece does. -/
theorem next?_of_none (h : d.next c = none) : d.state.next? c n = none := by
  cases d with
  | start | groupEnd | lambdaEnd => exact state_opening_of_none (by simpa [next] using h)
  | digits s =>
    rw [next] at h
    split_ifs at h with hd
    have ho := state_opening_of_none (by simpa using h)
    simp [state, State.next?, hd, ho]
  | lambdaBody w b | groupBody b =>
    rw [next] at h
    split_ifs at h
  | _ =>
    rw [next] at h
    split_ifs at h
    simp_all [state, State.next?]

theorem closing_of_goes_on {b : Text} {inside after : State} (hc : ¬ (c = ')' ∧ excess b = 0))
    (hn : n.depth.toInt = 1 + excess (b ++ [c])) : State.closing inside after c n = inside := by
  refine if_neg ?_
  rintro ⟨rfl, h0⟩
  rw [h0, excess_append, excess_closing] at hn
  have hz : (0 : Int32).toInt = 0 := rfl
  exact hc ⟨rfl, by omega⟩

theorem closing_of_closes {inside after : State} (hc : c = ')') (hn : n.depth.toInt = 0) :
    State.closing inside after c n = after :=
  if_pos ⟨hc, Int32.toInt_inj.1 hn⟩

/-- The automaton goes where the pending piece does, if the parentheses are counted right. -/
theorem Leads.next? (h : Leads c d p e) (hn : n.depth.toInt = e.depth) :
    d.state.next? c n = some e.state := by
  cases h with
  | first hd he => rcases hd with rfl | rfl | rfl <;> exact state_opening_of_some he
  | follows he =>
    simp [state, State.next?, not_isDigit_of_opening he, state_opening_of_some he]
  | letter hc | binderStart hc | binderLetter hc => simp [state, State.next?, hc]
  | firstDigit hc | binderFirstDigit hc =>
    simp [state, State.next?, hc, not_isUpper_of_isDigit hc]
  | digit hc | binderDigit hc => simp [state, State.next?, hc]
  | dot hc | lambdaOpens hc => rw [hc]; rfl
  | lambdaGoesOn hc | groupGoesOn hc => exact congrArg some (closing_of_goes_on hc hn)
  | lambdaCloses hc _ | groupCloses hc _ => exact congrArg some (closing_of_closes hc hn)

/-- The parentheses of a text can be counted, after those that are open before it. -/
def Fits (d : Pending) (s : Text) : Prop := ∀ p, p <+: s → d.depth + excess p < 2 ^ 31

variable {s : Text} {m : Nat}

theorem fits_of_length (h : d.depth + s.length < 2 ^ 31) : d.Fits s := by
  intro p hp
  have hlen := hp.length_le
  have hc := excess_le_length p
  omega

theorem fits_of_depth_eq_zero (hd : d.depth = 0) (hs : s.length < 2 ^ 31) : d.Fits s := by
  apply fits_of_length
  omega

theorem fits_of_shallow (hd : d.depth = 0) (hs : Shallow s m) (hm : m < 2 ^ 31) : d.Fits s := by
  intro p hp
  have hc := hs p hp
  omega

theorem Fits.depth_add_lt (h : d.Fits (c :: s)) : d.depth + excess [c] < 2 ^ 31 :=
  h [c] (List.prefix_append [c] s)

theorem Fits.of_leads (h : d.Fits (c :: s)) (hl : Leads c d p e) : e.Fits s := by
  intro q hq
  have hc := h (c :: q) (List.cons_prefix_cons.2 ⟨rfl, hq⟩)
  rw [excess_cons] at hc
  rw [hl.depth]
  omega

end Pending

namespace Machine

variable (limit : UInt64) (read : BodyReader) {k : Context} {d e : Pending} {c : Char}
  {p : Option Piece} {s : Text}

theorem applyWith_groupEnd (c : Option Char) :
    (standard limit).applyWith read ⟨.groupBody, .groupEnd⟩ c k =
      Callback.captureGroup read c k := by
  show ([Callback.captureGroup].forM fun callback => callback read c) k = _
  simp

theorem applyWith_lambdaEnd (c : Option Char) :
    (standard limit).applyWith read ⟨.lambdaBody, .lambdaEnd⟩ c k =
      Callback.captureLambda read c k := by
  show ([Callback.captureLambda].forM fun callback => callback read c) k = _
  simp

theorem goes_captureGroup {b : Text} (hk : k.name = #[]) (hb : k.body.toList = b)
    (c : Option Char) : k.Goes .groupEnd (Callback.captureGroup read c k)
      ([Piece.group b].mapM (Piece.read read k.level)) := by
  subst hb
  rcases hr : (read.inner k.body.toList k.level).value with x | parts
  · rw [List.mapM_cons, Piece.read, hr, Callback.captureGroup_of_error hr]
    exact ⟨_, rfl⟩
  · rw [List.mapM_cons, Piece.read, hr, Callback.captureGroup_of_ok hr]
    exact ⟨_, rfl, rfl, rfl, rfl, by simp [Context.push, Context.clearBody, hk, Pending.name],
      rfl, by simp [Context.push, Context.clearBody]⟩

theorem goes_captureLambda {w b : Text} (hw : isName w) (hk : k.name.toList = w)
    (hb : k.body.toList = b) (c : Option Char) :
    k.Goes .lambdaEnd (Callback.captureLambda read c k)
      ([Piece.lambda w b].mapM (Piece.read read k.level)) := by
  subst hk hb
  rcases hr : (read.inner k.body.toList k.level).value with x | parts
  · rw [List.mapM_cons, Piece.read, hr, Callback.captureLambda_of_error hw hr]
    exact ⟨_, rfl⟩
  · rw [List.mapM_cons, Piece.read, hr, Callback.captureLambda_of_ok hw hr]
    exact ⟨_, rfl, rfl, rfl, rfl, rfl, rfl,
      by simp [Context.push, Context.clearName, Context.clearBody]⟩

/-- The callbacks of a move do with the buffers what the pending pieces say. -/
theorem goes_applyWith (h : Pending.Leads c d p e) (hd : d.Valid) (hk : k.name.toList = d.name)
    (hb : k.body.toList = d.body) :
    k.Goes e ((standard limit).applyWith read ⟨d.state, e.state⟩ (some c) k)
      (p.toList.mapM (Piece.read read k.level)) := by
  cases h with
  | first hd he =>
    rcases Pending.opening_eq_some he with ⟨rfl, rfl⟩ | ⟨rfl, rfl⟩ | ⟨hu, hl, rfl⟩ <;>
      rcases hd with rfl | rfl | rfl <;>
      exact ⟨_, rfl, rfl, rfl, rfl, by simpa [Pending.name] using hk, hb, by simp⟩
  | follows he =>
    rcases Pending.opening_eq_some he with ⟨rfl, rfl⟩ | ⟨rfl, rfl⟩ | ⟨hu, hl, rfl⟩ <;>
      exact ⟨_, rfl, rfl, rfl, rfl, by simp [Pending.name, Context.push, Context.clearName], hb,
        by simp [Pending.name, Context.push, Context.clearName, hk]⟩
  | letter _ | firstDigit _ | digit _ | binderStart _ | binderLetter _ | binderFirstDigit _
  | binderDigit _ =>
    exact ⟨_, rfl, rfl, rfl, rfl, by simpa [Pending.name] using hk, hb, by simp⟩
  | dot _ | lambdaOpens _ => exact ⟨k, rfl, rfl, rfl, rfl, hk, hb, by simp⟩
  | lambdaGoesOn _ | groupGoesOn _ =>
    exact ⟨_, rfl, rfl, rfl, rfl, hk, by simpa [Pending.body] using hb, by simp⟩
  | lambdaCloses _ _ =>
    have hl := applyWith_lambdaEnd limit read (k := k) (some c)
    exact hl ▸ goes_captureLambda read hd.1 hk hb (some c)
  | groupCloses _ _ =>
    have hg := applyWith_groupEnd limit read (k := k) (some c)
    exact hg ▸ goes_captureGroup read (Array.toList_eq_nil_iff.1 hk) hb (some c)

/-- At the end of the text a name that is being read goes to the terms. -/
theorem goes_applyWith_done (h : d.state.acceptsEnd) (hk : k.name.toList = d.name)
    (hb : k.body.toList = d.body) :
    k.Goes .start ((standard limit).applyWith read ⟨d.state, .done⟩ none k)
      (d.last.toList.mapM (Piece.read read k.level)) := by
  cases d with
  | start | groupEnd | lambdaEnd => exact ⟨k, rfl, rfl, rfl, rfl, hk, hb, by simp⟩
  | letters w | digits w =>
    exact ⟨_, rfl, rfl, rfl, rfl, rfl, hb,
      by simp [Pending.name, Context.push, Context.clearName, hk]⟩
  | _ => exact nomatch h

/-- A character is counted unless too many parentheses are open. -/
theorem exists_count (hk : k.Holds d) (hd : 0 ≤ d.depth) (hfit : d.depth + excess [c] < 2 ^ 31) :
    ∃ n, k.nesting.count? c = some n ∧ n.depth.toInt = d.depth + excess [c] := by
  have hlo := neg_length_le_excess [c]
  rw [List.length_singleton] at hlo
  rw [← hk.depth] at hd hfit ⊢
  exact Nesting.exists_count (by omega) hfit

theorem exists_count_of_next_none (hk : k.Holds d) (hn : d.next c = none) :
    ∃ n, k.nesting.count? c = some n := by
  have hd := Pending.depth_eq_zero_of_next_none hn
  have hhi := excess_le_length [c]
  rw [List.length_singleton] at hhi
  obtain ⟨n, hc, -⟩ := exists_count (c := c) hk (by omega) (by omega)
  exact ⟨n, hc⟩

theorem feed_of_next_none (hk : k.Holds d) (hn : d.next c = none) :
    ∃ k', (standard limit).feed read c k =
      .error (.ofFault (.grammar (.unexpectedCharacter d.state c d.state.expected))) k' := by
  obtain ⟨n, hc⟩ := exists_count_of_next_none hk hn
  rw [feed_of_count _ read hc, hk.state, State.step, Pending.next?_of_none hn]
  exact ⟨_, rfl⟩

theorem exists_count_of_leads (hk : k.Holds d) (hd : d.Valid)
    (hfit : d.depth + excess [c] < 2 ^ 31) (h : Pending.Leads c d p e) :
    ∃ n, k.nesting.count? c = some n ∧ n.depth.toInt = e.depth := by
  rw [h.depth]
  exact exists_count hk (Pending.depth_nonneg hd) hfit

/-- A character that leads on feeds the machine with what it completes. -/
theorem feed_of_next_some (hk : k.Holds d) (hd : d.Valid) (hfit : d.depth + excess [c] < 2 ^ 31)
    (hn : d.next c = some (p, e)) : ∃ k₀ : Context,
      k₀.state = e.state ∧ k₀.nesting.depth.toInt = e.depth ∧ k₀.level = k.level ∧
      k₀.terms = k.terms ∧
      k₀.Goes e ((standard limit).feed read c k) (p.toList.mapM (Piece.read read k₀.level)) := by
  have hl := Pending.leads_of_next hn
  obtain ⟨n, hc, hdepth⟩ := exists_count_of_leads hk hd hfit hl
  have hs : d.state.step c n = .ok ⟨d.state, e.state⟩ :=
    State.step_eq_ok_iff.2 ⟨rfl, hl.next? hdepth⟩
  rw [feed_of_count _ read hc, hk.state, hs, follow_ok]
  refine ⟨{ k with
    nesting := n
    state := e.state
    log := k.log.note (.ofMove ⟨d.state, e.state⟩ (some c)) }, rfl, hdepth, rfl, rfl, ?_⟩
  exact goes_applyWith limit read hl hd hk.name hk.body

/-- If what the character completes can be read, the machine goes on. -/
theorem feed_of_ok {ts : List Term} (hk : k.Holds d) (hd : d.Valid)
    (hfit : d.depth + excess [c] < 2 ^ 31) (hn : d.next c = some (p, e))
    (h : p.toList.mapM (Piece.read read k.level) = .ok ts) : ∃ k',
      (standard limit).feed read c k = .ok () k' ∧ k'.Holds e ∧ k'.level = k.level ∧
      k'.terms.toList = k.terms.toList ++ ts := by
  obtain ⟨k₀, hs, hc, hlev, ht, hg⟩ := feed_of_next_some limit read hk hd hfit hn
  rw [hlev, h] at hg
  obtain ⟨k', hr, hs', hc', hlev', hname, hbody, hts⟩ := hg
  refine ⟨k', hr, ⟨hs'.trans hs, hname, hbody, ?_⟩, hlev'.trans hlev, by rw [hts, ht]⟩
  rw [hc', hc]

theorem feed_of_error {x : Failure ParseError} (hk : k.Holds d) (hd : d.Valid)
    (hfit : d.depth + excess [c] < 2 ^ 31) (hn : d.next c = some (p, e))
    (h : p.toList.mapM (Piece.read read k.level) = .error x) :
    ∃ k', (standard limit).feed read c k = .error x k' := by
  obtain ⟨k₀, -, -, hlev, -, hg⟩ := feed_of_next_some limit read hk hd hfit hn
  rw [hlev, h] at hg
  exact hg

/-- A character that the machine takes leads on, and what it completes can be read. -/
theorem exists_of_feed_eq_ok {k' : Context} (hk : k.Holds d) (hd : d.Valid)
    (hfit : d.depth + excess [c] < 2 ^ 31) (h : (standard limit).feed read c k = .ok () k') :
    ∃ p e ts, d.next c = some (p, e) ∧ p.toList.mapM (Piece.read read k.level) = .ok ts ∧
      k'.Holds e ∧ k'.level = k.level ∧ k'.terms.toList = k.terms.toList ++ ts := by
  rcases hn : d.next c with _ | ⟨p, e⟩
  · obtain ⟨k₁, hr⟩ := feed_of_next_none limit read hk hn
    rw [hr] at h
    cases h
  rcases hp : p.toList.mapM (Piece.read read k.level) with x | ts
  · obtain ⟨k₁, hr⟩ := feed_of_error limit read hk hd hfit hn hp
    rw [hr] at h
    cases h
  · obtain ⟨k₁, hr, hk₁⟩ := feed_of_ok limit read hk hd hfit hn hp
    rw [hr] at h
    cases h
    exact ⟨p, e, ts, rfl, hp, hk₁⟩

theorem finish_of_accepts (hk : k.Holds d) (h : d.state.acceptsEnd) : ∃ k₀ : Context,
      k₀.state = .done ∧ k₀.nesting = k.nesting ∧ k₀.level = k.level ∧ k₀.terms = k.terms ∧
      k₀.Goes .start ((standard limit).finish read k)
        (d.last.toList.mapM (Piece.read read k₀.level)) := by
  rw [finish_apply, hk.state, State.finish_eq_ok_iff.2 ⟨h, rfl⟩, follow_ok]
  refine ⟨{ k with
    state := .done
    log := k.log.note (.ofMove ⟨d.state, .done⟩ none) }, rfl, rfl, rfl, rfl, ?_⟩
  exact goes_applyWith_done limit read h hk.name hk.body

theorem finish_of_not_accepts (hk : k.Holds d) (h : ¬ d.state.acceptsEnd) :
    ∃ k', (standard limit).finish read k =
      .error (.ofFault (.grammar (.unexpectedEnd d.state))) k' := by
  rw [finish_apply, hk.state, State.finish, if_neg h]
  exact ⟨_, rfl⟩

end Machine

/-! ## The outcome of a run -/

/-- The terms of a result, or its error. -/
def Context.outcome : EStateM.Result (Failure ParseError) Context Unit → Outcome
  | .ok _ k => .ok k.terms.toList
  | .error x _ => .error x

theorem Context.exists_of_outcome_eq_ok {r : EStateM.Result (Failure ParseError) Context Unit}
    {ts : List Term} (h : Context.outcome r = .ok ts) :
    ∃ k, r = .ok () k ∧ k.terms.toList = ts := by
  cases r with
  | ok _ k => exact ⟨k, rfl, Except.ok.inj h⟩
  | error x k => cases h

namespace Machine

variable (limit : UInt64) (read : BodyReader) {k : Context} {d e : Pending} {c : Char}
  {p : Option Piece} {s : Text}

theorem outcome_finish (hk : k.Holds d) :
    Context.outcome ((standard limit).finish read k) = do
      let ts ← (d.cut []).outcome read k.level
      return k.terms.toList ++ ts := by
  by_cases h : d.state.acceptsEnd
  · obtain ⟨k₀, -, -, hlev, ht, hg⟩ := finish_of_accepts limit read hk h
    rw [Pending.cut_nil_of_accepts h, Cut.outcome, ← hlev, ← ht]
    rcases hp : d.last.toList.mapM (Piece.read read k₀.level) with x | ts
    · rw [hp] at hg
      obtain ⟨k', hr⟩ := hg
      rw [hr]
      rfl
    · rw [hp] at hg
      obtain ⟨k', hr, -, -, -, -, -, hts⟩ := hg
      rw [hr, Context.outcome, hts]
      rfl
  · obtain ⟨k', hr⟩ := finish_of_not_accepts limit read hk h
    rw [Pending.cut_nil_of_not_accepts h, hr]
    rfl

/-- The rest of a text, fed to the machine and ended, comes to the outcome of its cut. -/
theorem outcome_feed (hk : k.Holds d) (hd : d.Valid) (hfit : d.Fits s) :
    Context.outcome (EStateM.bind (s.forM ((standard limit).feed read))
        (fun _ => (standard limit).finish read) k) = do
      let ts ← (d.cut s).outcome read k.level
      return k.terms.toList ++ ts := by
  induction s generalizing d k with
  | nil => exact outcome_finish limit read hk
  | cons c s ih =>
    rcases hn : d.next c with _ | ⟨p, e⟩
    · obtain ⟨k', hr⟩ := feed_of_next_none limit read hk hn
      rw [Pending.cut_cons_of_none hn, bind_forM_cons_of_error hr]
      rfl
    · have hl := Pending.leads_of_next hn
      rw [Pending.cut_cons_of_some hn, Cut.outcome_prepend]
      rcases hp : p.toList.mapM (Piece.read read k.level) with x | ts
      · obtain ⟨k', hr⟩ := feed_of_error limit read hk hd hfit.depth_add_lt hn hp
        rw [bind_forM_cons_of_error hr]
        rfl
      · obtain ⟨k', hr, hk', hlev, hts⟩ := feed_of_ok limit read hk hd hfit.depth_add_lt hn hp
        rw [bind_forM_cons_of_ok hr, ih hk' (hl.valid hd) (hfit.of_leads hl), hlev, hts]
        cases (e.cut s).outcome read k.level with
        | error x => rfl
        | ok us => exact congrArg Except.ok (List.append_assoc ..)

/-- The first part of a text that the machine takes completes pieces, all of them read. -/
theorem reads_of_forM {k' : Context} (hk : k.Holds d) (hd : d.Valid) (hfit : d.Fits s)
    (h : s.forM ((standard limit).feed read) k = .ok () k') : ∃ ps e ts,
      Pending.Reads d s ps e ∧ ps.mapM (Piece.read read k.level) = .ok ts ∧ k'.Holds e ∧
      k'.level = k.level ∧ k'.terms.toList = k.terms.toList ++ ts := by
  induction s generalizing d k with
  | nil =>
    cases h
    exact ⟨[], d, [], .nil d, rfl, hk, rfl, (List.append_nil _).symm⟩
  | cons c s ih =>
    obtain ⟨_, k₁, hc, hs⟩ := exists_of_bind_eq_ok h
    obtain ⟨p, e, ts, hn, hp, hk₁, hlev, hts⟩ :=
      exists_of_feed_eq_ok limit read hk hd hfit.depth_add_lt hc
    have hl := Pending.leads_of_next hn
    obtain ⟨ps, f, us, hread, hps, hk', hlev', hus⟩ :=
      ih hk₁ (hl.valid hd) (hfit.of_leads hl) hs
    refine ⟨p.toList ++ ps, f, ts ++ us, .cons hn hread, ?_, hk', hlev'.trans hlev, ?_⟩
    · rw [hlev] at hps
      rw [List.mapM_append, hp, hps]
      rfl
    · rw [hus, hts, List.append_assoc]

/-- A text whose first part can be read is taken up to there. -/
theorem forM_of_reads {ps : List Piece} {ts : List Term} (h : Pending.Reads d s ps e)
    (hk : k.Holds d) (hd : d.Valid) (hfit : d.Fits s)
    (hps : ps.mapM (Piece.read read k.level) = .ok ts) : ∃ k',
      s.forM ((standard limit).feed read) k = .ok () k' ∧ k'.Holds e ∧ k'.level = k.level ∧
      k'.terms.toList = k.terms.toList ++ ts := by
  induction h generalizing k ts with
  | nil =>
    cases hps
    exact ⟨k, rfl, hk, rfl, (List.append_nil _).symm⟩
  | cons hc _ ih =>
    have hl := Pending.leads_of_next hc
    obtain ⟨us, vs, hus, hvs, rfl⟩ := Piece.exists_of_mapM_read_append_eq_ok hps
    obtain ⟨k₁, hr, hk₁, hlev, hts⟩ := feed_of_ok limit read hk hd hfit.depth_add_lt hc hus
    rw [← hlev] at hvs
    obtain ⟨k', hs, hk', hlev', hts'⟩ := ih hk₁ (hl.valid hd) (hfit.of_leads hl) hvs
    refine ⟨k', (bind_of_ok hr).trans hs, hk', hlev'.trans hlev, ?_⟩
    rw [hts', hts, List.append_assoc]

theorem holds_start (level : UInt64) : ({ level := level } : Context).Holds .start :=
  ⟨rfl, rfl, rfl, rfl⟩

theorem run_eq_outcome_scan (m : Machine) (s : Text) (level : UInt64) :
    (m.run read s level).value = Context.outcome (m.scan read s { level := level }) := by
  unfold run
  cases m.scan read s { level := level } <;> rfl

/-- **What a run makes of a text** is what it makes of the pieces of the text, as long as the
parentheses can be counted. -/
theorem run_value_of_fits {s : Text} (hs : Pending.start.Fits s.raised) (level : UInt64) :
    ((standard limit).run read s level).value =
      (Pending.start.cut s.raised).outcome read level := by
  have hfeed := outcome_feed limit read (s := s.raised) (holds_start level) trivial hs
  rw [run_eq_outcome_scan]
  refine hfeed.trans ?_
  cases (Pending.start.cut s.raised).outcome read level <;> rfl

theorem run_value {s : Text} (hs : s.length < 2 ^ 31) (level : UInt64) :
    ((standard limit).run read s level).value =
      (Pending.start.cut s.raised).outcome read level :=
  run_value_of_fits limit read (Pending.fits_of_depth_eq_zero rfl (by rwa [length_raised])) level

end Machine

end LambdaNotation
