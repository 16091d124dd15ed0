import LambdaNotation.Proofs.Piece

/-!
# Cutting a text into pieces

`Pending.cut` gives the pieces of a text, up to the first error of the automaton. Cutting and
writing the pieces one after the other are inverse to each other (`cut_eq_iff`), so a text is the
row of at most one list of pieces. A parenthesis without its partner is an error only of a text
that is not balanced itself (`not_unmatched_of_balanced`).
-/

namespace LambdaNotation

open Text

/-- The pieces of a text, up to the error of the automaton if there is one. -/
structure Cut where
  pieces : List Piece
  error : Option GrammarError

def Cut.prepend (ps : List Piece) (x : Cut) : Cut := { x with pieces := ps ++ x.pieces }

@[simp] theorem Cut.prepend_nil (x : Cut) : x.prepend [] = x := rfl

@[simp] theorem Cut.prepend_prepend (ps qs : List Piece) (x : Cut) :
    (x.prepend qs).prepend ps = x.prepend (ps ++ qs) := by
  unfold prepend
  rw [List.append_assoc]

namespace Pending

/-- Cuts the rest of a text into pieces. -/
def cut (d : Pending) : Text → Cut
  | [] =>
    if d.state.acceptsEnd then ⟨d.last.toList, none⟩ else ⟨[], some (.unexpectedEnd d.state)⟩
  | c :: s =>
    match d.next c with
    | none => ⟨[], some (.unexpectedCharacter d.state c d.state.expected)⟩
    | some (p, e) => (cut e s).prepend p.toList

variable {d e : Pending} {c : Char} {p : Option Piece} {s t : Text}

theorem cut_nil_of_accepts (h : d.state.acceptsEnd) : d.cut [] = ⟨d.last.toList, none⟩ := if_pos h

theorem cut_nil_of_not_accepts (h : ¬ d.state.acceptsEnd) :
    d.cut [] = ⟨[], some (.unexpectedEnd d.state)⟩ := if_neg h

theorem cut_cons_of_none (h : d.next c = none) :
    d.cut (c :: s) = ⟨[], some (.unexpectedCharacter d.state c d.state.expected)⟩ := by
  rw [cut, h]

theorem cut_cons_of_some (h : d.next c = some (p, e)) :
    d.cut (c :: s) = (e.cut s).prepend p.toList := by
  rw [cut, h]

theorem last_row (hd : d.Valid) : Piece.Row d.last.toList := by
  cases d with
  | letters symbol => exact .stem hd
  | digits symbol => exact .cons hd .nil
  | _ => exact .nil

theorem depth_eq_zero_of_accepts (h : d.state.acceptsEnd) : d.depth = 0 := by
  cases d with
  | lambdaBody w b | groupBody b => cases h
  | _ => rfl

theorem textAll_last (h : d.state.acceptsEnd) : Piece.textAll d.last.toList = d.text := by
  cases d with
  | start | groupEnd | lambdaEnd => rfl
  | letters symbol | digits symbol => exact List.append_nil symbol
  | _ => exact nomatch h

theorem cut_row (hd : d.Valid) : Piece.Row (d.cut s).pieces := by
  induction s generalizing d with
  | nil =>
    by_cases h : d.state.acceptsEnd
    · rw [cut_nil_of_accepts h]
      exact last_row hd
    · rw [cut_nil_of_not_accepts h]
      exact .nil
  | cons c s ih =>
    rcases hn : d.next c with _ | ⟨p, e⟩
    · rw [cut_cons_of_none hn]
      exact .nil
    · have hl := leads_of_next hn
      have he := ih (hl.valid hd)
      rw [cut_cons_of_some hn]
      cases p with
      | none => exact he
      | some q => exact .cons (hl.piece_valid hd q rfl) he

/-- The pieces are the text up to the error; without an error they are the whole text. -/
theorem cut_text (d : Pending) (s : Text) :
    ∃ rest, d.text ++ s = Piece.textAll (d.cut s).pieces ++ rest ∧
      ((d.cut s).error = none → rest = []) := by
  induction s generalizing d with
  | nil =>
    by_cases h : d.state.acceptsEnd
    · rw [cut_nil_of_accepts h]
      exact ⟨[], by rw [textAll_last h], fun _ => rfl⟩
    · rw [cut_nil_of_not_accepts h]
      exact ⟨d.text ++ [], rfl, fun he => nomatch he⟩
  | cons c s ih =>
    rcases hn : d.next c with _ | ⟨p, e⟩
    · rw [cut_cons_of_none hn]
      exact ⟨d.text ++ c :: s, rfl, fun he => nomatch he⟩
    · obtain ⟨rest, hr, he⟩ := ih e
      rw [cut_cons_of_some hn]
      refine ⟨rest, ?_, he⟩
      calc d.text ++ c :: s = d.text ++ [c] ++ s := by simp
        _ = Piece.textAll p.toList ++ (e.text ++ s) := by
          rw [(leads_of_next hn).text, List.append_assoc]
        _ = Piece.textAll (p.toList ++ (e.cut s).pieces) ++ rest := by
          rw [hr, Piece.textAll_append, List.append_assoc]

/-- A text without an error is the row of its pieces. -/
theorem row_of_no_error (h : (start.cut s).error = none) :
    Piece.Row (start.cut s).pieces ∧ Piece.textAll (start.cut s).pieces = s := by
  obtain ⟨rest, hr, he⟩ := cut_text start s
  rw [he h, List.append_nil] at hr
  exact ⟨cut_row trivial, hr.symm⟩

/-! ## The first part of a text -/

/-- A text completes pieces and leaves a piece pending, after what was pending before it. -/
inductive Reads : Pending → Text → List Piece → Pending → Prop where
  | nil (d : Pending) : Reads d [] [] d
  | cons {d e f : Pending} {c : Char} {p : Option Piece} {s : Text} {ps : List Piece}
      (hc : d.next c = some (p, e)) (hs : Reads e s ps f) : Reads d (c :: s) (p.toList ++ ps) f

theorem Reads.valid {ps : List Piece} (h : Reads d s ps e) (hd : d.Valid) : e.Valid := by
  induction h with
  | nil => exact hd
  | cons hc _ ih => exact ih ((leads_of_next hc).valid hd)

/-- The rest of the text is cut from there. -/
theorem Reads.cut_append {ps : List Piece} (h : Reads d s ps e) (r : Text) :
    d.cut (s ++ r) = (e.cut r).prepend ps := by
  induction h with
  | nil => rfl
  | cons hc _ ih => rw [List.cons_append, cut_cons_of_some hc, ih, Cut.prepend_prepend]

theorem Reads.text {ps : List Piece} (h : Reads d s ps e) :
    d.text ++ s = Piece.textAll ps ++ e.text := by
  induction h with
  | nil d => exact List.append_nil d.text
  | @cons d e f c p s ps hc _ ih =>
    rw [List.append_cons, (leads_of_next hc).text, List.append_assoc, ih, Piece.textAll_append,
      List.append_assoc]

/-- A character that is refused comes after a first part of the text that can be read. -/
theorem exists_reads_of_refused {state : State} {expected : Text}
    (h : (d.cut s).error = some (.unexpectedCharacter state c expected)) : ∃ p q e,
      s = p ++ c :: q ∧ Reads d p (d.cut s).pieces e ∧ e.next c = none ∧ state = e.state ∧
      expected = e.state.expected := by
  induction s generalizing d with
  | nil =>
    by_cases ha : d.state.acceptsEnd
    · rw [cut_nil_of_accepts ha] at h
      cases h
    · rw [cut_nil_of_not_accepts ha] at h
      cases h
  | cons x s ih =>
    rcases hn : d.next x with _ | ⟨p, e⟩
    · rw [cut_cons_of_none hn] at h ⊢
      cases h
      exact ⟨[], s, d, rfl, .nil d, hn, rfl, rfl⟩
    · rw [cut_cons_of_some hn] at h ⊢
      obtain ⟨p', q, f, rfl, hr, hf, hs, hx⟩ := ih h
      exact ⟨x :: p', q, f, rfl, .cons hn hr, hf, hs, hx⟩

/-- A text that is cut to its end can be read to its end, where the last piece is complete. -/
theorem exists_reads_of_no_error (h : (d.cut s).error = none) : ∃ ps e,
    Reads d s ps e ∧ e.state.acceptsEnd ∧ (d.cut s).pieces = ps ++ e.last.toList := by
  induction s generalizing d with
  | nil =>
    by_cases ha : d.state.acceptsEnd
    · rw [cut_nil_of_accepts ha]
      exact ⟨[], d, .nil d, ha, rfl⟩
    · rw [cut_nil_of_not_accepts ha] at h
      cases h
  | cons x s ih =>
    rcases hn : d.next x with _ | ⟨p, e⟩
    · rw [cut_cons_of_none hn] at h
      cases h
    · rw [cut_cons_of_some hn] at h ⊢
      obtain ⟨ps, f, hr, ha, hps⟩ := ih h
      refine ⟨p.toList ++ ps, f, .cons hn hr, ha, ?_⟩
      rw [List.append_assoc, ← hps]
      rfl

/-- What a text leaves pending was entered with its last character. -/
theorem Reads.exists_leads {ps : List Piece} (h : Reads d s ps e) :
    (s = [] ∧ e = d) ∨ ∃ t c f p, s = t ++ [c] ∧ Leads c f p e := by
  induction h with
  | nil => exact .inl ⟨rfl, rfl⟩
  | @cons d e f c p s ps hc _ ih =>
    rcases ih with ⟨rfl, rfl⟩ | ⟨t, x, g, q, rfl, hl⟩
    · exact .inr ⟨[], c, d, p, rfl, leads_of_next hc⟩
    · exact .inr ⟨c :: t, x, g, q, rfl, hl⟩

/-! ## Cutting pieces that stand in a row -/

/-- A piece may begin here; one may have to be completed first. -/
def Ready : Pending → Prop
  | start | groupEnd | lambdaEnd | digits _ => True
  | _ => False

theorem cut_opening (hd : d.Ready) (h : opening c = some e) :
    d.cut (c :: s) = (e.cut s).prepend d.last.toList := by
  apply cut_cons_of_some
  cases d with
  | start | groupEnd | lambdaEnd => simp [next, h, last]
  | digits symbol => simp [next, h, last, not_isDigit_of_opening h]
  | _ => exact hd.elim

/-- Characters that only add to what is pending. -/
theorem cut_append_of_stays (f : Text → Pending)
    (h : ∀ u c, u ++ [c] <+: t → (f (s ++ u)).next c = some (none, f (s ++ (u ++ [c]))))
    (r : Text) : (f s).cut (t ++ r) = (f (s ++ t)).cut r := by
  induction t generalizing s with
  | nil => rw [List.append_nil]; rfl
  | cons c t ih =>
    have hc := h [] c (by simp)
    rw [List.append_nil] at hc
    have ht := ih (s := s ++ [c]) fun u x hu => by
      simpa using h (c :: u) x (List.cons_prefix_cons.2 ⟨rfl, hu⟩)
    rw [List.cons_append, cut_cons_of_some hc]
    simpa using ht

theorem cut_stem (hd : d.Ready) (hs : IsStem s) (r : Text) :
    d.cut (s ++ r) = ((letters s).cut r).prepend d.last.toList := by
  obtain ⟨hne, hl, hu⟩ := hs
  obtain ⟨c, s, rfl⟩ := List.exists_cons_of_ne_nil hne
  rw [List.cons_append, cut_opening hd (opening_letter (hu c (by simp)) (by simpa using hl))]
  rw [cut_append_of_stays letters fun u x hx => ?_]
  · rfl
  · have hx := hu x (List.mem_cons_of_mem c (hx.subset (by simp)))
    simp [next, hx]

theorem cut_digits {w ds : Text} (hs : isDigitRun ds) (r : Text) :
    (letters w).cut (ds ++ r) = (digits (w ++ ds)).cut r := by
  obtain ⟨hne, hd⟩ := isDigitRun_iff.1 hs
  obtain ⟨c, ds, rfl⟩ := List.exists_cons_of_ne_nil hne
  have hc := hd c (by simp)
  have hn : (letters w).next c = some (none, digits (w ++ [c])) := by
    simp [next, hc, not_isUpper_of_isDigit hc]
  rw [List.cons_append, cut_cons_of_some hn, cut_append_of_stays digits fun u x hx => ?_]
  · simp
  · have hx := hd x (List.mem_cons_of_mem c (hx.subset (by simp)))
    simp [next, hx]

theorem cut_variable (hd : d.Ready) (hs : IsVariable s) (r : Text) :
    d.cut (s ++ r) = ((digits s).cut r).prepend d.last.toList := by
  obtain ⟨stem, ds, rfl, hs, hds⟩ := hs
  rw [List.append_assoc, cut_stem hd hs, cut_digits hds]

theorem cut_binder (hs : isName s) (r : Text) : lambda.cut (s ++ r) = (binderDigits s).cut r := by
  obtain ⟨ls, ds, rfl, hne, hl, hds⟩ := isName_iff.1 hs
  obtain ⟨hne', hd⟩ := isDigitRun_iff.1 hds
  obtain ⟨c, ls, rfl⟩ := List.exists_cons_of_ne_nil hne
  obtain ⟨x, ds, rfl⟩ := List.exists_cons_of_ne_nil hne'
  have hx := hd x (by simp)
  have h₁ : lambda.next c = some (none, binderLetters [c]) := by simp [next, hl c (by simp)]
  have h₂ : (binderLetters (c :: ls)).next x = some (none, binderDigits (c :: ls ++ [x])) := by
    simp [next, hx, not_isUpper_of_isDigit hx]
  have h₃ := cut_append_of_stays (s := [c]) (t := ls) binderLetters
    (fun u y hy => by simp [next, hl y (List.mem_cons_of_mem c (hy.subset (by simp)))])
    (x :: (ds ++ r))
  have h₄ := cut_append_of_stays (s := c :: ls ++ [x]) (t := ds) binderDigits
    (fun u y hy => by simp [next, hd y (List.mem_cons_of_mem x (hy.subset (by simp)))]) r
  calc lambda.cut (c :: ls ++ x :: ds ++ r) = (binderLetters [c]).cut (ls ++ x :: (ds ++ r)) := by
        rw [List.append_assoc, List.cons_append, List.cons_append, cut_cons_of_some h₁]; rfl
    _ = (binderDigits (c :: ls ++ [x])).cut (ds ++ r) := by
        rw [h₃, List.singleton_append, cut_cons_of_some h₂]; rfl
    _ = (binderDigits (c :: ls ++ x :: ds)).cut r := by rw [h₄]; simp

/-- A balanced text passes through a body as a whole, and the parenthesis after it closes the
body. -/
theorem cut_body {f : Text → Pending} {q : Piece}
    (hgo : ∀ b c, ¬ (c = ')' ∧ excess b = 0) → (f b).next c = some (none, f (b ++ [c])))
    (hclose : (f s).next ')' = some (some q, e)) (hs : Balanced s) (r : Text) :
    (f []).cut (s ++ ')' :: r) = (e.cut r).prepend [q] := by
  rw [cut_append_of_stays f fun u x hx => ?_]
  · exact cut_cons_of_some hclose
  · refine hgo u x ?_
    rintro ⟨rfl, h0⟩
    have hn := (hs.1.mono hx).excess_nonneg
    rw [excess_append, h0, excess_closing] at hn
    omega

theorem cut_group (hd : d.Ready) (hs : Balanced s) (r : Text) :
    d.cut ((Piece.group s).text ++ r) =
      (groupEnd.cut r).prepend (d.last.toList ++ [.group s]) := by
  have hb := cut_body (f := groupBody) (s := s) (fun b c hc => if_neg hc) (if_pos ⟨rfl, hs.2⟩) hs r
  have ho : opening '(' = some (groupBody []) := rfl
  calc d.cut ((Piece.group s).text ++ r) = d.cut ('(' :: (s ++ ')' :: r)) := by simp [Piece.text]
    _ = _ := by rw [cut_opening hd ho, hb, Cut.prepend_prepend]

theorem cut_lambda {w : Text} (hd : d.Ready) (hw : isName w) (hs : Balanced s) (r : Text) :
    d.cut ((Piece.lambda w s).text ++ r) =
      (lambdaEnd.cut r).prepend (d.last.toList ++ [.lambda w s]) := by
  have hb := cut_body (f := lambdaBody w) (s := s) (fun b c hc => if_neg hc) (if_pos ⟨rfl, hs.2⟩)
    hs r
  have ho : opening 'L' = some lambda := rfl
  have hdot : (binderDigits w).next '.' = some (none, binderDot w) := rfl
  have hpar : (binderDot w).next '(' = some (none, lambdaBody w []) := rfl
  calc d.cut ((Piece.lambda w s).text ++ r) =
      d.cut ('L' :: (w ++ '.' :: '(' :: (s ++ ')' :: r))) := by simp [Piece.text]
    _ = ((binderDigits w).cut ('.' :: '(' :: (s ++ ')' :: r))).prepend d.last.toList := by
        rw [cut_opening hd ho, cut_binder hw]
    _ = _ := by
        rw [cut_cons_of_some hdot, cut_cons_of_some hpar, hb]
        simp

/-- One piece is cut off the front of a text, and after it the next may begin. -/
theorem cut_piece {q : Piece} (hd : d.Ready) (hq : q.Valid) : ∃ (e : Pending) (ps : List Piece),
    e.Ready ∧ ps ++ e.last.toList = [q] ∧
      ∀ r, d.cut (q.text ++ r) = (e.cut r).prepend (d.last.toList ++ ps) := by
  cases q with
  | name s =>
    refine ⟨digits s, [], trivial, rfl, fun r => ?_⟩
    rw [List.append_nil]
    exact cut_variable hd hq r
  | group s => exact ⟨groupEnd, [.group s], trivial, rfl, cut_group hd hq⟩
  | lambda w s => exact ⟨lambdaEnd, [.lambda w s], trivial, rfl, cut_lambda hd hq.1 hq.2⟩

theorem cut_textAll {ps : List Piece} (h : Piece.Row ps) (hd : d.Ready) :
    d.cut (Piece.textAll ps) = ⟨d.last.toList ++ ps, none⟩ := by
  induction h generalizing d with
  | nil =>
    rw [List.append_nil]
    apply cut_nil_of_accepts
    cases d with
    | start | groupEnd | lambdaEnd | digits _ => rfl
    | _ => exact hd.elim
  | @stem s hs =>
    have ht : Piece.textAll [.name s] = s ++ [] := rfl
    rw [ht, cut_stem hd hs]
    rfl
  | @cons q ps hq _ ih =>
    obtain ⟨e, qs, he, hqs, hcut⟩ := cut_piece hd hq
    rw [Piece.textAll_cons, hcut, ih he, ← List.singleton_append, ← hqs]
    simp [Cut.prepend]

/-- Cutting and writing in a row are inverse to each other. -/
theorem cut_eq_iff {ps : List Piece} :
    start.cut s = ⟨ps, none⟩ ↔ Piece.Row ps ∧ Piece.textAll ps = s := by
  constructor
  · intro h
    have hrow := row_of_no_error (s := s) (by rw [h])
    rwa [h] at hrow
  · rintro ⟨hp, rfl⟩
    exact cut_textAll hp trivial

end Pending

/-- A text is the row of at most one list of pieces. -/
theorem Piece.Row.eq_of_textAll_eq {ps qs : List Piece} (hp : Row ps) (hq : Row qs)
    (h : textAll ps = textAll qs) : ps = qs := by
  have hc := Pending.cut_eq_iff.2 ⟨hp, h⟩
  rw [Pending.cut_eq_iff.2 ⟨hq, rfl⟩] at hc
  exact (congrArg Cut.pieces hc).symm

/-! ## Parentheses without a partner -/

/-- The error of a parenthesis that has no partner. -/
def GrammarError.Unmatched : GrammarError → Prop
  | .unexpectedCharacter _ found _ => found = ')'
  | .unexpectedEnd state => state = .groupBody ∨ state = .lambdaBody

namespace Pending

variable {d e : Pending} {c : Char} {p : Option Piece} {s t : Text}

/-- A text closes what is open before it, and nothing more. -/
def ClosedBy (d : Pending) (s : Text) : Prop :=
  (∀ p, p <+: s → 0 ≤ d.depth + excess p) ∧ d.depth + excess s = 0

theorem ClosedBy.of_leads (h : d.ClosedBy (c :: s)) (hl : Leads c d p e) : e.ClosedBy s := by
  obtain ⟨hp, h0⟩ := h
  rw [excess_cons] at h0
  refine ⟨fun q hq => ?_, by rw [hl.depth]; omega⟩
  have hc := hp (c :: q) (List.cons_prefix_cons.2 ⟨rfl, hq⟩)
  rw [excess_cons] at hc
  rw [hl.depth]
  omega

theorem depth_eq_zero_of_next_none (h : d.next c = none) : d.depth = 0 := by
  cases d with
  | lambdaBody w b | groupBody b =>
    rw [next] at h
    split_ifs at h
  | _ => rfl

theorem unexpectedEnd_not_unmatched (hd : d.Valid) (h : d.depth = 0) :
    ¬ (GrammarError.unexpectedEnd d.state).Unmatched := by
  cases d with
  | lambdaBody w b =>
    have hb := hd.2.excess_nonneg
    have h1 : 1 + excess b = 0 := h
    omega
  | groupBody b =>
    have hb := Opened.excess_nonneg hd
    have h1 : 1 + excess b = 0 := h
    omega
  | _ => simp [GrammarError.Unmatched, state]

/-- In a text that closes what is open, every parenthesis has its partner. -/
theorem not_unmatched_of_closedBy (hd : d.Valid) (h : d.ClosedBy s) {g : GrammarError}
    (hg : (d.cut s).error = some g) : ¬ g.Unmatched := by
  induction s generalizing d with
  | nil =>
    by_cases ha : d.state.acceptsEnd
    · rw [cut_nil_of_accepts ha] at hg
      exact nomatch hg
    · rw [cut_nil_of_not_accepts ha] at hg
      cases hg
      exact unexpectedEnd_not_unmatched hd (by simpa using h.2)
  | cons c s ih =>
    rcases hn : d.next c with _ | ⟨p, e⟩
    · rw [cut_cons_of_none hn] at hg
      cases hg
      rintro rfl
      have hc := h.1 [')'] (by simp)
      rw [depth_eq_zero_of_next_none hn, excess_closing] at hc
      omega
    · have hl := leads_of_next hn
      rw [cut_cons_of_some hn] at hg
      exact ih (hl.valid hd) (h.of_leads hl) hg

/-- A balanced text has no parenthesis without its partner. -/
theorem not_unmatched_of_balanced (h : Balanced s) {g : GrammarError}
    (hg : (start.cut s).error = some g) : ¬ g.Unmatched := by
  refine not_unmatched_of_closedBy (d := start) trivial ⟨fun p hp => ?_, ?_⟩ hg
  · have h0 := h.1 p hp
    exact (Int.zero_add _).symm ▸ h0
  · exact (Int.zero_add _).trans h.2

end Pending

end LambdaNotation
