import LambdaNotation.Proofs.Level

/-!
# The grammar

A text of the notation is a sequence: variables, sequences in parentheses, and lambdas over a
sequence in parentheses, the last of which may be followed by letters without digits. A
`Derivation` is one way to see a text so. A text has at most one (`Derivation.eq_of_text_eq`), and
the machine that builds terms reads exactly the texts that have one, as its terms
(`Machine.parse_of_derivation`, `Machine.exists_derivation_of_parse`).
-/

namespace LambdaNotation

open Text

/-- A sequence in the grammar of the notation, item by item. -/
inductive Derivation where
  /-- No more items. -/
  | nil
  /-- At the end, the letters of a variable without digits. -/
  | stem (letters : Text) (h : IsStem letters)
  /-- A variable. -/
  | name (letters digits : Text) (hl : IsStem letters) (hd : isDigitRun digits) (rest : Derivation)
  /-- A sequence in parentheses. -/
  | group (body rest : Derivation)
  /-- A binder after `L`, a dot and a sequence in parentheses. -/
  | lambda (letters digits : Text) (hne : letters ≠ []) (hl : ∀ c ∈ letters, c.isUpper)
      (hd : isDigitRun digits) (body rest : Derivation)

namespace Derivation

/-- The text that is derived. -/
def text : Derivation → Text
  | nil => []
  | stem ls _ => ls
  | name ls ds _ _ rest => ls ++ ds ++ rest.text
  | group body rest => '(' :: (body.text ++ [')']) ++ rest.text
  | lambda ls ds _ _ _ body rest =>
    'L' :: (ls ++ ds ++ '.' :: '(' :: (body.text ++ [')'])) ++ rest.text

/-- The terms of the items. -/
def terms : Derivation → List Term
  | nil => []
  | stem ls _ => [.var ls]
  | name ls ds _ _ rest => .var (ls ++ ds) :: rest.terms
  | group body rest => .group body.terms :: rest.terms
  | lambda ls ds _ _ _ body rest => .lambda (ls ++ ds) (.group body.terms) :: rest.terms

/-- How deep sequences stand in parentheses inside one another. -/
def depth : Derivation → Nat
  | nil => 0
  | stem _ _ => 0
  | name _ _ _ _ rest => rest.depth
  | group body rest => max (body.depth + 1) rest.depth
  | lambda _ _ _ _ _ body rest => max (body.depth + 1) rest.depth

/-- The items as pieces, with the texts of the bodies. -/
def pieces : Derivation → List Piece
  | nil => []
  | stem ls _ => [.name ls]
  | name ls ds _ _ rest => .name (ls ++ ds) :: rest.pieces
  | group body rest => .group body.text :: rest.pieces
  | lambda ls ds _ _ _ body rest => .lambda (ls ++ ds) body.text :: rest.pieces

/-! ## A derivation is its text -/

theorem textAll_pieces (d : Derivation) : Piece.textAll d.pieces = d.text := by
  induction d with
  | nil => rfl
  | stem ls h => exact List.append_nil ls
  | name ls ds hl hd rest ih => rw [pieces, Piece.textAll_cons, ih]; rfl
  | group body rest _ ih => rw [pieces, Piece.textAll_cons, ih]; rfl
  | lambda ls ds hne hl hd body rest _ ih => rw [pieces, Piece.textAll_cons, ih]; rfl

theorem row_pieces (d : Derivation) : Piece.Row d.pieces := by
  induction d with
  | nil => exact .nil
  | stem ls h => exact .stem h
  | name ls ds hl hd rest ih => exact .cons ⟨ls, ds, rfl, hl, hd⟩ ih
  | group body rest ihb ih =>
    have hb := ihb.balanced
    rw [textAll_pieces] at hb
    exact .cons hb ih
  | lambda ls ds hne hl hd body rest ihb ih =>
    have hb := ihb.balanced
    rw [textAll_pieces] at hb
    exact .cons ⟨isName_iff.2 ⟨ls, ds, rfl, hne, hl, hd⟩, hb⟩ ih

/-- The pieces of the text are those of the derivation. -/
theorem cut_text (d : Derivation) : Pending.start.cut d.text = ⟨d.pieces, none⟩ :=
  Pending.cut_eq_iff.2 ⟨d.row_pieces, d.textAll_pieces⟩

theorem pieces_eq_of_text_eq {d e : Derivation} (h : d.text = e.text) : d.pieces = e.pieces := by
  apply d.row_pieces.eq_of_textAll_eq e.row_pieces
  rw [textAll_pieces, textAll_pieces, h]

theorem text_eq_of_pieces_eq {d e : Derivation} (h : d.pieces = e.pieces) : d.text = e.text := by
  rw [← textAll_pieces, h, textAll_pieces]

/-- A stem in the last place is no variable. -/
theorem stem_ne_name {s ls ds : Text} (h : IsStem s) (hl : IsStem ls) (hd : isDigitRun ds) :
    s ≠ ls ++ ds := fun he => h.not_isVariable ⟨ls, ds, he, hl, hd⟩

/-- **Derivations are unique**: a text has at most one. -/
theorem eq_of_text_eq {d e : Derivation} (h : d.text = e.text) : d = e := by
  induction d generalizing e with
  | nil =>
    have hp := pieces_eq_of_text_eq h
    cases e with
    | nil => rfl
    | _ => cases hp
  | stem s hs =>
    have hp := pieces_eq_of_text_eq h
    cases e with
    | stem s' hs' => cases hp; rfl
    | name ls ds hl hd rest =>
      obtain ⟨he, -⟩ := List.cons.inj hp
      exact absurd (Piece.name.inj he) (stem_ne_name hs hl hd)
    | _ => cases hp
  | name ls ds hl hd rest ih =>
    have hp := pieces_eq_of_text_eq h
    cases e with
    | stem s' hs' =>
      obtain ⟨he, -⟩ := List.cons.inj hp
      exact absurd (Piece.name.inj he).symm (stem_ne_name hs' hl hd)
    | name ls' ds' hl' hd' rest' =>
      obtain ⟨he, hr⟩ := List.cons.inj hp
      obtain ⟨rfl, rfl⟩ := letters_digits_inj hl.2.2 hd hl'.2.2 hd' (Piece.name.inj he)
      rw [ih (text_eq_of_pieces_eq hr)]
    | _ => cases hp
  | group body rest ihb ih =>
    have hp := pieces_eq_of_text_eq h
    cases e with
    | group body' rest' =>
      obtain ⟨he, hr⟩ := List.cons.inj hp
      rw [ihb (Piece.group.inj he), ih (text_eq_of_pieces_eq hr)]
    | _ => cases hp
  | lambda ls ds hne hl hd body rest ihb ih =>
    have hp := pieces_eq_of_text_eq h
    cases e with
    | lambda ls' ds' hne' hl' hd' body' rest' =>
      obtain ⟨he, hr⟩ := List.cons.inj hp
      obtain ⟨hn, hb⟩ := Piece.lambda.inj he
      obtain ⟨rfl, rfl⟩ := letters_digits_inj hl hd hl' hd' hn
      rw [ihb hb, ih (text_eq_of_pieces_eq hr)]
    | _ => cases hp

/-- What is derived is raised. -/
theorem raised_text (d : Derivation) : raised d.text = d.text := by
  induction d with
  | nil => rfl
  | stem ls h => exact raised_eq_self_iff.2 fun c hc => toUpper_of_letter (.inl (h.2.2 c hc))
  | name ls ds hl hd rest ih =>
    have hn : isName (ls ++ ds) := IsVariable.isName ⟨ls, ds, rfl, hl, hd⟩
    rw [text, raised_append, raised_of_isName hn, ih]
  | group body rest ihb ih => simp [text, ihb, ih]
  | lambda ls ds hne hl hd body rest ihb ih =>
    have hn := raised_of_isName (isName_iff.2 ⟨ls, ds, rfl, hne, hl, hd⟩)
    simp only [text, List.cons_append, raised_cons, raised_append, hn, ihb, ih]
    rfl

/-! ## The parentheses of what is derived -/

/-- The text of a lambda, its body in parentheses set apart. -/
theorem text_lambda {ls ds : Text} (hne : ls ≠ []) (hl : ∀ c ∈ ls, c.isUpper)
    (hd : isDigitRun ds) (body rest : Derivation) :
    (lambda ls ds hne hl hd body rest).text =
      'L' :: (ls ++ ds ++ ['.']) ++ ('(' :: (body.text ++ [')']) ++ rest.text) := by
  simp [text]

theorem balanced_text (d : Derivation) : Balanced d.text := by
  rw [← textAll_pieces]
  exact d.row_pieces.balanced

theorem depth_le_length (d : Derivation) : d.depth ≤ d.text.length := by
  induction d with
  | nil | stem => exact Nat.zero_le _
  | name ls ds hl hd rest ih => exact ih.trans (List.suffix_append ..).length_le
  | group body rest ihb ih | lambda ls ds hne hl hd body rest ihb ih =>
    simp only [depth, text, List.length_cons, List.length_append]
    omega

/-- In what is derived, no more parentheses are open than the depth says. -/
theorem shallow_text (d : Derivation) : Shallow d.text d.depth := by
  induction d with
  | nil => exact shallow_of_forall (by simp [text]) _
  | stem ls h => exact shallow_of_forall (fun c hc => ne_parenthesis (.inl (h.2.2 c hc))) _
  | name ls ds hl hd rest ih =>
    have hn : isName (ls ++ ds) := IsVariable.isName ⟨ls, ds, rfl, hl, hd⟩
    have hs := shallow_of_forall (fun c hc => ne_parenthesis (isUpper_or_isDigit_of_mem hn hc))
    exact (hs _).append (balanced_of_isName hn).2 ih
  | group body rest ihb ih =>
    have hb := ihb.parenthesize body.balanced_text.2
    exact (hb.mono (le_max_left _ _)).append body.balanced_text.parenthesize.2
      (ih.mono (le_max_right _ _))
  | lambda ls ds hne hl hd body rest ihb ih =>
    have hheader := ne_parenthesis_of_mem_header (isName_iff.2 ⟨ls, ds, rfl, hne, hl, hd⟩)
    have hb := ihb.parenthesize body.balanced_text.2
    rw [text_lambda]
    exact (shallow_of_forall hheader _).append (balanced_of_forall hheader).2
      ((hb.mono (le_max_left _ _)).append body.balanced_text.parenthesize.2
        (ih.mono (le_max_right _ _)))

end Derivation

/-! ## Reading what is derived -/

namespace Machine

variable {limit level : UInt64} {s : Text} {ts : List Term} {n : Nat}

/-- A derived body is read as its terms, if its pieces are. -/
theorem bodies_of_derivation {b : Derivation} (hb : b.depth < 2 ^ 31) (hl : ¬ limit < level)
    (hp : b.pieces.mapM (Piece.read ((standard limit).bodies n) level) = .ok b.terms) :
    ((standard limit).bodies (n + 1) b.text level).value = .ok b.terms := by
  have hfit : Pending.start.Fits b.text.raised := by
    rw [b.raised_text]
    exact Pending.fits_of_shallow rfl b.shallow_text hb
  rw [bodies_succ_value_of_fits hl hfit, mapError_eq_ok_iff, b.raised_text, b.cut_text]
  exact Cut.outcome_eq_ok_iff.2 ⟨rfl, hp⟩

/-- The pieces of a derivation are read as its terms, however long they are. -/
theorem mapM_pieces (d : Derivation) (hd : d.depth < 2 ^ 31)
    (hl : level.toNat + d.depth ≤ limit.toNat) (hn : d.depth ≤ n) :
    d.pieces.mapM (Piece.read ((standard limit).bodies n) level) = .ok d.terms := by
  induction d generalizing level n with
  | nil => rfl
  | stem ls hs => rfl
  | name ls ds hls hds rest ih =>
    exact Piece.mapM_read_cons_eq_ok_iff.2 ⟨_, _, rfl, ih hd hl hn, rfl⟩
  | group body rest ihb ih | lambda ls ds hne hls hds body rest ihb ih =>
    rw [Derivation.depth] at hd hl hn
    obtain ⟨n, rfl⟩ : ∃ k, n = k + 1 := ⟨n - 1, by omega⟩
    have hlt : level.toNat < limit.toNat := by omega
    have hs := toNat_succ_of_lt hlt
    have hlimit := UInt64.toNat_lt limit
    have hle : ¬ limit < level + 1 := by
      rw [UInt64.lt_iff_toNat_lt]
      omega
    have hbody : body.pieces.mapM (Piece.read ((standard limit).bodies n) (level + 1)) =
        .ok body.terms := ihb (by omega) (by omega) (by omega)
    have hrest : rest.pieces.mapM (Piece.read ((standard limit).bodies (n + 1)) level) =
        .ok rest.terms := ih (by omega) (by omega) (by omega)
    have hb := BodyReader.inner_eq_ok_iff.2
      ⟨by omega, bodies_of_derivation (by omega) hle hbody⟩
    exact Piece.mapM_read_cons_eq_ok_iff.2 ⟨_, _, map_eq_ok_iff.2 ⟨_, hb, rfl⟩, hrest, rfl⟩

/-- **What is derived is read as its terms**, whatever the case of its letters and however long the
text: only its depth is bounded, by the limit and by how far parentheses are counted. -/
theorem parse_of_depth_lt (d : Derivation) (h : d.text = s.raised) (hd : d.depth < 2 ^ 31)
    (hl : d.depth ≤ limit.toNat) : ((standard limit).parse s).value = .ok d.terms := by
  have hfit : Pending.start.Fits s.raised := by
    rw [← h]
    exact Pending.fits_of_shallow rfl d.shallow_text hd
  have h0 : (0 : UInt64).toNat = 0 := rfl
  have hlim : (standard limit).limit = limit := rfl
  refine (run_value_of_fits limit (standard limit).parseBody hfit 0).trans ?_
  rw [← h, d.cut_text]
  refine Cut.outcome_eq_ok_iff.2 ⟨rfl, mapM_pieces d hd (by omega) ?_⟩
  rw [hlim]
  omega

/-- What is derived within the limit is read, whatever the case of its letters. -/
theorem parse_of_derivation (d : Derivation) (hs : s.length < 2 ^ 31) (h : d.text = s.raised)
    (hd : d.depth ≤ limit.toNat) : ((standard limit).parse s).value = .ok d.terms := by
  have hlen := d.depth_le_length
  rw [h, length_raised] at hlen
  exact parse_of_depth_lt d h (by omega) hd

end Machine

/-! ## Deriving what is read -/

/-- Pieces in a row are derived, if the bodies that can be read are. -/
theorem Piece.Row.exists_derivation {read : BodyReader} {level : UInt64} {ps : List Piece}
    {ts : List Term} {n : Nat} (h : Row ps)
    (hbody : ∀ p ∈ ps, ∀ b, p.body? = some b → ∀ parts, (read.inner b level).value = .ok parts →
      ∃ d : Derivation, d.text = b ∧ d.depth + 1 ≤ n ∧ d.terms = parts)
    (hts : ps.mapM (Piece.read read level) = .ok ts) :
    ∃ d : Derivation, d.text = textAll ps ∧ d.depth ≤ n ∧ d.terms = ts := by
  induction h generalizing ts with
  | nil => exact ⟨.nil, rfl, Nat.zero_le n, Except.ok.inj hts⟩
  | @stem ls hs => exact ⟨.stem ls hs, (List.append_nil ls).symm, Nat.zero_le n, Except.ok.inj hts⟩
  | @cons p ps hp _ ih =>
    obtain ⟨t, us, ht, hus, rfl⟩ := mapM_read_cons_eq_ok_iff.1 hts
    obtain ⟨rest, hr, hdep, rfl⟩ := ih (fun q hq => hbody q (List.mem_cons_of_mem p hq)) hus
    have hb := hbody p (by simp)
    cases p with
    | name w =>
      obtain ⟨ls, ds, rfl, hl, hd⟩ := hp
      cases ht
      exact ⟨.name ls ds hl hd rest, by rw [Derivation.text, hr]; rfl, hdep, rfl⟩
    | group b =>
      obtain ⟨parts, hread, rfl⟩ := map_eq_ok_iff.1 ht
      obtain ⟨body, rfl, hbd, rfl⟩ := hb b rfl parts hread
      exact ⟨.group body rest, by rw [Derivation.text, hr]; rfl, Nat.max_le.2 ⟨hbd, hdep⟩, rfl⟩
    | lambda w b =>
      obtain ⟨ls, ds, rfl, hne, hl, hd⟩ := isName_iff.1 hp.1
      obtain ⟨parts, hread, rfl⟩ := map_eq_ok_iff.1 ht
      obtain ⟨body, rfl, hbd, rfl⟩ := hb b rfl parts hread
      exact ⟨.lambda ls ds hne hl hd body rest, by rw [Derivation.text, hr]; rfl,
        Nat.max_le.2 ⟨hbd, hdep⟩, rfl⟩

namespace Machine

variable {limit level : UInt64} {s : Text} {ts : List Term}

/-- What is read is derived, and not too deep. -/
theorem exists_derivation_of_outcome (h : s.length < 2 ^ 31) (hl : level ≤ limit)
    (hs : s.raised = s)
    (hts : (Pending.start.cut s).outcome (standard limit).parseBody level = .ok ts) :
    ∃ d : Derivation, d.text = s ∧ level.toNat + d.depth ≤ limit.toNat ∧ d.terms = ts := by
  -- On the length of the text, since a body is shorter than the text around it.
  induction hn : s.length using Nat.strong_induction_on generalizing s level ts with
  | _ n ih =>
    obtain ⟨herr, hok⟩ := Cut.outcome_eq_ok_iff.1 hts
    obtain ⟨hrow, htext⟩ := Pending.row_of_no_error herr
    have hle : level.toNat ≤ limit.toNat := UInt64.le_iff_toNat_le.1 hl
    have hbody : ∀ p ∈ (Pending.start.cut s).pieces, ∀ b, p.body? = some b → ∀ parts,
        ((standard limit).parseBody.inner b level).value = .ok parts →
        ∃ d : Derivation, d.text = b ∧ d.depth + 1 ≤ limit.toNat - level.toNat ∧
          d.terms = parts := by
      intro p hp b hb parts hparts
      have he := Pending.encloses_of_mem_cut hp hb
      have hraised := he.raised_eq hs
      have hlen := he.length_le
      obtain ⟨hroom, hparts⟩ := BodyReader.inner_eq_ok_iff.1 hparts
      have hsucc := toNat_add_one hroom
      obtain ⟨hlim, hb⟩ := (parseBody_eq_ok_iff (by omega)).1 hparts
      rw [hraised] at hb
      obtain ⟨d, hd, hdep, ht⟩ := ih b.length (by omega) (by omega) hlim hraised hb rfl
      exact ⟨d, hd, by omega, ht⟩
    obtain ⟨d, hd, hdep, ht⟩ := hrow.exists_derivation hbody hok
    exact ⟨d, hd.trans htext, by omega, ht⟩

theorem exists_derivation_of_parse (hs : s.length < 2 ^ 31)
    (h : ((standard limit).parse s).value = .ok ts) :
    ∃ d : Derivation, d.text = s.raised ∧ d.depth ≤ limit.toNat ∧ d.terms = ts := by
  have h0 : (0 : UInt64) ≤ limit := UInt64.le_iff_toNat_le.2 (Nat.zero_le _)
  rw [parse_value hs] at h
  obtain ⟨d, ht, hd, hts⟩ :=
    exists_derivation_of_outcome (by rwa [length_raised]) h0 (raised_raised s) h
  exact ⟨d, ht, Nat.le_trans (Nat.le_add_left _ _) hd, hts⟩

/-- **The texts that are read** are those that have a derivation within the limit, and what is read
are its terms; there is only one derivation. -/
theorem parse_eq_ok_iff_derivation (limit : UInt64) {s : Text} (hs : s.length < 2 ^ 31)
    (ts : List Term) :
    (((standard limit).parse s).value = .ok ts ↔
      ∃ d : Derivation, d.text = s.raised ∧ d.depth ≤ limit.toNat ∧ d.terms = ts) ∧
    ∀ d e : Derivation, d.text = s.raised → e.text = s.raised → d = e := by
  refine ⟨⟨exists_derivation_of_parse hs, ?_⟩, fun d e hd he => ?_⟩
  · rintro ⟨d, ht, hd, rfl⟩
    exact parse_of_derivation d hs ht hd
  · exact Derivation.eq_of_text_eq (hd.trans he.symm)

/-- An `L` is a letter like any other after the first of a name; the last name has no digits. -/
theorem exists_derivation_of_nested_lambda :
    "x1Ll2.(xL1(y))z".toList.length < 2 ^ 31 ∧
      ∃ d : Derivation, d.text = "X1LL2.(XL1(Y))Z".toList ∧ d.depth ≤ 2 ∧
        d.terms = [.var "X1".toList,
          .lambda "L2".toList (.group [.var "XL1".toList, .group [.var "Y".toList]]),
          .var "Z".toList] := by
  have hlen : "x1Ll2.(xL1(y))z".toList.length < 2 ^ 31 := by decide
  exact ⟨hlen, (parse_eq_ok_iff_derivation 2 hlen _).1.1 (by cbv)⟩

end Machine

end LambdaNotation
