import LambdaNotation.Automaton
import LambdaNotation.Proofs.Spelling

/-!
# Pieces

One run does not look into bodies: what it finds in a text is a row of pieces, each a name, or a
group or a lambda around raw text. `Pending` is what has been read of the piece at hand, and
`Pending.next` says what one more character leads to. `Leads` lists the rules; each fact about a
character (`Leads.valid`, `Leads.text`, `Leads.depth`) is a case analysis on it.
-/

namespace LambdaNotation

open Text

/-- A part of a text that gives one term. -/
inductive Piece where
  | name (symbol : Text)
  | group (body : Text)
  | lambda (binder body : Text)
  deriving DecidableEq, Repr

namespace Piece

/-- The text of a piece. -/
def text : Piece → Text
  | name symbol => symbol
  | group body => '(' :: (body ++ [')'])
  | lambda binder body => 'L' :: (binder ++ '.' :: '(' :: (body ++ [')']))

/-- The texts of pieces, one after the other. -/
def textAll (ps : List Piece) : Text := ps.flatMap text

/-- The body that a piece captures. -/
def body? : Piece → Option Text
  | name _ => none
  | group body | lambda _ body => some body

/-- A piece that may stand anywhere. -/
def Valid : Piece → Prop
  | name symbol => IsVariable symbol
  | group body => Balanced body
  | lambda binder body => isName binder ∧ Balanced body

/-- Pieces that may stand in a row. Only the last may be a name without digits. -/
inductive Row : List Piece → Prop where
  | nil : Row []
  | stem {s : Text} (h : IsStem s) : Row [.name s]
  | cons {p : Piece} {ps : List Piece} (hp : p.Valid) (hps : Row ps) : Row (p :: ps)

@[simp] theorem textAll_nil : textAll [] = [] := rfl

@[simp] theorem textAll_cons (p : Piece) (ps : List Piece) :
    textAll (p :: ps) = p.text ++ textAll ps := rfl

@[simp] theorem textAll_append (ps qs : List Piece) :
    textAll (ps ++ qs) = textAll ps ++ textAll qs := List.flatMap_append

theorem Valid.balanced {p : Piece} (h : p.Valid) : Balanced p.text := by
  cases p with
  | name symbol => exact balanced_of_isName h.isName
  | group body => exact h.parenthesize
  | lambda binder body =>
    have hl : Balanced ['L'] := balanced_of_forall (by simp)
    have hd : Balanced ['.'] := balanced_of_forall (by simp)
    exact hl.append ((balanced_of_isName h.1).append (hd.append h.2.parenthesize))

theorem Row.balanced {ps : List Piece} (h : Row ps) : Balanced (textAll ps) := by
  induction h with
  | nil => exact balanced_nil
  | stem h => simpa [text] using h.balanced
  | cons hp _ ih => exact hp.balanced.append ih

/-- Every body in a row is balanced. -/
theorem Row.body_balanced {ps : List Piece} (h : Row ps) {p : Piece} (hp : p ∈ ps) {b : Text}
    (hb : p.body? = some b) : Balanced b := by
  induction h with
  | nil => exact nomatch hp
  | stem _ =>
    obtain rfl := List.mem_singleton.1 hp
    exact nomatch hb
  | cons hq _ ih =>
    rcases List.mem_cons.1 hp with rfl | hp
    · cases p with
      | name _ => exact nomatch hb
      | group _ => cases hb; exact hq
      | lambda _ _ => cases hb; exact hq.2
    · exact ih hp

/-- The body of a piece stands in its text between parentheses. -/
theorem infix_text {p : Piece} {b : Text} (h : p.body? = some b) :
    '(' :: (b ++ [')']) <:+: p.text := by
  cases p with
  | name symbol => simp [body?] at h
  | group body => simp_all [body?, text]
  | lambda binder body =>
    obtain rfl : body = b := by simpa [body?] using h
    exact ⟨'L' :: (binder ++ ['.']), [], by simp [text]⟩

end Piece

/-- What a run has read of the piece at hand. -/
inductive Pending where
  /-- Nothing of a piece, at the start. -/
  | start
  /-- Nothing, after a group. -/
  | groupEnd
  /-- Nothing, after a lambda. -/
  | lambdaEnd
  /-- Letters of a variable. -/
  | letters (symbol : Text)
  /-- A variable with digits, which may have more. -/
  | digits (symbol : Text)
  /-- The `L` of a lambda. -/
  | lambda
  /-- The `L` and letters of the binder. -/
  | binderLetters (binder : Text)
  /-- The `L` and a binder with digits, which may have more. -/
  | binderDigits (binder : Text)
  /-- All up to the dot. -/
  | binderDot (binder : Text)
  /-- All up to some part of the body. -/
  | lambdaBody (binder body : Text)
  /-- The parenthesis and some part of the body. -/
  | groupBody (body : Text)
  deriving DecidableEq, Repr

namespace Pending

/-- The state of the automaton. -/
def state : Pending → State
  | start => .start
  | groupEnd => .groupEnd
  | lambdaEnd => .lambdaEnd
  | letters _ => .nameLetters
  | digits _ => .nameDigits
  | lambda => .lambda
  | binderLetters _ => .binderLetters
  | binderDigits _ => .binderDigits
  | binderDot _ => .binderDot
  | lambdaBody _ _ => .lambdaBody
  | groupBody _ => .groupBody

/-- What has been read. -/
def text : Pending → Text
  | start | groupEnd | lambdaEnd => []
  | letters symbol | digits symbol => symbol
  | lambda => ['L']
  | binderLetters binder | binderDigits binder => 'L' :: binder
  | binderDot binder => 'L' :: (binder ++ ['.'])
  | lambdaBody binder body => 'L' :: (binder ++ '.' :: '(' :: body)
  | groupBody body => '(' :: body

/-- The name that is being read. -/
def name : Pending → Text
  | letters symbol | digits symbol => symbol
  | binderLetters binder | binderDigits binder | binderDot binder | lambdaBody binder _ => binder
  | _ => []

/-- The body that is being captured. -/
def body : Pending → Text
  | lambdaBody _ body | groupBody body => body
  | _ => []

/-- How many parentheses are open. -/
def depth : Pending → Int
  | lambdaBody _ body | groupBody body => 1 + excess body
  | _ => 0

/-- What can have been read. -/
def Valid : Pending → Prop
  | start | groupEnd | lambdaEnd | lambda => True
  | letters symbol => IsStem symbol
  | digits symbol => IsVariable symbol
  | binderLetters binder => binder ≠ [] ∧ ∀ c ∈ binder, c.isUpper
  | binderDigits binder | binderDot binder => isName binder
  | lambdaBody binder body => isName binder ∧ Opened body
  | groupBody body => Opened body

/-- The beginning of a piece. -/
def opening (c : Char) : Option Pending :=
  if c = 'L' then some lambda
  else if c = '(' then some (groupBody [])
  else if c.isUpper then some (letters [c])
  else none

/-- What a character leads to: the piece that is now complete, if one is, and what is pending. -/
def next (d : Pending) (c : Char) : Option (Option Piece × Pending) :=
  match d with
  | start | groupEnd | lambdaEnd => (opening c).map (none, ·)
  | letters symbol =>
    if c.isUpper then some (none, letters (symbol ++ [c]))
    else if c.isDigit then some (none, digits (symbol ++ [c]))
    else none
  | digits symbol =>
    if c.isDigit then some (none, digits (symbol ++ [c]))
    else (opening c).map (some (.name symbol), ·)
  | lambda => if c.isUpper then some (none, binderLetters [c]) else none
  | binderLetters binder =>
    if c.isUpper then some (none, binderLetters (binder ++ [c]))
    else if c.isDigit then some (none, binderDigits (binder ++ [c]))
    else none
  | binderDigits binder =>
    if c.isDigit then some (none, binderDigits (binder ++ [c]))
    else if c = '.' then some (none, binderDot binder)
    else none
  | binderDot binder => if c = '(' then some (none, lambdaBody binder []) else none
  | lambdaBody binder body =>
    if c = ')' ∧ excess body = 0 then some (some (.lambda binder body), lambdaEnd)
    else some (none, lambdaBody binder (body ++ [c]))
  | groupBody body =>
    if c = ')' ∧ excess body = 0 then some (some (.group body), groupEnd)
    else some (none, groupBody (body ++ [c]))

/-- The piece that the end of the text completes. -/
def last : Pending → Option Piece
  | letters symbol | digits symbol => some (.name symbol)
  | _ => none

/-- What characters lead to, rule by rule. -/
inductive Leads (c : Char) : Pending → Option Piece → Pending → Prop where
  | first {d e : Pending} (hd : d = start ∨ d = groupEnd ∨ d = lambdaEnd)
      (he : opening c = some e) : Leads c d none e
  | letter {s : Text} (hc : c.isUpper) : Leads c (letters s) none (letters (s ++ [c]))
  | firstDigit {s : Text} (hc : c.isDigit) : Leads c (letters s) none (digits (s ++ [c]))
  | digit {s : Text} (hc : c.isDigit) : Leads c (digits s) none (digits (s ++ [c]))
  | follows {s : Text} {e : Pending} (he : opening c = some e) :
      Leads c (digits s) (some (.name s)) e
  | binderStart (hc : c.isUpper) : Leads c lambda none (binderLetters [c])
  | binderLetter {s : Text} (hc : c.isUpper) :
      Leads c (binderLetters s) none (binderLetters (s ++ [c]))
  | binderFirstDigit {s : Text} (hc : c.isDigit) :
      Leads c (binderLetters s) none (binderDigits (s ++ [c]))
  | binderDigit {s : Text} (hc : c.isDigit) :
      Leads c (binderDigits s) none (binderDigits (s ++ [c]))
  | dot {s : Text} (hc : c = '.') : Leads c (binderDigits s) none (binderDot s)
  | lambdaOpens {s : Text} (hc : c = '(') : Leads c (binderDot s) none (lambdaBody s [])
  | lambdaGoesOn {s b : Text} (hc : ¬ (c = ')' ∧ excess b = 0)) :
      Leads c (lambdaBody s b) none (lambdaBody s (b ++ [c]))
  | lambdaCloses {s b : Text} (hc : c = ')') (hb : excess b = 0) :
      Leads c (lambdaBody s b) (some (.lambda s b)) lambdaEnd
  | groupGoesOn {b : Text} (hc : ¬ (c = ')' ∧ excess b = 0)) :
      Leads c (groupBody b) none (groupBody (b ++ [c]))
  | groupCloses {b : Text} (hc : c = ')') (hb : excess b = 0) :
      Leads c (groupBody b) (some (.group b)) groupEnd

variable {d e : Pending} {c : Char} {p : Option Piece} {s : Text}

theorem opening_eq_some (h : opening c = some e) :
    (c = 'L' ∧ e = lambda) ∨ (c = '(' ∧ e = groupBody []) ∨
      (c.isUpper ∧ c ≠ 'L' ∧ e = letters [c]) := by
  unfold opening at h
  split_ifs at h with hl ho hu
  · exact .inl ⟨hl, (Option.some.inj h).symm⟩
  · exact .inr (.inl ⟨ho, (Option.some.inj h).symm⟩)
  · exact .inr (.inr ⟨hu, hl, (Option.some.inj h).symm⟩)

theorem not_isDigit_of_opening (h : opening c = some e) : c.isDigit = false := by
  rcases opening_eq_some h with ⟨rfl, -⟩ | ⟨rfl, -⟩ | ⟨hu, -, -⟩
  · rfl
  · rfl
  · refine Bool.eq_false_iff.2 fun hd => ?_
    rw [not_isUpper_of_isDigit hd] at hu
    exact Bool.noConfusion hu

theorem opening_letter (hu : c.isUpper) (hl : c ≠ 'L') : opening c = some (letters [c]) := by
  unfold opening
  rw [if_neg hl, if_neg (ne_parenthesis (.inl hu)).1, if_pos hu]

theorem leads_of_next (h : d.next c = some (p, e)) : Leads c d p e := by
  cases d with
  | start | groupEnd | lambdaEnd =>
    obtain ⟨e, he, hp⟩ := Option.map_eq_some_iff.1 h
    cases hp
    exact .first (by simp) he
  | letters s =>
    rw [next] at h
    split_ifs at h with hu hd
    · cases h; exact .letter hu
    · cases h; exact .firstDigit hd
  | digits s =>
    rw [next] at h
    split_ifs at h with hd
    · cases h; exact .digit hd
    · obtain ⟨e, he, hp⟩ := Option.map_eq_some_iff.1 h
      cases hp
      exact .follows he
  | lambda =>
    rw [next] at h
    split_ifs at h with hu
    cases h; exact .binderStart hu
  | binderLetters s =>
    rw [next] at h
    split_ifs at h with hu hd
    · cases h; exact .binderLetter hu
    · cases h; exact .binderFirstDigit hd
  | binderDigits s =>
    rw [next] at h
    split_ifs at h with hd hc
    · cases h; exact .binderDigit hd
    · cases h; exact .dot hc
  | binderDot s =>
    rw [next] at h
    split_ifs at h with hc
    cases h; exact .lambdaOpens hc
  | lambdaBody s b =>
    rw [next] at h
    split_ifs at h with hc
    · cases h; exact .lambdaCloses hc.1 hc.2
    · cases h; exact .lambdaGoesOn hc
  | groupBody b =>
    rw [next] at h
    split_ifs at h with hc
    · cases h; exact .groupCloses hc.1 hc.2
    · cases h; exact .groupGoesOn hc

/-! ## What a character keeps -/

theorem opening_valid (h : opening c = some e) : e.Valid := by
  rcases opening_eq_some h with ⟨-, rfl⟩ | ⟨-, rfl⟩ | ⟨hu, hl, rfl⟩
  · trivial
  · exact opened_nil
  · exact isStem_singleton hu hl

theorem opening_text (h : opening c = some e) : e.text = [c] := by
  rcases opening_eq_some h with ⟨rfl, rfl⟩ | ⟨rfl, rfl⟩ | ⟨-, -, rfl⟩ <;> rfl

theorem opening_depth (h : opening c = some e) : e.depth = excess [c] := by
  rcases opening_eq_some h with ⟨rfl, rfl⟩ | ⟨rfl, rfl⟩ | ⟨hu, -, rfl⟩
  · decide
  · decide
  · have hc := ne_parenthesis (.inl hu)
    exact (excess_singleton hc.1 hc.2).symm

/-- A body that is opened goes on so unless its last parenthesis is closed. -/
theorem opened_concat_of_open {b : Text} (h : Opened b) (hc : ¬ (c = ')' ∧ excess b = 0)) :
    Opened (b ++ [c]) := by
  apply h.concat
  have hb := h.excess_nonneg
  rw [excess_append]
  by_cases ho : c = '('
  · rw [ho, excess_opening]; omega
  by_cases hcl : c = ')'
  · have h0 : excess b ≠ 0 := fun h0 => hc ⟨hcl, h0⟩
    rw [hcl, excess_closing]; omega
  · rw [excess_singleton ho hcl]; omega

theorem Leads.valid (h : Leads c d p e) (hd : d.Valid) : e.Valid := by
  cases h with
  | first _ he | follows he => exact opening_valid he
  | letter hc => exact hd.concat hc
  | firstDigit hc => exact hd.isVariable hc
  | digit hc => exact hd.concat hc
  | binderStart hc => exact ⟨List.cons_ne_nil _ _, by simpa using hc⟩
  | binderLetter hc => exact ⟨by simp, forall_isUpper_concat hd.2 hc⟩
  | binderFirstDigit hc => exact isName_of_letters hd.1 hd.2 hc
  | binderDigit hc => exact isName_concat hd hc
  | dot _ => exact hd
  | lambdaOpens _ => exact ⟨hd, opened_nil⟩
  | lambdaGoesOn hc => exact ⟨hd.1, opened_concat_of_open hd.2 hc⟩
  | groupGoesOn hc => exact opened_concat_of_open hd hc
  | lambdaCloses _ _ | groupCloses _ _ => trivial

theorem Leads.piece_valid (h : Leads c d p e) (hd : d.Valid) : ∀ q ∈ p, q.Valid := by
  intro q hq
  cases h with
  | follows _ => cases hq; exact hd
  | lambdaCloses _ hb => cases hq; exact ⟨hd.1, hd.2, hb⟩
  | groupCloses _ hb => cases hq; exact ⟨hd, hb⟩
  | _ => cases hq

theorem Leads.text (h : Leads c d p e) : d.text ++ [c] = Piece.textAll p.toList ++ e.text := by
  cases h with
  | first hd he => rw [opening_text he]; rcases hd with rfl | rfl | rfl <;> rfl
  | follows he => rw [opening_text he]; simp [Pending.text, Piece.text]
  | dot hc | lambdaOpens hc => simp [Pending.text, hc]
  | lambdaCloses hc _ | groupCloses hc _ => simp [Pending.text, Piece.text, hc]
  | _ => simp [Pending.text]

theorem Leads.depth (h : Leads c d p e) : e.depth = d.depth + excess [c] := by
  have hne : c.isUpper ∨ c.isDigit → excess [c] = 0 := fun hc =>
    excess_singleton (ne_parenthesis hc).1 (ne_parenthesis hc).2
  cases h with
  | first hd he =>
    rw [opening_depth he]
    rcases hd with rfl | rfl | rfl <;> exact (Int.zero_add _).symm
  | follows he => rw [opening_depth he]; exact (Int.zero_add _).symm
  | letter hc | binderStart hc | binderLetter hc => simp [Pending.depth, hne (.inl hc)]
  | firstDigit hc | digit hc | binderFirstDigit hc | binderDigit hc =>
    simp [Pending.depth, hne (.inr hc)]
  | dot hc => rw [hc]; rfl
  | lambdaOpens hc => rw [hc]; rfl
  | lambdaGoesOn _ | groupGoesOn _ => simp [Pending.depth]; omega
  | lambdaCloses hc hb | groupCloses hc hb => simp [Pending.depth, hc, hb]

theorem depth_nonneg (hd : d.Valid) : 0 ≤ d.depth := by
  cases d with
  | lambdaBody w b =>
    have hb := hd.2.excess_nonneg
    show 0 ≤ 1 + excess b
    omega
  | groupBody b =>
    have hb := Opened.excess_nonneg hd
    show 0 ≤ 1 + excess b
    omega
  | _ => exact Int.le_refl 0

theorem depth_le_length (d : Pending) : d.depth ≤ d.text.length := by
  cases d with
  | lambdaBody w b =>
    have hb := excess_le_length b
    show 1 + excess b ≤ _
    simp only [text, List.length_cons, List.length_append]
    omega
  | groupBody b =>
    have hb := excess_le_length b
    show 1 + excess b ≤ _
    simp only [text, List.length_cons]
    omega
  | _ => exact Int.natCast_nonneg _

end Pending

end LambdaNotation
