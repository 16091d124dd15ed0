import LambdaNotation.Proofs.Spelling
import LambdaNotation.Proofs.Tree

/-!
# Reading trees back

`Tree.read?` reads a text as a tree, from left to right and without looking back. Nothing stands
between the parts of a tree in writing and nothing closes a bound node, so a tree is recovered only
if each of its names ends where it seems to end; then it is `Readable` in front of what follows.
Readable trees are read back (`Tree.Readable.read_text_append`), so they are written unambiguously.
Where every name has digits, a tree is readable in front of everything but a digit
(`Tree.Over.readable`).
-/

namespace LambdaNotation

namespace Text

variable {p : Char → Bool} {s r b : Text} {c : Char}

/-- The text does not begin with a character that satisfies `p`. -/
def Halts (p : Char → Bool) (r : Text) : Prop := ∀ c ∈ r.head?, p c = false

theorem halts_nil : Halts p [] := fun _ h => nomatch h

theorem halts_cons (h : p c = false) : Halts p (c :: r) := by
  intro x hx
  obtain rfl := Option.some.inj hx
  exact h

theorem takeWhile_append_of_halts (hs : ∀ c ∈ s, p c) (hr : Halts p r) :
    (s ++ r).takeWhile p = s := by
  rw [List.takeWhile_append_of_pos hs]
  cases r with
  | nil => exact List.append_nil s
  | cons c r => rw [List.takeWhile_cons_of_neg (by simp [hr c rfl]), List.append_nil]

theorem dropWhile_append_of_halts (hs : ∀ c ∈ s, p c) (hr : Halts p r) :
    (s ++ r).dropWhile p = r := by
  rw [List.dropWhile_append_of_pos hs]
  cases r with
  | nil => rfl
  | cons c r => rw [List.dropWhile_cons_of_neg (by simp [hr c rfl])]

/-! ## The name at the front of a text -/

/-- The letters at the front of a text and the digits after them. -/
def leadingName (s : Text) : Text :=
  s.takeWhile Char.isUpper ++ (s.dropWhile Char.isUpper).takeWhile Char.isDigit

/-- Letters and digits are the name at the front of a text unless more of them follow. -/
theorem leadingName_append {ls ds : Text} (hl : ∀ c ∈ ls, c.isUpper) (hd : ∀ c ∈ ds, c.isDigit)
    (hr : Halts Char.isDigit r) (h : ds = [] → Halts Char.isUpper r) :
    leadingName (ls ++ ds ++ r) = ls ++ ds := by
  have hu : Halts Char.isUpper (ds ++ r) := by
    cases ds with
    | nil => exact h rfl
    | cons d ds => exact halts_cons (not_isUpper_of_isDigit (hd d (by simp)))
  rw [leadingName, List.append_assoc, takeWhile_append_of_halts hl hu,
    dropWhile_append_of_halts hl hu, takeWhile_append_of_halts hd hr]

/-- A name that can be told from what follows: it begins with a letter, and no longer name stands
there. -/
def NameBefore (s r : Text) : Prop := (∃ c u, s = c :: u ∧ c.isUpper) ∧ leadingName (s ++ r) = s

theorem exists_cons_of_letters (hne : s ≠ []) (hs : ∀ c ∈ s, c.isUpper) (t : Text) :
    ∃ c u, s ++ t = c :: u ∧ c.isUpper := by
  obtain ⟨c, s, rfl⟩ := List.exists_cons_of_ne_nil hne
  exact ⟨c, s ++ t, rfl, hs c (by simp)⟩

/-- With digits, only a digit could make a name longer. -/
theorem nameBefore_of_isName (hs : isName s) (hr : Halts Char.isDigit r) : NameBefore s r := by
  obtain ⟨ls, ds, rfl, hne, hl, hd⟩ := isName_iff.1 hs
  obtain ⟨hne', hd⟩ := isDigitRun_iff.1 hd
  exact ⟨exists_cons_of_letters hne hl ds, leadingName_append hl hd hr fun h => absurd h hne'⟩

/-- Without digits, a letter could as well. -/
theorem nameBefore_of_isStem (hs : IsStem s) (hu : Halts Char.isUpper r)
    (hd : Halts Char.isDigit r) : NameBefore s r := by
  obtain ⟨hne, -, hl⟩ := hs
  have hn : leadingName (s ++ [] ++ r) = s ++ [] :=
    leadingName_append hl (fun _ h => nomatch h) hd fun _ => hu
  have hc := exists_cons_of_letters hne hl []
  rw [List.append_nil] at hn hc
  exact ⟨hc, hn⟩

/-! ## What stands before a dot -/

/-- A binder in writing: a name, or nothing. -/
def IsHeader (b : Text) : Prop := b = [] ∨ isName b

theorem IsHeader.ne_dot (h : IsHeader b) : ∀ c ∈ b, c ≠ '.' := by
  rintro c hc rfl
  rcases h with rfl | h
  · exact nomatch hc
  · exact absurd (isUpper_or_isDigit_of_mem h hc) (by decide)

theorem IsHeader.takeWhile (h : IsHeader b) (s : Text) :
    (b ++ '.' :: s).takeWhile (· != '.') = b :=
  takeWhile_append_of_halts (fun c hc => by simpa using h.ne_dot c hc) (halts_cons (by decide))

theorem IsHeader.dropWhile (h : IsHeader b) (s : Text) :
    (b ++ '.' :: s).dropWhile (· != '.') = '.' :: s :=
  dropWhile_append_of_halts (fun c hc => by simpa using h.ne_dot c hc) (halts_cons (by decide))

end Text

open Text

namespace Tree

/-! ## Reading -/

mutual

/-- Reads a tree off the front of a text, with at most `n` steps into one another. -/
def read (n : Nat) (s : Text) : Option (Tree × Text) :=
  match n, s with
  | 0, _ | _, [] => none
  | n + 1, c :: s =>
    if c = '(' then do
      let (parts, r) ← readAll n s
      return (.node none parts, r)
    else if c = lambdaLetter then do
      let (body, r) ← read n ((s.dropWhile (· != '.')).drop 1)
      return (.node (some (s.takeWhile (· != '.'))) [body], r)
    else if c.isUpper then
      let symbol := leadingName (c :: s)
      return (.var symbol, (c :: s).drop symbol.length)
    else none

/-- Reads trees up to the parenthesis that closes them. -/
def readAll (n : Nat) (s : Text) : Option (List Tree × Text) :=
  match n, s with
  | 0, _ | _, [] => none
  | n + 1, c :: s =>
    if c = ')' then return ([], s)
    else do
      let (t, r) ← read n (c :: s)
      let (ts, r) ← readAll n r
      return (t :: ts, r)

end

/-- Reads a whole text as a tree. -/
def read? (s : Text) : Option Tree :=
  match read s.length s with
  | some (t, []) => some t
  | _ => none

variable {n : Nat} {t u : Tree} {ts : List Tree} {s r b : Text}

theorem read_group (h : readAll n s = some (ts, r)) :
    read (n + 1) ('(' :: s) = some (.node none ts, r) := by
  rw [read, if_pos rfl, h]
  rfl

theorem read_bound (hb : IsHeader b) (h : read n s = some (t, r)) :
    read (n + 1) (lambdaLetter :: (b ++ '.' :: s)) = some (.node (some b) [t], r) := by
  rw [read, if_neg (by decide), if_pos rfl, hb.takeWhile, hb.dropWhile, List.drop_one, List.tail, h]
  rfl

theorem read_var (h : NameBefore s r) : read (n + 1) (s ++ r) = some (.var s, r) := by
  obtain ⟨⟨c, u, rfl, hc⟩, hname⟩ := h
  have ho : c ≠ '(' := (ne_parenthesis (.inl hc)).1
  have hl : c ≠ lambdaLetter := by
    rintro rfl
    exact absurd hc (by decide)
  rw [List.cons_append] at hname ⊢
  rw [read, if_neg ho, if_neg hl, if_pos hc, hname]
  simp

theorem readAll_closing : readAll (n + 1) (')' :: r) = some ([], r) := by
  rw [readAll, if_pos rfl]
  rfl

theorem readAll_cons {s' : Text} {c : Char} (hs : s = c :: s') (hc : c ≠ ')')
    (ht : read n s = some (t, r)) {r' : Text} (hts : readAll n r = some (ts, r')) :
    readAll (n + 1) s = some (t :: ts, r') := by
  subst hs
  rw [readAll, if_neg hc, ht]
  show (do let (ts, r) ← readAll n r; return (t :: ts, r)) = _
  rw [hts]
  rfl

/-! ## Readable trees -/

mutual

/-- In front of `r`, every name of the tree ends where it seems to end. A bound node has one part
and a binder that can be written. -/
def Readable : Tree → Text → Prop
  | .var symbol, r => NameBefore symbol r
  | .node none parts, r => ReadableAll parts (')' :: r)
  | .node (some binder) [t], r => IsHeader binder ∧ t.Readable r
  | .node (some _) _, _ => False

def ReadableAll : List Tree → Text → Prop
  | [], _ => True
  | t :: ts, r => t.Readable (textAll ts ++ r) ∧ ReadableAll ts r

end

theorem text_group_append (ts : List Tree) (r : Text) :
    (node none ts).text ++ r = '(' :: (textAll ts ++ ')' :: r) := by
  rw [text, List.cons_append, List.append_assoc]
  rfl

theorem text_bound_append (b : Text) (t : Tree) (r : Text) :
    (node (some b) [t]).text ++ r = lambdaLetter :: (b ++ '.' :: (t.text ++ r)) := by
  rw [text, textAll_singleton, List.cons_append, List.append_assoc]
  rfl

theorem Readable.of_bound (h : (node (some b) ts).Readable r) :
    ∃ t, ts = [t] ∧ IsHeader b ∧ t.Readable r := by
  match ts with
  | [t] =>
    rw [Readable] at h
    exact ⟨t, rfl, h⟩
  | [] | _ :: _ :: _ =>
    rw [Readable] at h
    · exact h.elim
    · simp

/-- A readable tree begins with a letter, a parenthesis or the letter for lambda. -/
theorem Readable.exists_head (h : t.Readable r) :
    ∃ c s, t.text = c :: s ∧ (c.isUpper ∨ c = '(' ∨ c = lambdaLetter) := by
  cases t with
  | var symbol =>
    rw [Readable] at h
    obtain ⟨⟨c, s, hs, hc⟩, -⟩ := h
    exact ⟨c, s, by rw [text, hs], .inl hc⟩
  | node binder parts =>
    cases binder with
    | none => exact ⟨'(', _, by rw [text], .inr (.inl rfl)⟩
    | some b => exact ⟨lambdaLetter, _, by rw [text], .inr (.inr rfl)⟩

theorem Readable.halts_isDigit (h : t.Readable r) : Halts Char.isDigit (t.text ++ s) := by
  obtain ⟨c, u, hu, hc⟩ := h.exists_head
  rw [hu]
  refine halts_cons (Bool.eq_false_iff.2 fun hd => ?_)
  rcases hc with hc | rfl | rfl
  · rw [not_isUpper_of_isDigit hd] at hc
    exact Bool.noConfusion hc
  · exact absurd hd (by decide)
  · exact absurd hd (by decide)

theorem Readable.length_pos (h : t.Readable r) : 0 < t.text.length := by
  obtain ⟨c, s, hs, -⟩ := h.exists_head
  rw [hs]
  exact Nat.zero_lt_succ _

theorem ReadableAll.readAll_text_append
    (ih : ∀ t ∈ ts, ∀ {n : Nat} {r : Text}, t.Readable r → t.text.length ≤ n →
      read n (t.text ++ r) = some (t, r))
    (h : ReadableAll ts (')' :: r)) (hn : (textAll ts).length < n) :
    readAll n (textAll ts ++ ')' :: r) = some (ts, r) := by
  induction ts generalizing n with
  | nil =>
    obtain ⟨n, rfl⟩ := Nat.exists_eq_succ_of_ne_zero (Nat.ne_zero_of_lt hn)
    exact readAll_closing
  | cons t ts ihs =>
    rw [ReadableAll] at h
    obtain ⟨c, u, hu, hc⟩ := h.1.exists_head
    obtain ⟨iht, ih⟩ := List.forall_mem_cons.1 ih
    have hlen : (textAll (t :: ts)).length = t.text.length + (textAll ts).length :=
      List.length_append
    have hpos := h.1.length_pos
    obtain ⟨n, rfl⟩ := Nat.exists_eq_succ_of_ne_zero (Nat.ne_zero_of_lt hn)
    rw [textAll_cons, List.append_assoc]
    refine readAll_cons (by rw [hu]; rfl) ?_ (iht h.1 (by omega)) (ihs ih h.2 (by omega))
    rintro rfl
    exact absurd hc (by decide)

/-- **Readable trees are read back**, and reading stops where they end. -/
theorem Readable.read_text_append (h : t.Readable r) (hn : t.text.length ≤ n) :
    read n (t.text ++ r) = some (t, r) := by
  induction t using Tree.ind generalizing n r with
  | var symbol =>
    obtain ⟨n, rfl⟩ := Nat.exists_eq_succ_of_ne_zero (Nat.ne_zero_of_lt (h.length_pos.trans_le hn))
    exact read_var h
  | node binder ts ih =>
    obtain ⟨n, rfl⟩ := Nat.exists_eq_succ_of_ne_zero (Nat.ne_zero_of_lt (h.length_pos.trans_le hn))
    cases binder with
    | none =>
      have hlen := congrArg List.length (text_group_append ts [])
      simp only [List.length_append, List.length_cons, List.length_nil] at hlen
      rw [text_group_append]
      exact read_group (ReadableAll.readAll_text_append ih h (by omega))
    | some b =>
      obtain ⟨t, rfl, hb, ht⟩ := h.of_bound
      have hlen := congrArg List.length (text_bound_append b t [])
      simp only [List.length_append, List.length_cons, List.length_nil] at hlen
      rw [text_bound_append]
      exact read_bound hb (ih t (by simp) ht (by omega))

/-- The text of a readable tree determines it. -/
theorem Readable.read?_text (h : t.Readable []) : read? t.text = some t := by
  have hr := h.read_text_append le_rfl
  rw [List.append_nil] at hr
  rw [read?, hr]

theorem Readable.eq_of_text_eq (ht : t.Readable []) (hu : u.Readable []) (h : t.text = u.text) :
    t = u := by
  have hr := ht.read?_text
  rw [h, hu.read?_text] at hr
  exact (Option.some.inj hr).symm

/-! ## Trees with complete names -/

/-- The variables of the tree have symbols that `p` allows, and a bound node has one part and a
binder that can be written. -/
inductive Over (p : Text → Prop) : Tree → Prop
  | var {symbol : Text} (h : p symbol) : Over p (.var symbol)
  | group {parts : List Tree} (h : ∀ t ∈ parts, Over p t) : Over p (.node none parts)
  | lambda {binder : Text} {body : Tree} (hb : IsHeader binder) (h : Over p body) :
      Over p (.node (some binder) [body])

theorem Over.readableAll (ih : ∀ t ∈ ts, ∀ {r : Text}, Halts Char.isDigit r → t.Readable r)
    (hr : Halts Char.isDigit r) : ReadableAll ts r := by
  induction ts with
  | nil => trivial
  | cons t ts ihs =>
    obtain ⟨iht, ih⟩ := List.forall_mem_cons.1 ih
    refine ⟨iht ?_, ihs ih⟩
    cases ts with
    | nil => exact hr
    | cons u us =>
      rw [textAll_cons, List.append_assoc]
      exact (ih u (by simp) halts_nil).halts_isDigit

/-- Where every name has digits, a tree is readable in front of everything but a digit. -/
theorem Over.readable (h : t.Over (isName ·)) (hr : Halts Char.isDigit r) : t.Readable r := by
  induction h generalizing r with
  | var hs => exact nameBefore_of_isName hs hr
  | group _ ih => exact readableAll ih (halts_cons (by decide))
  | lambda hb _ ih =>
    rw [Readable]
    exact ⟨hb, ih hr⟩

end Tree

end LambdaNotation
