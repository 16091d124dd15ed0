import Mathlib.Data.List.Basic
import LambdaNotation.Run

/-!
# Messages can be read back

A message quotes texts that may hold quotation marks, backslashes and whole messages. A quoted text
is still found again behind any prose: no escape is the beginning of another, and none begins with
the mark that closes the text. So a message belongs to one error only, however many captured texts
lead to its fault.
-/

namespace LambdaNotation

/-! ## Hexadecimal digits -/

namespace Text

/-- What a hexadecimal digit in lower case counts. -/
def digitValue (c : Char) : Nat :=
  if c.isDigit then c.toNat - '0'.toNat else c.toNat - 'a'.toNat + 10

/-- The number that hexadecimal digits write. -/
def ofHexadecimal (s : Text) : Nat := s.foldl (fun n c => 16 * n + digitValue c) 0

theorem digitValue_digitChar : ∀ {d : Nat}, d < 16 → digitValue (Nat.digitChar d) = d := by
  decide

theorem digitChar_ne_brace : ∀ {d : Nat}, d < 16 → Nat.digitChar d ≠ '\x7d' := by decide

theorem ofHexadecimal_hexadecimal (n : Nat) : ofHexadecimal (hexadecimal n) = n := by
  induction n using Nat.strongRecOn with
  | ind n ih =>
    by_cases h : n < 16
    · simp [hexadecimal, ofHexadecimal, Nat.toDigits_of_lt_base h, digitValue_digitChar h]
    · have hrest : ofHexadecimal (hexadecimal (n / 16)) = n / 16 := ih _ (by omega)
      simp only [hexadecimal, ofHexadecimal] at hrest ⊢
      rw [Nat.toDigits_of_base_le (by decide) (by omega), List.foldl_append, hrest,
        List.foldl_cons, List.foldl_nil, digitValue_digitChar (by omega)]
      omega

theorem brace_notMem_hexadecimal (n : Nat) : '\x7d' ∉ hexadecimal n := by
  induction n using Nat.strongRecOn with
  | ind n ih =>
    by_cases h : n < 16
    · simp [hexadecimal, Nat.toDigits_of_lt_base h, (digitChar_ne_brace h).symm]
    · have hrest : '\x7d' ∉ Nat.toDigits 16 (n / 16) := ih _ (by omega)
      rw [hexadecimal, Nat.toDigits_of_base_le (by decide) (by omega)]
      simp [hrest, (digitChar_ne_brace (d := n % 16) (by omega)).symm]

end Text

/-! ## Quoted texts -/

namespace Quoting

/-- The marks that quoted texts and characters stand between. -/
inductive IsDelimiter : Char → Prop
  | double : IsDelimiter '\x22'
  | single : IsDelimiter '\x27'

/-- Reads one character back, escaped or not, and gives the text behind it. -/
def unescape : Text → Option (Char × Text)
  | [] => none
  | '\\' :: '0' :: s => some ('\x00', s)
  | '\\' :: 't' :: s => some ('\t', s)
  | '\\' :: 'n' :: s => some ('\n', s)
  | '\\' :: 'r' :: s => some ('\r', s)
  | '\\' :: 'u' :: s =>
    some (Char.ofNat (Text.ofHexadecimal (s.tail.takeWhile (· != '\x7d'))),
      (s.tail.dropWhile (· != '\x7d')).tail)
  | '\\' :: c :: s => some (c, s)
  | c :: s => some (c, s)

variable (q : Quoting)

theorem unescape_cons_of_ne {c : Char} (h : c ≠ '\\') (s : Text) :
    unescape (c :: s) = some (c, s) := by
  unfold unescape
  split <;> simp_all

theorem unescape_byCodePoint (c : Char) (s : Text) :
    unescape (byCodePoint c ++ s) = some (c, s) := by
  have hdigits : ∀ d ∈ Text.hexadecimal c.toNat, (d != '\x7d') = true := fun d hd => by
    simpa using ne_of_mem_of_not_mem hd (Text.brace_notMem_hexadecimal _)
  simp [byCodePoint, unescape, List.takeWhile_append_of_pos hdigits,
    List.dropWhile_append_of_pos hdigits, Text.ofHexadecimal_hexadecimal]

theorem unescape_escape_append {d : Char} (hd : IsDelimiter d) (c : Char) (s : Text) :
    unescape (q.escape d c ++ s) = some (c, s) := by
  unfold escape
  split_ifs with hmark
  · obtain rfl | rfl := hmark
    · cases hd <;> rfl
    · rfl
  all_goals first
    | exact unescape_byCodePoint c s
    | exact unescape_cons_of_ne (fun h => hmark (.inr h)) s
    | (subst c; rfl)

/-- No escape is the beginning of another. -/
theorem escape_append_inj {d : Char} (hd : IsDelimiter d) {c c' : Char} {s s' : Text}
    (h : q.escape d c ++ s = q.escape d c' ++ s') : c = c' ∧ s = s' := by
  have := congrArg unescape h
  simpa [unescape_escape_append q hd] using this

/-- No escape begins with the mark that closes the text. -/
theorem escape_append_ne_cons {d : Char} (hd : IsDelimiter d) (c : Char) (s s' : Text) :
    q.escape d c ++ s ≠ d :: s' := by
  have hslash : d ≠ '\\' := by cases hd <;> decide
  intro h
  have hread := unescape_escape_append q hd c s
  rw [h, unescape_cons_of_ne hslash] at hread
  obtain rfl : d = c := by simpa using congrArg (Option.map Prod.fst) hread
  simp [escape, Ne.symm hslash] at h

/-- A quoted text ends at one place only, whatever stands behind it. -/
theorem text_append_inj {s s' r r' : Text} (h : q.text s ++ r = q.text s' ++ r') :
    s = s' ∧ r = r' := by
  simp only [text, List.cons_append, List.append_assoc, List.nil_append, List.cons.injEq,
    true_and] at h
  induction s generalizing s' with
  | nil =>
    cases s' with
    | nil => simpa using h
    | cons c' s' =>
      simp only [List.flatMap_cons, List.append_assoc] at h
      exact absurd h.symm (q.escape_append_ne_cons .double c' _ _)
  | cons c s ih =>
    simp only [List.flatMap_cons, List.append_assoc] at h
    cases s' with
    | nil => exact absurd h (q.escape_append_ne_cons .double c _ _)
    | cons c' s' =>
      simp only [List.flatMap_cons, List.append_assoc] at h
      obtain ⟨rfl, hrest⟩ := q.escape_append_inj .double h
      obtain ⟨rfl, rfl⟩ := ih hrest
      exact ⟨rfl, rfl⟩

theorem char_append_inj {c c' : Char} {r r' : Text} (h : q.char c ++ r = q.char c' ++ r') :
    c = c' ∧ r = r' := by
  simp only [char, List.cons_append, List.append_assoc, List.nil_append, List.cons.injEq,
    true_and] at h
  obtain ⟨rfl, hrest⟩ := q.escape_append_inj .single h
  exact ⟨rfl, (List.cons.inj hrest).2⟩

end Quoting

/-! ## Faults -/

theorem State.length_label (s : State) : s.label.length = 3 := by cases s <;> rfl

/-- A label ends at one place only, since all are equally long. -/
theorem State.label_append_inj {s t : State} {r r' : Text} (h : s.label ++ r = t.label ++ r') :
    s = t ∧ r = r' :=
  (List.append_inj h (by rw [length_label, length_label])).imp_left label_injective

theorem GrammarError.render_injective (q : Quoting) : Function.Injective (render q) := by
  intro e e' h
  cases e with
  | unexpectedCharacter s c x =>
    cases e' with
    | unexpectedCharacter s' c' x' =>
      unfold render at h
      simp only [List.append_assoc] at h
      obtain ⟨rfl, hfound⟩ := State.label_append_inj (List.append_cancel_left h)
      obtain ⟨rfl, hexpected⟩ := q.char_append_inj (List.append_cancel_left hfound)
      rw [List.append_cancel_right (List.append_cancel_left hexpected)]
    | unexpectedEnd s' => exact absurd (congrArg List.head? h) (by decide : some 'P' ≠ some 'I')
  | unexpectedEnd s =>
    cases e' with
    | unexpectedCharacter s' c' x' =>
      exact absurd (congrArg List.head? h) (by decide : some 'I' ≠ some 'P')
    | unexpectedEnd s' =>
      unfold render at h
      simp only [List.append_assoc] at h
      rw [(State.label_append_inj (List.append_cancel_left h)).1]

namespace Fault

/-- The letter that the message of a fault begins with: it tells the kinds of faults apart. -/
def initial : Fault → Char
  | grammar _ => 'G'
  | invalidBinder _ => 'C'
  | tooDeep _ => 'E'
  | unmapped _ => 'N'

theorem head?_render (q : Quoting) (f : Fault) : (f.render q).head? = some f.initial := by
  cases f <;> rfl

theorem render_ne_of_initial_ne {q : Quoting} {f f' : Fault} (h : f.initial ≠ f'.initial) :
    f.render q ≠ f'.render q := fun heq =>
  h (by simpa [head?_render] using congrArg List.head? heq)

theorem render_injective (q : Quoting) : Function.Injective (render q) := by
  intro f f' h
  by_cases hinitial : f.initial = f'.initial
  · cases f <;> cases f' <;> simp only [initial] at hinitial
    case grammar.grammar error error' =>
      rw [GrammarError.render_injective q (List.append_cancel_left h)]
    case invalidBinder.invalidBinder binder binder' =>
      unfold render at h
      simp only [List.append_assoc] at h
      rw [(q.text_append_inj (List.append_cancel_left h)).1]
    case tooDeep.tooDeep limit limit' =>
      unfold render at h
      simp only [List.append_assoc] at h
      have hlimit := Text.numeral_injective (List.append_cancel_right (List.append_cancel_left h))
      rw [UInt64.toNat_inj.mp hlimit]
    case unmapped.unmapped state state' =>
      unfold render at h
      simp only [List.append_assoc] at h
      rw [(State.label_append_inj (List.append_cancel_left h)).1]
    all_goals exact absurd hinitial (by decide)
  · exact absurd h (render_ne_of_initial_ne hinitial)

end Fault

/-! ## Errors -/

/-- A captured text is announced by a letter that no fault begins with. -/
theorem ParseError.render_within_ne_fault (q : Quoting) (body : Text) (e : ParseError)
    (f : Fault) : (e.within body).render q ≠ f.render q := by
  intro h
  have hhead : ((e.within body).render q).head? = some 'I' := by
    rw [render_within]
    rfl
  rw [h, Fault.head?_render] at hhead
  cases f <;> simp [Fault.initial] at hhead

theorem ParseError.render_injective (q : Quoting) : Function.Injective (render q) := by
  rintro ⟨captured, fault⟩ ⟨captured', fault'⟩ h
  induction captured generalizing captured' with
  | nil =>
    cases captured' with
    | nil =>
      obtain rfl : fault = fault' := Fault.render_injective q h
      rfl
    | cons body' captured' =>
      exact absurd h.symm (render_within_ne_fault q body' ⟨captured', fault'⟩ fault)
  | cons body captured ih =>
    cases captured' with
    | nil => exact absurd h (render_within_ne_fault q body ⟨captured, fault⟩ fault')
    | cons body' captured' =>
      have hchain : (within body ⟨captured, fault⟩).render q =
          (within body' ⟨captured', fault'⟩).render q := h
      simp only [render_within, List.append_assoc] at hchain
      obtain ⟨rfl, hrest⟩ := q.text_append_inj (List.append_cancel_left hchain)
      obtain ⟨rfl, rfl⟩ := ParseError.mk.inj (ih captured' (List.append_cancel_left hrest))
      rfl

/-- No text that a message quotes can forge another message: under any rule about which characters
are shown, errors of a parse with the same message are the same error, and so are the input and the
error when a run reports them. -/
theorem RunError.render_unforged (q : Quoting) :
    (∀ e e' : ParseError, e.render q = e'.render q ↔ e = e') ∧
      ∀ (input input' : Text) (e e' : ParseError),
        (RunError.parse input e).render q = (RunError.parse input' e').render q ↔
          input = input' ∧ e = e' := by
  refine ⟨fun e e' => (ParseError.render_injective q).eq_iff, fun input input' e e' =>
    ⟨fun h => ?_, ?_⟩⟩
  · unfold render at h
    simp only [List.append_assoc] at h
    obtain ⟨hinput, hrest⟩ := q.text_append_inj (List.append_cancel_left h)
    exact ⟨hinput, ParseError.render_injective q (List.append_cancel_left hrest)⟩
  · rintro ⟨rfl, rfl⟩
    rfl

end LambdaNotation
