import LambdaNotation.Sample
import LambdaNotation.Proofs.Draws
import LambdaNotation.Proofs.Spelling

/-!
# The language of random texts

`Sample.Expression` says which texts are expressions of a depth, and `Sample.Repeats` how texts of
a kind stand in a row. The draws give nothing else (`Sample.yields_text`), they always end on a list
of words (`Sample.ends_text`), and each text of the language, in any case, comes from some words
(`Sample.exists_words_iff`).
-/

namespace LambdaNotation.Sample

open Text

/-- At least one and at most `most`. -/
def Few {α : Type} (most : Nat) (l : List α) : Prop := 1 ≤ l.length ∧ l.length ≤ most

/-- One to `most` texts of a kind, one after the other. -/
def Repeats (most : Nat) (kind : Text → Prop) (s : Text) : Prop :=
  ∃ parts : List Text, s = parts.flatten ∧ Few most parts ∧ ∀ p ∈ parts, kind p

/-- A letter that names are made of. -/
def IsLetter (c : Char) : Prop := c.isUpper ∧ c ≠ 'L'

/-- One or two letters, then one or two digits. -/
def IsName (s : Text) : Prop :=
  ∃ letters digits, s = letters ++ digits ∧ (Few 2 letters ∧ ∀ c ∈ letters, IsLetter c) ∧
    Few 2 digits ∧ ∀ c ∈ digits, c.isDigit

/-- The expressions with groups and lambdas at most so deep. -/
inductive Expression : Nat → Text → Prop where
  | name {n : Nat} {s : Text} (h : IsName s) : Expression n s
  | group {n : Nat} {parts : List Text} (hf : Few 3 parts) (h : ∀ p ∈ parts, Expression n p) :
      Expression (n + 1) ('(' :: (parts.flatten ++ [')']))
  | lambda {n : Nat} {binder : Text} {parts : List Text} (hb : IsName binder) (hf : Few 3 parts)
      (h : ∀ p ∈ parts, Expression n p) :
      Expression (n + 1) ('L' :: (binder ++ '.' :: '(' :: (parts.flatten ++ [')'])))

/-! ## Texts in a row -/

theorem Repeats.mono {most : Nat} {kind kind' : Text → Prop} {s : Text} (h : Repeats most kind s)
    (hk : ∀ p, kind p → kind' p) : Repeats most kind' s := by
  obtain ⟨parts, hs, hf, hp⟩ := h
  exact ⟨parts, hs, hf, fun p hm => hk p (hp p hm)⟩

/-- Characters in a row, each taken as a text. -/
theorem repeats_singleton_iff {most : Nat} {p : Char → Prop} {s : Text} :
    Repeats most (fun t => ∃ c, t = [c] ∧ p c) s ↔ Few most s ∧ ∀ c ∈ s, p c := by
  constructor
  · rintro ⟨parts, rfl, hf, hp⟩
    have hlen : parts.flatten.length = parts.length := by
      have hone : parts.map List.length = parts.map fun _ => 1 :=
        List.map_congr_left fun t ht => by
          obtain ⟨c, rfl, -⟩ := hp t ht
          rfl
      rw [List.length_flatten, hone, List.map_const', List.sum_replicate, smul_eq_mul, mul_one]
    refine ⟨by rwa [Few, hlen], fun c hc => ?_⟩
    obtain ⟨t, ht, hc⟩ := List.mem_flatten.1 hc
    obtain ⟨d, rfl, hd⟩ := hp t ht
    rwa [List.mem_singleton.1 hc]
  · rintro ⟨hf, hp⟩
    have hflat : s = (s.map fun c => [c]).flatten := by
      rw [← List.flatMap_def]
      exact (List.flatMap_singleton' s).symm
    refine ⟨s.map fun c => [c], hflat, by simpa [Few] using hf, fun t ht => ?_⟩
    obtain ⟨c, hc, rfl⟩ := List.mem_map.1 ht
    exact ⟨c, rfl, hp c hc⟩

section

variable {σ : Type} {most : Nat} {s : Text}

theorem yields_times {draw : Draw σ Text} {kind : Text → Prop} (h : draw.Yields kind) (n : Nat) :
    (times draw n).Yields fun s =>
      ∃ parts : List Text, s = parts.flatten ∧ parts.length = n ∧ ∀ p ∈ parts, kind p := by
  induction n with
  | zero => exact Draw.Yields.pure ⟨[], rfl, rfl, by simp⟩
  | succ n ih =>
    refine h.bind fun s hs => ih.bind fun t ht => ?_
    obtain ⟨parts, rfl, hlen, hp⟩ := ht
    refine Draw.Yields.pure ⟨s :: parts, rfl, by rw [List.length_cons, hlen], ?_⟩
    exact List.forall_mem_cons.2 ⟨hs, hp⟩

theorem yields_upTo [WordSource σ] {draw : Draw σ Text} {kind : Text → Prop} (h : draw.Yields kind)
    (hm : 0 < most) : (upTo most draw).Yields (Repeats most kind) := by
  refine (Draw.yields_below hm).bind fun n hn => (yields_times h (n + 1)).mono ?_
  rintro s ⟨parts, rfl, hlen, hp⟩
  exact ⟨parts, rfl, ⟨by omega, by omega⟩, hp⟩

theorem ends_times {draw : Draw WordList Text} (h : draw.Ends) (n : Nat) :
    (times draw n).Ends := by
  induction n with
  | zero => exact Draw.Ends.pure _
  | succ n ih => exact h.bind fun _ => ih.bind fun _ => Draw.Ends.pure _

theorem ends_upTo {draw : Draw WordList Text} (h : draw.Ends) : (upTo most draw).Ends :=
  Draw.ends_below.bind fun n => ends_times h (n + 1)

theorem reaches_times {draw : Draw WordList Text} {parts : List Text}
    (h : ∀ p ∈ parts, draw.Reaches p) : (times draw parts.length).Reaches parts.flatten := by
  induction parts with
  | nil => exact Draw.Reaches.pure []
  | cons p parts ih =>
    obtain ⟨hp, hparts⟩ := List.forall_mem_cons.1 h
    exact hp.bind ((ih hparts).bind (Draw.Reaches.pure _))

theorem reaches_upTo {draw : Draw WordList Text} (hm : most ≤ Width.long.scale)
    (h : Repeats most draw.Reaches s) : (upTo most draw).Reaches s := by
  obtain ⟨parts, rfl, ⟨hpos, hle⟩, hp⟩ := h
  have hn : parts.length - 1 < most := by omega
  refine (Draw.reaches_below hn hm).bind ?_
  rw [Nat.sub_add_cancel hpos]
  exact reaches_times hp

end

/-! ## Names -/

theorem mem_nameLetters_iff {c : Char} : c ∈ nameLetters ↔ IsLetter c := by
  constructor
  · intro hc
    have h : nameLetters.all (fun c => c.isUpper && c != 'L') := by cbv
    simpa [IsLetter] using List.all_eq_true.1 h c hc
  · rintro ⟨hu, hne⟩
    have h : ∀ k < 26, Char.ofNat (65 + k) ≠ 'L' → Char.ofNat (65 + k) ∈ nameLetters := by
      decide +kernel
    obtain ⟨hlo, hhi⟩ : 65 ≤ c.toNat ∧ c.toNat ≤ 90 := by
      simpa [Char.isUpper, UInt32.le_iff_toNat_le] using hu
    obtain ⟨k, hk⟩ := Nat.exists_eq_add_of_le hlo
    have hc : c = Char.ofNat (65 + k) := by rw [← hk, Char.ofNat_toNat]
    rw [hc] at hne ⊢
    exact h k (by omega) hne

theorem isDigit_iff {c : Char} : c.isDigit ↔ ∃ k < 10, c = Nat.digitChar k := by
  constructor
  · intro h
    obtain ⟨hlo, hhi⟩ : 48 ≤ c.toNat ∧ c.toNat ≤ 57 := by
      simpa [Char.isDigit, UInt32.le_iff_toNat_le] using h
    obtain ⟨k, hk⟩ := Nat.exists_eq_add_of_le hlo
    have hk10 : k < 10 := by omega
    exact ⟨k, hk10, Char.toNat_inj.1 (by rw [Nat.toNat_digitChar_of_lt_ten hk10, hk])⟩
  · rintro ⟨k, hk, rfl⟩
    simpa using hk

section

variable {σ : Type} [WordSource σ] {s : Text}

theorem yields_letter : (letter : Draw σ Text).Yields fun s => ∃ c, s = [c] ∧ IsLetter c := by
  refine (Draw.yields_below (by decide)).bind fun k hk => Draw.Yields.pure ⟨_, rfl, ?_⟩
  rw [List.getD_eq_getElem _ _ hk]
  exact mem_nameLetters_iff.1 (List.getElem_mem hk)

theorem yields_digit : (digit : Draw σ Text).Yields fun s => ∃ c, s = [c] ∧ c.isDigit :=
  Draw.yields_digit.bind fun k hk => Draw.Yields.pure ⟨_, rfl, isDigit_iff.2 ⟨k, hk, rfl⟩⟩

theorem yields_name : (name : Draw σ Text).Yields IsName := by
  refine (yields_upTo yields_letter (by decide)).bind fun letters hl =>
    (yields_upTo yields_digit (by decide)).bind fun digits hd => Draw.Yields.pure ?_
  exact ⟨letters, digits, rfl, repeats_singleton_iff.1 hl, repeats_singleton_iff.1 hd⟩

theorem ends_name : Draw.Ends name :=
  (ends_upTo (Draw.ends_below.bind fun _ => Draw.Ends.pure _)).bind fun _ =>
    (ends_upTo (Draw.ends_digit.bind fun _ => Draw.Ends.pure _)).bind fun _ => Draw.Ends.pure _

theorem reaches_letter {c : Char} (h : IsLetter c) : Draw.Reaches letter [c] := by
  obtain ⟨k, hk, rfl⟩ := List.getElem_of_mem (mem_nameLetters_iff.2 h)
  refine (Draw.reaches_below hk (by decide)).bind ?_
  rw [List.getD_eq_getElem _ _ hk]
  exact Draw.Reaches.pure _

theorem reaches_digit {c : Char} (h : c.isDigit) : Draw.Reaches digit [c] := by
  obtain ⟨k, hk, rfl⟩ := isDigit_iff.1 h
  exact (Draw.reaches_digit hk).bind (Draw.Reaches.pure _)

theorem reaches_name (h : IsName s) : Draw.Reaches name s := by
  obtain ⟨letters, digits, rfl, hl, hd⟩ := h
  have hletters : Repeats 2 (Draw.Reaches letter) letters := by
    refine (repeats_singleton_iff.2 hl).mono ?_
    rintro _ ⟨c, rfl, hc⟩
    exact reaches_letter hc
  have hdigits : Repeats 2 (Draw.Reaches digit) digits := by
    refine (repeats_singleton_iff.2 hd).mono ?_
    rintro _ ⟨c, rfl, hc⟩
    exact reaches_digit hc
  exact (reaches_upTo (by decide) hletters).bind
    ((reaches_upTo (by decide) hdigits).bind (Draw.Reaches.pure _))

end

/-! ## Expressions -/

section

variable {σ : Type} [WordSource σ] {n : Nat} {s : Text}

theorem yields_expression (depth : Nat) :
    (expression depth : Draw σ Text).Yields (Expression depth) := by
  induction depth with
  | zero => exact yields_name.mono fun s hs => .name hs
  | succ depth ih =>
    have hseq := yields_upTo ih (show 0 < 3 by decide)
    refine (Draw.yields_below (by decide)).bind fun choice _ => ?_
    split_ifs with h0 h1
    · exact yields_name.mono fun s hs => .name hs
    · refine hseq.bind fun body hbody => Draw.Yields.pure ?_
      obtain ⟨parts, rfl, hf, hp⟩ := hbody
      exact .group hf hp
    · refine yields_name.bind fun binder hb => hseq.bind fun body hbody => Draw.Yields.pure ?_
      obtain ⟨parts, rfl, hf, hp⟩ := hbody
      exact .lambda hb hf hp

theorem ends_expression (depth : Nat) : Draw.Ends (expression depth) := by
  induction depth with
  | zero => exact ends_name
  | succ depth ih =>
    refine Draw.ends_below.bind fun choice => ?_
    split_ifs with h0 h1
    · exact ends_name
    · exact (ends_upTo ih).bind fun _ => Draw.Ends.pure _
    · exact ends_name.bind fun _ => (ends_upTo ih).bind fun _ => Draw.Ends.pure _

theorem reaches_expression (h : Expression n s) : Draw.Reaches (expression n) s := by
  induction h with
  | @name n s h =>
    cases n with
    | zero => exact reaches_name h
    | succ n =>
      have h0 : 0 < 3 := by decide
      exact (Draw.reaches_below h0 (by decide)).bind (reaches_name h)
  | @group n parts hf _ ih =>
    have h1 : 1 < 3 := by decide
    have hbody := reaches_upTo (by decide) ⟨parts, rfl, hf, ih⟩
    exact (Draw.reaches_below h1 (by decide)).bind (hbody.bind (Draw.Reaches.pure _))
  | @lambda n binder parts hb hf _ ih =>
    have h2 : 2 < 3 := by decide
    have hbody := reaches_upTo (by decide) ⟨parts, rfl, hf, ih⟩
    exact (Draw.reaches_below h2 (by decide)).bind
      ((reaches_name hb).bind (hbody.bind (Draw.Reaches.pure _)))

end

/-! ## Either case -/

theorem eq_or_eq_toLower_toUpper (c : Char) : c = c.toUpper ∨ c = c.toUpper.toLower := by
  by_cases h : c.isLower
  · right
    rw [Char.toLower_toUpper_eq_toLower,
      Char.toLower_eq_of_not_isUpper (Char.not_isUpper_of_isLower h)]
  · left
    rw [Char.toUpper_eq_of_not_isLower h]

section

variable {σ : Type} [WordSource σ]

theorem yields_eitherCase (c : Char) :
    (eitherCase c : Draw σ Char).Yields fun d => d.toUpper = c.toUpper := by
  intro s d s' h
  obtain ⟨lower, t, -, h⟩ := Draw.exists_of_bind_eq_some h
  cases h
  split_ifs
  · exact Char.toUpper_toLower_eq_toUpper c
  · rfl

theorem reaches_eitherCase (c : Char) : Draw.Reaches (eitherCase c.toUpper) c := by
  have h (lower : Bool) :
      Draw.Reaches (eitherCase c.toUpper) (if lower then c.toUpper.toLower else c.toUpper) :=
    (Draw.reaches_coin lower).bind (Draw.Reaches.pure _)
  rcases eq_or_eq_toLower_toUpper c with hc | hc
  · have hf := h false
    rw [if_neg Bool.false_ne_true] at hf
    rwa [← hc] at hf ⊢
  · have ht := h true
    rwa [if_pos rfl, ← hc] at ht

theorem yields_mapM (s : Text) :
    (s.mapM eitherCase : Draw σ Text).Yields fun t => raised t = raised s := by
  induction s with
  | nil => exact Draw.Yields.pure rfl
  | cons c s ih =>
    rw [List.mapM_cons]
    refine (yields_eitherCase c).bind fun d hd => ih.bind fun t ht => Draw.Yields.pure ?_
    rw [raised_cons, hd, ht, raised_cons]

theorem ends_mapM (s : Text) : Draw.Ends (s.mapM eitherCase) := by
  induction s with
  | nil => exact Draw.Ends.pure []
  | cons c s ih =>
    rw [List.mapM_cons]
    have hc : Draw.Ends (eitherCase c) := Draw.ends_coin.bind fun _ => Draw.Ends.pure _
    exact hc.bind fun _ => ih.bind fun _ => Draw.Ends.pure _

theorem reaches_mapM (s : Text) : Draw.Reaches ((raised s).mapM eitherCase) s := by
  induction s with
  | nil => exact Draw.Reaches.pure []
  | cons c s ih =>
    rw [raised_cons, List.mapM_cons]
    exact (reaches_eitherCase c).bind (ih.bind (Draw.Reaches.pure _))

end

/-! ## Texts -/

theorem IsName.isVariable {s : Text} (h : IsName s) : IsVariable s := by
  obtain ⟨letters, digits, rfl, ⟨hl, hletters⟩, hd, hdigits⟩ := h
  obtain ⟨c, letters, rfl⟩ := List.exists_cons_of_length_pos hl.1
  have hdne := List.ne_nil_of_length_pos hd.1
  have hhead : (c :: letters).head? ≠ some 'L' := by
    simpa using (hletters c (by simp)).2
  exact ⟨c :: letters, digits, rfl, ⟨by simp, hhead, fun c hc => (hletters c hc).1⟩,
    isDigitRun_iff.2 ⟨hdne, hdigits⟩⟩

theorem Repeats.raised_eq {most : Nat} {s : Text} (h : Repeats most (fun p => raised p = p) s) :
    raised s = s := by
  obtain ⟨parts, rfl, -, hp⟩ := h
  rw [raised, List.map_flatten]
  exact congrArg List.flatten ((List.map_congr_left hp).trans (List.map_id' _))

theorem Expression.raised_eq {n : Nat} {s : Text} (h : Expression n s) : raised s = s := by
  have hname {t : Text} (h : IsName t) : raised t = t := raised_of_isName h.isVariable.isName
  induction h with
  | name h => exact hname h
  | group hf _ ih =>
    have hbody := Repeats.raised_eq ⟨_, rfl, hf, ih⟩
    simp [hbody]
  | lambda hb hf _ ih =>
    have hbody := Repeats.raised_eq ⟨_, rfl, hf, ih⟩
    simp [hname hb, hbody]

theorem yields_text {σ : Type} [WordSource σ] (depth : Nat) :
    (text depth : Draw σ Text).Yields fun s => Repeats 3 (Expression depth) (raised s) := by
  have hseq := yields_upTo (yields_expression (σ := σ) depth) (show 0 < 3 by decide)
  refine hseq.bind fun s hs => (yields_mapM s).mono fun t ht => ?_
  rwa [ht, (hs.mono fun p hp => hp.raised_eq).raised_eq]

theorem ends_text (depth : Nat) : Draw.Ends (text depth) :=
  (ends_upTo (ends_expression depth)).bind ends_mapM

/-- **The random texts of a depth**: one to three expressions in a row, in any case. -/
theorem exists_words_iff (depth : Nat) (s : Text) :
    (∃ words : List UInt64, text depth (⟨words⟩ : WordList) = some (s, ⟨[]⟩)) ↔
      Repeats 3 (Expression depth) (raised s) := by
  constructor
  · rintro ⟨words, h⟩
    exact yields_text depth _ _ _ h
  · intro h
    have hseq := reaches_upTo (by decide) (h.mono fun p hp => reaches_expression hp)
    obtain ⟨words, hwords⟩ := hseq.bind (reaches_mapM s)
    refine ⟨words, ?_⟩
    have hw := hwords []
    rwa [List.append_nil] at hw

end LambdaNotation.Sample
