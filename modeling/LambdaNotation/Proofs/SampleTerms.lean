import LambdaNotation.Proofs.Grammar
import LambdaNotation.Proofs.Samples

/-!
# The terms of random texts

An expression stands in front of any items as one item more (`Sample.Expression.isItem`): it ends
with a digit or a parenthesis, so nothing that follows can run into it. Random texts are therefore
derived, and read as terms of the same shape (`Sample.parse_of_drawn`).
-/

namespace LambdaNotation.Sample

open Text

/-- The terms of expressions with groups and lambdas at most so deep. -/
inductive Shape : Nat → Term → Prop where
  | var {n : Nat} {symbol : Text} (h : IsName symbol) : Shape n (.var symbol)
  | group {n : Nat} {parts : List Term} (hf : Few 3 parts) (h : ∀ t ∈ parts, Shape n t) :
      Shape (n + 1) (.group parts)
  | lambda {n : Nat} {binder : Text} {parts : List Term} (hb : IsName binder) (hf : Few 3 parts)
      (h : ∀ t ∈ parts, Shape n t) : Shape (n + 1) (.lambda binder (.group parts))

/-- In front of any items, the text is one item more. -/
def IsItem (n : Nat) (s : Text) : Prop :=
  ∀ rest : Derivation, ∃ (d : Derivation) (t : Term), d.text = s ++ rest.text ∧
    d.terms = t :: rest.terms ∧ d.depth ≤ max n rest.depth ∧ Shape n t

/-- Items in a row are a sequence. -/
theorem exists_derivation_of_items {n : Nat} {parts : List Text} (h : ∀ p ∈ parts, IsItem n p) :
    ∃ d : Derivation, d.text = parts.flatten ∧ d.terms.length = parts.length ∧ d.depth ≤ n ∧
      ∀ t ∈ d.terms, Shape n t := by
  induction parts with
  | nil => exact ⟨.nil, rfl, rfl, Nat.zero_le n, fun t ht => nomatch ht⟩
  | cons p parts ih =>
    obtain ⟨hp, hparts⟩ := List.forall_mem_cons.1 h
    obtain ⟨rest, htext, hlen, hdepth, hshape⟩ := ih hparts
    obtain ⟨d, t, hd, hterms, hle, ht⟩ := hp rest
    refine ⟨d, by rw [hd, htext, List.flatten_cons], ?_, hle.trans (max_le le_rfl hdepth), ?_⟩
    · rw [hterms, List.length_cons, hlen, List.length_cons]
    · rw [hterms]
      exact List.forall_mem_cons.2 ⟨ht, hshape⟩

theorem Few.of_length_eq {α β : Type} {most : Nat} {l : List α} {m : List β} (h : Few most l)
    (hlen : m.length = l.length) : Few most m := by
  unfold Few at h ⊢
  omega

theorem Expression.isItem {n : Nat} {s : Text} (h : Expression n s) : IsItem n s := by
  induction h with
  | @name n s h =>
    intro rest
    obtain ⟨letters, digits, rfl, hl, hd⟩ := h.isVariable
    exact ⟨.name letters digits hl hd rest, .var (letters ++ digits), rfl, rfl,
      le_max_right _ _, .var h⟩
  | @group n parts hf _ ih =>
    intro rest
    obtain ⟨body, htext, hlen, hdepth, hshape⟩ := exists_derivation_of_items ih
    refine ⟨.group body rest, .group body.terms, ?_, rfl, ?_, .group (hf.of_length_eq hlen) hshape⟩
    · rw [Derivation.text, htext]
    · exact max_le_max_right _ (Nat.succ_le_succ hdepth)
  | @lambda n binder parts hb hf _ ih =>
    intro rest
    obtain ⟨letters, digits, rfl, hl, hd⟩ := hb.isVariable
    obtain ⟨body, htext, hlen, hdepth, hshape⟩ := exists_derivation_of_items ih
    refine ⟨.lambda letters digits hl.1 hl.2.2 hd body rest, .lambda _ (.group body.terms), ?_, rfl,
      ?_, .lambda hb (hf.of_length_eq hlen) hshape⟩
    · rw [Derivation.text, htext]
    · exact max_le_max_right _ (Nat.succ_le_succ hdepth)

/-- **Random texts are read**, from whatever words they come, as terms of the shape that was asked
for. On a list of words there always is one. -/
theorem parse_of_drawn {depth : Nat} {limit : UInt64} (hd : depth < 2 ^ 31)
    (hl : depth ≤ limit.toNat) :
    (∀ words : List UInt64, ∃ s rest, text depth (⟨words⟩ : WordList) = some (s, rest)) ∧
      ∀ (σ : Type) [WordSource σ] (source rest : σ) (s : Text),
        text depth source = some (s, rest) →
          ∃ ts, ((Machine.standard limit).parse s).value = .ok ts ∧ Few 3 ts ∧
            ∀ t ∈ ts, Shape depth t := by
  refine ⟨fun words => ends_text depth ⟨words⟩, fun σ _ source rest s h => ?_⟩
  obtain ⟨parts, hs, hf, hp⟩ := yields_text depth source s rest h
  obtain ⟨d, htext, hlen, hdepth, hshape⟩ :=
    exists_derivation_of_items fun p hm => (hp p hm).isItem
  have hparse := Machine.parse_of_depth_lt d (htext.trans hs.symm) (hdepth.trans_lt hd)
    (hdepth.trans hl)
  exact ⟨d.terms, hparse, hf.of_length_eq hlen, hshape⟩

/-- A lambda over two names, its `L` in lower case, and no word left. -/
theorem parse_of_drawn_lambda :
    1 < 2 ^ 31 ∧ 1 ≤ (1 : UInt64).toNat ∧
      text 1 (⟨[0, 0xC0000000, 0, 0, 0, 0, 0x8000000000000000]⟩ : WordList) =
        some ("la0.(a0a0)".toList, ⟨[]⟩) ∧
      ∃ ts, ((Machine.standard 1).parse "la0.(a0a0)".toList).value = .ok ts ∧ Few 3 ts ∧
        ∀ t ∈ ts, Shape 1 t := by
  have hd : 1 < 2 ^ 31 := by decide
  have hl : 1 ≤ (1 : UInt64).toNat := by decide
  have hdraw : text 1 (⟨[0, 0xC0000000, 0, 0, 0, 0, 0x8000000000000000]⟩ : WordList) =
      some ("la0.(a0a0)".toList, ⟨[]⟩) := rfl
  exact ⟨hd, hl, hdraw, (parse_of_drawn hd hl).2 WordList _ _ _ hdraw⟩

end LambdaNotation.Sample
