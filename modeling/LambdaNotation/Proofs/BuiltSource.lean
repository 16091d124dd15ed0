import LambdaNotation.Proofs.RoundTrip
import LambdaNotation.Proofs.Tree

/-!
# Reading what a built term writes

A term that is built by groups and lambdas writes a text that is read as one term again, within
every limit that allows the parentheses of the text. That need not be the term itself: a lambda
writes parentheses around its body, whether the body is a group or not, and what is read is a lambda
over the group that they are. It prints the same (`Term.Built.exists_derivation`).
-/

namespace LambdaNotation

open Text

namespace Text

variable {s t : Text} {m n : Nat}

/-- At some place in the text `n` parentheses are open. -/
def Reaches (s : Text) (n : Nat) : Prop := ∃ p, p <+: s ∧ excess p = n

theorem reaches_zero (s : Text) : Reaches s 0 := ⟨[], List.nil_prefix, rfl⟩

theorem Reaches.append_left (h : Reaches t n) (hs : excess s = 0) : Reaches (s ++ t) n := by
  obtain ⟨p, hp, hn⟩ := h
  exact ⟨s ++ p, (List.prefix_append_right_inj s).2 hp, by rw [excess_append, hs, hn, Int.zero_add]⟩

theorem Reaches.append_right (h : Reaches s n) (t : Text) : Reaches (s ++ t) n := by
  obtain ⟨p, hp, hn⟩ := h
  exact ⟨p, hp.trans (List.prefix_append s t), hn⟩

theorem Reaches.parenthesize (h : Reaches s n) : Reaches ('(' :: (s ++ [')'])) (n + 1) := by
  obtain ⟨p, hp, hn⟩ := h.append_right [')']
  refine ⟨'(' :: p, List.cons_prefix_cons.2 ⟨rfl, hp⟩, ?_⟩
  rw [excess_cons, excess_opening, hn]
  omega

theorem Reaches.max (hm : Reaches s m) (hn : Reaches s n) : Reaches s (max m n) := by
  rcases max_choice m n with h | h
  · rwa [h]
  · rwa [h]

end Text

namespace Derivation

/-- The depth of a derivation is reached in its text. -/
theorem reaches_depth (d : Derivation) : Reaches d.text d.depth := by
  induction d with
  | nil | stem => exact reaches_zero _
  | name ls ds hl hd rest ih =>
    exact ih.append_left (balanced_of_isName (IsVariable.isName ⟨ls, ds, rfl, hl, hd⟩)).2
  | group body rest ihb ih =>
    exact (ihb.parenthesize.append_right _).max (ih.append_left body.balanced_text.parenthesize.2)
  | lambda ls ds hne hl hd body rest ihb ih =>
    have hheader := ne_parenthesis_of_mem_header (isName_iff.2 ⟨ls, ds, rfl, hne, hl, hd⟩)
    rw [text_lambda]
    exact Reaches.append_left ((ihb.parenthesize.append_right _).max
      (ih.append_left body.balanced_text.parenthesize.2)) (balanced_of_forall hheader).2

end Derivation

namespace Term

variable {t : Term} {ts : List Term} {p : Text → Prop}

/-- What a lambda over the term writes in parentheses: the parts of a group, or the term. -/
def inside : Term → List Term
  | .node none parts _ => parts
  | t => [t]

theorem source_lambda (binder : Text) (t : Term) :
    (lambda binder t).source =
      'L' :: (binder ++ '.' :: '(' :: (sourceAll t.inside ++ [')'])) := by
  rw [lambda]
  cases t with
  | var symbol => rw [source, inside] <;> simp
  | node b parts stored =>
    cases b with
    | none => rw [source, inside]
    | some b => rw [source, inside] <;> simp

/-- These parentheses, where they are new, do not show. -/
theorem Built.print_group_inside (h : t.Built p) :
    (Term.group t.inside).print = t.print := by
  cases h with
  | var _ | group _ | lambda _ _ => rfl

/-- In front of what is derived, the terms write what is derived as terms that print the same. -/
def Rereads (ts : List Term) : Prop :=
  ∀ rest : Derivation, ∃ (d : Derivation) (us : List Term), d.text = sourceAll ts ++ rest.text ∧
    d.terms = us ++ rest.terms ∧ us.map print = ts.map print

theorem rereads_of_forall (h : ∀ t ∈ ts, Rereads [t]) : Rereads ts := by
  induction ts with
  | nil => exact fun rest => ⟨rest, [], rfl, rfl, rfl⟩
  | cons t ts ih =>
    intro rest
    obtain ⟨ht, hts⟩ := List.forall_mem_cons.1 h
    obtain ⟨d, us, htext, hterms, hprint⟩ := ih hts rest
    obtain ⟨e, vs, htext', hterms', hprint'⟩ := ht d
    refine ⟨e, vs ++ us, ?_, ?_, ?_⟩
    · rw [htext', htext, sourceAll_singleton, sourceAll, List.append_assoc]
    · rw [hterms', hterms, List.append_assoc]
    · rw [List.map_append, hprint', hprint]
      rfl

theorem rereads_var {symbol : Text} (h : IsVariable symbol) : Rereads [.var symbol] := by
  obtain ⟨letters, digits, rfl, hl, hd⟩ := h
  intro rest
  refine ⟨.name letters digits hl hd rest, [.var (letters ++ digits)], ?_, rfl, rfl⟩
  rw [sourceAll_singleton, source, Derivation.text]

/-- The terms as a body. -/
theorem Rereads.exists_body (h : Rereads ts) :
    ∃ body : Derivation, body.text = sourceAll ts ∧ body.terms.map print = ts.map print := by
  obtain ⟨body, us, htext, hterms, hprint⟩ := h .nil
  rw [Derivation.text, List.append_nil] at htext
  rw [Derivation.terms, List.append_nil] at hterms
  exact ⟨body, htext, by rw [hterms, hprint]⟩

theorem Rereads.group (h : Rereads ts) : Rereads [group ts] := by
  obtain ⟨body, htext, hprint⟩ := h.exists_body
  intro rest
  refine ⟨.group body rest, [.group body.terms], ?_, rfl, ?_⟩
  · rw [sourceAll_singleton, source_group, Derivation.text, htext]
  · rw [List.map_singleton, List.map_singleton, print_group_congr hprint]

theorem Rereads.lambda {binder : Text} (hn : isName binder) (ht : t.Built p)
    (h : Rereads t.inside) : Rereads [lambda binder t] := by
  obtain ⟨body, htext, hprint⟩ := h.exists_body
  obtain ⟨letters, digits, rfl, hne, hl, hd⟩ := isName_iff.1 hn
  intro rest
  refine ⟨.lambda letters digits hne hl hd body rest,
    [.lambda (letters ++ digits) (.group body.terms)], ?_, rfl, ?_⟩
  · rw [sourceAll_singleton, source_lambda, Derivation.text, htext]
  · rw [List.map_singleton, List.map_singleton, print_lambda, print_lambda,
      print_group_congr hprint, ht.print_group_inside]

theorem Built.rereads (h : t.Built IsVariable) : Rereads [t] ∧ Rereads t.inside := by
  induction h with
  | var h => exact ⟨rereads_var h, rereads_var h⟩
  | group _ ih =>
    have hparts := rereads_of_forall fun t ht => (ih t ht).1
    exact ⟨hparts.group, hparts⟩
  | lambda hn h ih =>
    have hlambda := Rereads.lambda hn h ih.2
    exact ⟨hlambda, hlambda⟩

/-- A built term writes what is derived as one term that prints the same. -/
theorem Built.exists_derivation (h : t.Built IsVariable) :
    ∃ (d : Derivation) (u : Term), d.text = t.source ∧ d.terms = [u] ∧ u.print = t.print := by
  obtain ⟨d, us, htext, hterms, hprint⟩ := h.rereads.1 .nil
  rw [sourceAll_singleton, Derivation.text, List.append_nil] at htext
  rw [Derivation.terms, List.append_nil] at hterms
  obtain ⟨u, rfl, hu⟩ := List.map_eq_singleton_iff.1 hprint
  exact ⟨d, u, htext, hterms, hu⟩

end Term

namespace Machine

variable {limit : UInt64} {t : Term}

/-- **Built terms survive the notation.** What such a term writes is read as one term, which prints
the same and writes the same, within every limit that the parentheses of the text keep. -/
theorem parse_source_of_built (ht : t.Built IsVariable) (hs : t.source.length < 2 ^ 31)
    (hl : ∀ p, p <+: t.source → excess p ≤ limit.toNat) :
    ∃ u, ((standard limit).parse t.source).value = .ok [u] ∧ u.print = t.print ∧
      u.source = t.source := by
  obtain ⟨d, u, htext, hterms, hprint⟩ := ht.exists_derivation
  obtain ⟨p, hp, hdepth⟩ := d.reaches_depth
  have hlim := hl p (htext ▸ hp)
  have hraised : d.text = t.source.raised := by rw [← htext, d.raised_text]
  refine ⟨u, ?_, hprint, ?_⟩
  · rw [← hterms]
    exact parse_of_derivation d hs hraised (by omega)
  · rw [← htext, ← d.sourceAll_terms, hterms, Term.sourceAll_singleton]

/-- Lambdas over a variable, over a lambda and over a group in a group: neither of the first two is
what is read, since the notation has parentheses around every body. -/
theorem parse_source_of_bare_bodies :
    let t := Term.group [.lambda "LL1".toList (.var "X1".toList),
      .lambda "A1".toList (.lambda "B2".toList
        (.group [.group [.var "Y1".toList, .var "Z2".toList]])),
      .group [.var "W9".toList]]
    t.Built IsVariable ∧ t.source = "(LLL1.(X1)LA1.(LB2.((Y1Z2)))(W9))".toList ∧
      t.source.length < 2 ^ 31 ∧ (∀ p, p <+: t.source → excess p ≤ (4 : UInt64).toNat) ∧
      ∃ u, ((standard 4).parse t.source).value = .ok [u] ∧ u.print = t.print ∧
        u.source = t.source := by
  intro t
  have var {l d : Char} (hu : l.isUpper) (hl : l ≠ 'L') (hd : d.isDigit) :
      (Term.var [l, d]).Built IsVariable := .var ((isStem_singleton hu hl).isVariable hd)
  have ht : t.Built IsVariable := by
    refine .group (List.forall_mem_cons.2 ⟨?_, List.forall_mem_cons.2 ⟨?_, ?_⟩⟩)
    · exact .lambda (by decide) (var rfl (by decide) rfl)
    · refine .lambda (by decide) (.lambda (by decide) (.group (List.forall_mem_singleton.2 ?_)))
      refine .group (List.forall_mem_cons.2 ⟨?_, List.forall_mem_singleton.2 ?_⟩)
      · exact var rfl (by decide) rfl
      · exact var rfl (by decide) rfl
    · refine List.forall_mem_singleton.2 (.group (List.forall_mem_singleton.2 ?_))
      exact var rfl (by decide) rfl
  have hsource : t.source = "(LLL1.(X1)LA1.(LB2.((Y1Z2)))(W9))".toList := by cbv
  have hs : t.source.length < 2 ^ 31 := by
    rw [hsource]
    decide
  have hinits : ∀ p ∈ t.source.inits, excess p ≤ (4 : UInt64).toNat := by
    rw [hsource]
    decide
  have hl : ∀ p, p <+: t.source → excess p ≤ (4 : UInt64).toNat :=
    fun p hp => hinits p ((List.mem_inits p _).2 hp)
  exact ⟨ht, hsource, hs, hl, parse_source_of_built ht hs hl⟩

end Machine

end LambdaNotation
