import LambdaNotation.Proofs.Grammar

/-!
# Writing and reading

Terms that were read write themselves as the text they were read from, up to the case of letters,
and each of them writes itself as a text that is read as this term alone
(`Derivation.sourceAll_terms`, `Machine.parse_source`).
-/

namespace LambdaNotation

open Text

namespace Term

theorem source_group (parts : List Term) :
    (group parts).source = '(' :: (sourceAll parts ++ [')']) := by
  rw [group, source]

/-- The parentheses of a lambda are those of the group that is its body. -/
theorem source_lambda_group (binder : Text) (parts : List Term) :
    (lambda binder (group parts)).source =
      'L' :: (binder ++ '.' :: '(' :: (sourceAll parts ++ [')'])) := by
  rw [lambda, group, source]

theorem sourceAll_singleton (t : Term) : sourceAll [t] = t.source := by
  rw [sourceAll, sourceAll, List.append_nil]

theorem sourceAll_eq_flatMap (ts : List Term) : sourceAll ts = ts.flatMap source := by
  induction ts with
  | nil => rfl
  | cons t ts ih => rw [sourceAll, ih, List.flatMap_cons]

end Term

namespace Derivation

/-- The terms of a derivation write its text. -/
theorem sourceAll_terms (d : Derivation) : Term.sourceAll d.terms = d.text := by
  induction d with
  | nil => rfl
  | stem ls h => rw [terms, Term.sourceAll_singleton, Term.source, text]
  | name ls ds hl hd rest ih => rw [terms, Term.sourceAll, Term.source, ih, text]
  | group body rest ihb ih => rw [terms, Term.sourceAll, Term.source_group, ihb, ih, text]
  | lambda ls ds hne hl hd body rest ihb ih =>
    rw [terms, Term.sourceAll, Term.source_lambda_group, ihb, ih, text]

/-- Each term of a derivation has a derivation of its own, neither longer nor deeper. -/
theorem exists_of_mem_terms {d : Derivation} {t : Term} (ht : t ∈ d.terms) :
    ∃ e : Derivation, e.terms = [t] ∧ e.text.length ≤ d.text.length ∧ e.depth ≤ d.depth := by
  induction d with
  | nil => cases ht
  | stem ls h => exact ⟨.stem ls h, by rw [List.mem_singleton.1 ht, terms], le_rfl, le_rfl⟩
  | name ls ds hl hd rest ih =>
    rcases List.mem_cons.1 ht with rfl | ht
    · exact ⟨.name ls ds hl hd .nil, rfl, by simp [text], Nat.zero_le _⟩
    · obtain ⟨e, he, hlen, hdep⟩ := ih ht
      exact ⟨e, he, hlen.trans (List.suffix_append ..).length_le, hdep⟩
  | group body rest _ ih =>
    rcases List.mem_cons.1 ht with rfl | ht
    · exact ⟨.group body .nil, rfl, by simp [text], by simp [depth]⟩
    · obtain ⟨e, he, hlen, hdep⟩ := ih ht
      exact ⟨e, he, hlen.trans (List.suffix_append ..).length_le, by rw [depth]; omega⟩
  | lambda ls ds hne hl hd body rest _ ih =>
    rcases List.mem_cons.1 ht with rfl | ht
    · exact ⟨.lambda ls ds hne hl hd body .nil, rfl, by simp [text], by simp [depth]⟩
    · obtain ⟨e, he, hlen, hdep⟩ := ih ht
      exact ⟨e, he, hlen.trans (List.suffix_append ..).length_le, by rw [depth]; omega⟩

end Derivation

namespace Machine

variable {limit : UInt64} {s : Text} {ts : List Term} {t : Term}

/-- A term of a derivation within the limit is read from what it writes. -/
theorem parse_source {d : Derivation} (hs : d.text.length < 2 ^ 31) (hd : d.depth ≤ limit.toNat)
    (ht : t ∈ d.terms) : ((standard limit).parse t.source).value = .ok [t] := by
  obtain ⟨e, he, hlen, hdep⟩ := Derivation.exists_of_mem_terms ht
  have htext : t.source = e.text := by
    rw [← e.sourceAll_terms, he, Term.sourceAll_singleton]
  rw [htext, ← he]
  exact parse_of_derivation e (by omega) e.raised_text.symm (by omega)

/-- **Reading loses nothing, and writing undoes it.** The terms of a text write the raised text, and
each of them writes a text that is read as this term alone. -/
theorem source_of_parse (hs : s.length < 2 ^ 31)
    (h : ((standard limit).parse s).value = .ok ts) :
    ts.flatMap Term.source = s.raised ∧
      ∀ t ∈ ts, ((standard limit).parse t.source).value = .ok [t] := by
  obtain ⟨d, htext, hd, rfl⟩ := exists_derivation_of_parse hs h
  refine ⟨?_, fun t ht => ?_⟩
  · rw [← Term.sourceAll_eq_flatMap, d.sourceAll_terms, htext]
  · have hlen : d.text.length < 2 ^ 31 := by rwa [htext, length_raised]
    exact parse_source hlen hd ht

/-- A lambda over one group in parentheses of its own keeps them. -/
theorem source_of_nested_group :
    "a1lx2.((b))((a))c".toList.length < 2 ^ 31 ∧
      ((standard 2).parse "a1lx2.((b))((a))c".toList).value =
        .ok [.var "A1".toList, .lambda "X2".toList (.group [.group [.var "B".toList]]),
          .group [.group [.var "A".toList]], .var "C".toList] ∧
      ((standard 2).parse
          (Term.lambda "X2".toList (.group [.group [.var "B".toList]])).source).value =
        .ok [.lambda "X2".toList (.group [.group [.var "B".toList]])] := by
  have hlen : "a1lx2.((b))((a))c".toList.length < 2 ^ 31 := by decide
  have hread : ((standard 2).parse "a1lx2.((b))((a))c".toList).value =
      .ok [.var "A1".toList, .lambda "X2".toList (.group [.group [.var "B".toList]]),
        .group [.group [.var "A".toList]], .var "C".toList] := by cbv
  exact ⟨hlen, hread, (source_of_parse hlen hread).2 _ (by simp)⟩

end Machine

end LambdaNotation
