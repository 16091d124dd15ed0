import LambdaNotation.Proofs.RoundTrip
import LambdaNotation.Proofs.Tree

/-!
# More parentheses

`Term.At` finds the nodes of a row of terms, with the texts before and behind each of them. Where a
node is wrapped in one more pair of parentheses, a term becomes a group of that one term
(`Derivation.exists_wrapped`). It prints the same, and so does everything around it
(`Machine.print_of_wrapped`).
-/

namespace LambdaNotation

open Text

namespace Term

/-- `At ts before t after`: among the terms `ts` or inside one of them is the node `t`, and what the
terms write is `before`, then what `t` writes, then `after`. -/
inductive At : List Term → Text → Term → Text → Prop where
  /-- The first term. -/
  | head (t : Term) (ts : List Term) : At (t :: ts) [] t (sourceAll ts)
  /-- A node of a later term. -/
  | tail (u : Term) {ts : List Term} {before : Text} {t : Term} {after : Text}
      (h : At ts before t after) : At (u :: ts) (u.source ++ before) t after
  /-- A node inside a group. -/
  | group {parts : List Term} (ts : List Term) {before : Text} {t : Term} {after : Text}
      (h : At parts before t after) :
      At (group parts :: ts) ('(' :: before) t (after ++ ')' :: sourceAll ts)
  /-- The body of a lambda. -/
  | body (binder : Text) (parts ts : List Term) :
      At (lambda binder (Term.group parts) :: ts) ('L' :: (binder ++ ['.'])) (Term.group parts)
        (sourceAll ts)
  /-- A node inside the body of a lambda. -/
  | lambda (binder : Text) {parts : List Term} (ts : List Term) {before : Text} {t : Term}
      {after : Text} (h : At parts before t after) :
      At (lambda binder (Term.group parts) :: ts) ('L' :: (binder ++ '.' :: '(' :: before)) t
        (after ++ ')' :: sourceAll ts)

theorem At.sourceAll_eq {ts : List Term} {before : Text} {t : Term} {after : Text}
    (h : At ts before t after) : sourceAll ts = before ++ (t.source ++ after) := by
  induction h with
  | head t ts => rw [sourceAll, List.nil_append]
  | tail u _ ih => rw [sourceAll, ih, List.append_assoc]
  | group ts _ ih => simp [sourceAll, source_group, ih]
  | body binder parts ts => simp [sourceAll, source_group, source_lambda_group]
  | lambda binder ts _ ih => simp [sourceAll, source_lambda_group, ih]

end Term

namespace Derivation

variable {d : Derivation} {t : Term} {parts ts : List Term} {binder before after : Text}

/-- What is derived as a group is a sequence in parentheses, and then the rest. -/
theorem eq_group_of_terms (h : d.terms = .group parts :: ts) :
    ∃ body rest, d = .group body rest ∧ body.terms = parts ∧ rest.terms = ts := by
  cases d with
  | group body rest =>
    obtain ⟨hb, hr⟩ := List.cons.inj h
    exact ⟨body, rest, rfl, (Term.node.inj hb).2.1, hr⟩
  | nil | stem | name | lambda => cases h

/-- What is derived as a lambda over a group is a header, a sequence in parentheses, and then the
rest. -/
theorem eq_lambda_of_terms (h : d.terms = .lambda binder (.group parts) :: ts) :
    ∃ ls ds hne hl hd body rest, d = .lambda ls ds hne hl hd body rest ∧ binder = ls ++ ds ∧
      body.terms = parts ∧ rest.terms = ts := by
  cases d with
  | lambda ls ds hne hl hd body rest =>
    obtain ⟨hb, hr⟩ := List.cons.inj h
    obtain ⟨hbinder, hparts, -⟩ := Term.node.inj hb
    have hgroup := (List.cons.inj hparts).1
    exact ⟨ls, ds, hne, hl, hd, body, rest, rfl, (Option.some.inj hbinder).symm,
      (Term.node.inj hgroup).2.1, hr⟩
  | nil | stem | name | group => cases h

/-- The terms behind the first one are derived too. -/
theorem exists_rest (h : d.terms = t :: ts) : ∃ rest : Derivation, rest.terms = ts ∧
    rest.depth ≤ d.depth := by
  cases d with
  | nil => cases h
  | stem => exact ⟨.nil, (List.cons.inj h).2, le_rfl⟩
  | name ls ds hl hd rest => exact ⟨rest, (List.cons.inj h).2, le_rfl⟩
  | group body rest | lambda ls ds hne hl hd body rest =>
    exact ⟨rest, (List.cons.inj h).2, le_max_right _ _⟩

/-- With other terms behind it, the first term is derived as before, if any were behind it. -/
theorem exists_replaced_rest (h : d.terms = t :: ts) (hts : ts ≠ []) (rest' : Derivation) :
    ∃ e : Derivation, e.terms = t :: rest'.terms ∧ e.depth ≤ max d.depth rest'.depth := by
  cases d with
  | nil => cases h
  | stem => exact absurd (List.cons.inj h).2.symm hts
  | name ls ds hl hd rest =>
    exact ⟨.name ls ds hl hd rest', by rw [← (List.cons.inj h).1, terms], le_max_right _ _⟩
  | group body rest =>
    exact ⟨.group body rest', by rw [← (List.cons.inj h).1, terms],
      max_le_max_right _ (le_max_left _ _)⟩
  | lambda ls ds hne hl hd body rest =>
    exact ⟨.lambda ls ds hne hl hd body rest', by rw [← (List.cons.inj h).1, terms],
      max_le_max_right _ (le_max_left _ _)⟩

/-- **One more pair of parentheses**, around any node, makes what is derived one deeper at most and
changes nothing in print. -/
theorem exists_wrapped (h : Term.At d.terms before t after) :
    ∃ e : Derivation, e.text = before ++ '(' :: (t.source ++ ')' :: after) ∧
      e.terms.map Term.print = d.terms.map Term.print ∧ e.depth ≤ d.depth + 1 := by
  generalize hts : d.terms = ts at h
  -- On where the node is: a node inside a group is one of the body, which is derived by itself.
  induction h generalizing d with
  | head t ts =>
    obtain ⟨e, he, -, hdep⟩ := exists_of_mem_terms (hts ▸ List.mem_cons_self : t ∈ d.terms)
    obtain ⟨rest, rfl, hrest⟩ := exists_rest hts
    refine ⟨.group e rest, ?_, ?_, ?_⟩
    · simp [text, ← sourceAll_terms, he, Term.sourceAll_singleton]
    · simp [terms, he]
    · rw [depth]
      omega
  | @tail u ts before t after h ih =>
    have hne : ts ≠ [] := by
      rintro rfl
      cases h
    obtain ⟨rest, hr, hrest⟩ := exists_rest hts
    obtain ⟨rest', htext, hprint, hdep⟩ := ih hr
    obtain ⟨e, he, hle⟩ := exists_replaced_rest hts hne rest'
    refine ⟨e, ?_, ?_, ?_⟩
    · rw [← sourceAll_terms, he, Term.sourceAll, sourceAll_terms, htext, List.append_assoc]
    · rw [he, List.map_cons, hprint, List.map_cons]
    · omega
  | @group parts ts before t after h ih =>
    obtain ⟨body, rest, rfl, hbody, rfl⟩ := eq_group_of_terms hts
    obtain ⟨body', htext, hprint, hdep⟩ := ih hbody
    subst hbody
    refine ⟨.group body' rest, ?_, ?_, ?_⟩
    · simp [text, htext, sourceAll_terms]
    · simp [terms, Term.print_group_congr hprint]
    · simp only [depth]
      omega
  | body binder parts ts =>
    obtain ⟨ls, ds, hne, hl, hd, body, rest, rfl, rfl, rfl, rfl⟩ := eq_lambda_of_terms hts
    refine ⟨.lambda ls ds hne hl hd (.group body .nil) rest, ?_, ?_, ?_⟩
    · simp [text, sourceAll_terms, Term.source_group]
    · simp [terms]
    · simp only [depth]
      omega
  | @lambda binder parts ts before t after h ih =>
    obtain ⟨ls, ds, hne, hl, hd, body, rest, rfl, rfl, hbody, rfl⟩ := eq_lambda_of_terms hts
    obtain ⟨body', htext, hprint, hdep⟩ := ih hbody
    subst hbody
    refine ⟨.lambda ls ds hne hl hd body' rest, ?_, ?_, ?_⟩
    · simp [text, htext, sourceAll_terms]
    · simp [terms, Term.print_group_congr hprint]
    · simp only [depth]
      omega

end Derivation

namespace Machine

variable {limit : UInt64} {s : Text} {ts : List Term} {t : Term} {before after : Text}

/-- **Parentheses that are redundant do not show.** Around any node of the terms of a text, one more
pair is read within a limit that is one higher, and each term prints as before. -/
theorem print_of_wrapped (hs : s.length < 2 ^ 30) (hm : limit.toNat + 1 < 2 ^ 64)
    (h : ((standard limit).parse s).value = .ok ts) (ht : Term.At ts before t after) :
    raised s = before ++ (t.source ++ after) ∧
      ∃ us, us.map Term.print = ts.map Term.print ∧
        ∀ w, raised w = raised (before ++ '(' :: (t.source ++ ')' :: after)) →
          ((standard (limit + 1)).parse w).value = .ok us := by
  have hs31 : s.length < 2 ^ 31 := by omega
  obtain ⟨d, htext, hdep, rfl⟩ := exists_derivation_of_parse hs31 h
  obtain ⟨e, he, hprint, hle⟩ := Derivation.exists_wrapped ht
  refine ⟨by rw [← htext, ← d.sourceAll_terms, ht.sourceAll_eq], e.terms, hprint, fun w hw => ?_⟩
  have hlen := d.depth_le_length
  rw [htext, length_raised] at hlen
  have hsucc := toNat_add_one hm
  rw [← he, e.raised_text] at hw
  exact parse_of_depth_lt e hw.symm (by omega) (by omega)

/-- The name without digits that ends the body of a lambda is wrapped. -/
theorem print_of_wrapped_stem :
    "lx1.(a1b)".toList.length < 2 ^ 30 ∧ (1 : UInt64).toNat + 1 < 2 ^ 64 ∧
      ((standard 1).parse "lx1.(a1b)".toList).value =
        .ok [.lambda "X1".toList (.group [.var "A1".toList, .var "B".toList])] ∧
      Term.At [.lambda "X1".toList (.group [.var "A1".toList, .var "B".toList])]
        "LX1.(A1".toList (.var "B".toList) ")".toList ∧
      ∃ us, us.map Term.print = ["λX1.(A1B)".toList] ∧
        ((standard 2).parse "lx1.(a1(b))".toList).value = .ok us := by
  have hs : "lx1.(a1b)".toList.length < 2 ^ 30 := by decide
  have hm : (1 : UInt64).toNat + 1 < 2 ^ 64 := by decide
  have hread : ((standard 1).parse "lx1.(a1b)".toList).value =
      .ok [.lambda "X1".toList (.group [.var "A1".toList, .var "B".toList])] := by cbv
  have ht : Term.At [.lambda "X1".toList (.group [.var "A1".toList, .var "B".toList])]
      "LX1.(A1".toList (.var "B".toList) ")".toList :=
    .lambda "X1".toList [] (.tail (.var "A1".toList) (.head (.var "B".toList) []))
  obtain ⟨-, us, hprint, hw⟩ := print_of_wrapped hs hm hread ht
  exact ⟨hs, hm, hread, ht, us, hprint.trans (by cbv), hw _ (by cbv)⟩

end Machine

end LambdaNotation
