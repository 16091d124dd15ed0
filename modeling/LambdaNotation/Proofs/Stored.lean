import LambdaNotation.Proofs.Tree

/-!
# The texts that nodes hold

Every operation on terms writes the text of the nodes it makes from what their parts print, in one
of four ways (`Term.Keeps`), and leaves other nodes as they are. So in a term that the operations
make from variables (`Term.Made`) the text of every node is that of its parts, printed
(`Term.Made.consistent`).
-/

namespace LambdaNotation

open Text

namespace Term

variable {t u : Term} {parts : List Term} {p : Text → Prop}

/-- The text that a node holds is written from its parts: as a group or a lambda, or by
substitution, which begins with the letter for lambda and writes parentheses in both cases. -/
inductive Keeps : Option Text → List Term → Text → Prop
  | group (parts : List Term) : Keeps none parts ('(' :: (printAll parts ++ [')']))
  | lambda (binder : Text) (body : Term) :
      Keeps (some binder) [body] (lambdaLetter :: (binder ++ '.' :: body.print))
  | rebuiltGroup (parts : List Term) :
      Keeps none parts (lambdaLetter :: '.' :: '(' :: (printAll parts ++ [')']))
  | rebuiltLambda (binder : Text) (body : Term) :
      Keeps (some binder) [body]
        (lambdaLetter :: (binder ++ '.' :: '(' :: (body.print ++ [')'])))

/-- The text of a node as groups and lambdas write it. -/
def written : Option Text → List Term → Text
  | none, parts => '(' :: (printAll parts ++ [')'])
  | some binder, parts => lambdaLetter :: (binder ++ '.' :: printAll parts)

/-- The text of a node as substitution writes it. -/
def rewritten (binder : Option Text) (parts : List Term) : Text :=
  lambdaLetter :: (binder.getD [] ++ '.' :: '(' :: (printAll parts ++ [')']))

/-- Every node of a term holds a text that is written from its parts, and `p` allows its variables
and binders. -/
inductive Consistent (p : Text → Prop) : Term → Prop
  | var {symbol : Text} (h : p symbol) : Consistent p (.var symbol)
  | node {binder : Option Text} {parts : List Term} {stored : Text} (hb : ∀ b ∈ binder, p b)
      (hk : Keeps binder parts stored) (h : ∀ t ∈ parts, Consistent p t) :
      Consistent p (.node binder parts stored)

theorem printAll_singleton (t : Term) : printAll [t] = t.print := by
  rw [printAll_cons, printAll_nil, List.append_nil]

theorem Keeps.eq_written_or_eq_rewritten {binder : Option Text} {stored : Text}
    (h : Keeps binder parts stored) :
    stored = written binder parts ∨ stored = rewritten binder parts := by
  cases h with
  | group => exact .inl rfl
  | lambda binder body => exact .inl (by rw [written, printAll_singleton])
  | rebuiltGroup => exact .inr rfl
  | rebuiltLambda binder body =>
    exact .inr (by rw [rewritten, printAll_singleton, Option.getD_some])

/-- A bound node has one part, its body. -/
theorem Keeps.length_eq_one {binder stored : Text} (h : Keeps (some binder) parts stored) :
    parts.length = 1 := by
  cases h with
  | lambda | rebuiltLambda => rfl

theorem Consistent.group (h : ∀ t ∈ parts, t.Consistent p) : (group parts).Consistent p :=
  .node (fun _ h => nomatch h) (.group parts) h

theorem Consistent.lambda {binder : Text} (hb : p binder) (h : t.Consistent p) :
    (lambda binder t).Consistent p := by
  refine .node (fun b hb' => ?_) (.lambda binder t) (fun u hu => ?_)
  · rwa [← Option.some.inj hb']
  · rwa [List.mem_singleton.1 hu]

theorem Consistent.of_mem {binder : Option Text} {stored : Text}
    (h : (Term.node binder parts stored).Consistent p) (ht : t ∈ parts) : t.Consistent p := by
  cases h with
  | node _ _ h => exact h t ht

/-- Substitution writes the text of a node in its own way, whatever text the node held. -/
theorem Keeps.substitute {binder : Option Text} {stored : Text} (h : Keeps binder parts stored)
    (target : Text) (replacement : Term) :
    Keeps binder (substituteAll parts target replacement)
      (rewritten binder (substituteAll parts target replacement)) := by
  cases h with
  | group | rebuiltGroup => exact .rebuiltGroup _
  | lambda binder body | rebuiltLambda binder body =>
    rw [substituteAll, substituteAll, rewritten, printAll_singleton]
    exact .rebuiltLambda binder _

theorem Consistent.substitute (h : t.Consistent p) (target : Text) (replacement : Term) :
    (t.substitute target replacement).Consistent p := by
  induction h with
  | @var symbol hs =>
    rw [Term.substitute]
    split
    · next he => exact .var (he ▸ hs)
    · exact .var hs
  | node hb hk _ ih =>
    rw [Term.substitute]
    refine .node hb (hk.substitute target replacement) ?_
    rw [substituteAll_eq_map]
    exact List.forall_mem_map.2 ih

theorem Consistent.substituteAll (h : ∀ t ∈ parts, t.Consistent p) (target : Text)
    (replacement : Term) : ∀ t ∈ substituteAll parts target replacement, t.Consistent p := by
  rw [substituteAll_eq_map]
  exact List.forall_mem_map.2 fun t ht => (h t ht).substitute target replacement

theorem Consistent.instantiate {binder : Option Text} {stored : Text}
    (h : (Term.node binder parts stored).Consistent p) (target : Text) (replacement : Term) :
    (instantiate parts target replacement).Consistent p :=
  .group (.substituteAll (fun _ ht => h.of_mem ht) target replacement)

theorem exists_of_betaStep?_eq_some {argument : Term} (h : t.betaStep? argument = some u) :
    ∃ binder parts stored, t = .node (some binder) parts stored ∧
      u = .instantiate parts binder argument := by
  unfold betaStep? at h
  split at h
  · next binder parts stored =>
    exact ⟨binder, parts, stored, rfl, (Option.some.inj h).symm⟩
  · cases h

theorem Consistent.betaStep {argument : Term} (h : t.Consistent p)
    (hu : t.betaStep? argument = some u) : u.Consistent p := by
  obtain ⟨binder, parts, stored, rfl, rfl⟩ := exists_of_betaStep?_eq_some hu
  exact h.instantiate binder argument

/-! ## Terms that the operations make -/

/-- Terms that the operations make from variables, all of it over names. A copy of a term is the
term, so it needs no rule. -/
inductive Made : Term → Prop
  | var {symbol : Text} (h : isName symbol) : Made (.var symbol)
  | group {parts : List Term} (h : ∀ t ∈ parts, Made t) : Made (.group parts)
  | lambda {binder : Text} {body : Term} (hn : isName binder) (h : Made body) :
      Made (.lambda binder body)
  | substitute {t replacement : Term} {target : Text} (h : Made t) (hn : isName target)
      (hr : Made replacement) : Made (t.substitute target replacement)
  | instantiate {binder : Option Text} {parts : List Term} {stored target : Text}
      {replacement : Term} (h : Made (.node binder parts stored)) (hn : isName target)
      (hr : Made replacement) : Made (.instantiate parts target replacement)
  | betaStep {t argument u : Term} (h : Made t) (ha : Made argument)
      (hu : t.betaStep? argument = some u) : Made u

/-- In a term that the operations make, every node holds a text written from its parts. -/
theorem Made.consistent (h : t.Made) : t.Consistent (isName ·) := by
  induction h with
  | var h => exact .var h
  | group _ ih => exact .group ih
  | lambda hn _ ih => exact .lambda hn ih
  | substitute _ _ _ ih _ => exact ih.substitute _ _
  | instantiate _ _ _ ih _ => exact ih.instantiate _ _
  | betaStep _ _ hu ih _ => exact ih.betaStep hu

end Term

end LambdaNotation
