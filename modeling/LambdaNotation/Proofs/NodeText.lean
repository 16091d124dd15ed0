import LambdaNotation.Proofs.Stored
import LambdaNotation.Proofs.Yield

/-!
# The texts of all nodes

Whatever made a term, reading, the operations or taking a part of another term (`Term.Reached`),
every node in it holds a text that is written from what its parts print
(`Term.stored_of_reached`). Only substitution writes it in the second of the two ways, so in terms
that were read, and in groups of and lambdas over them (`Term.Composed`), only the first one occurs.
-/

namespace LambdaNotation

open Text

namespace Term

variable {t u body : Term} {binder : Option Text} {parts : List Term} {stored : Text}
  {p : Text → Prop}

/-- The term `u` is `t`, or stands in it as a part, or as a part of a part, and so on. -/
inductive Occurs (u : Term) : Term → Prop
  | self : Occurs u u
  | part {binder : Option Text} {parts : List Term} {stored : Text} {t : Term} (ht : t ∈ parts)
      (h : Occurs u t) : Occurs u (.node binder parts stored)

theorem Consistent.of_occurs (h : t.Consistent p) (hu : Occurs u t) : u.Consistent p := by
  induction hu with
  | self => exact h
  | part ht _ ih => exact ih (h.of_mem ht)

/-! ## The first way to write a node -/

/-- Every node of a term holds what groups and lambdas write. -/
def AsWritten (t : Term) : Prop :=
  ∀ binder parts stored, Occurs (.node binder parts stored) t → stored = written binder parts

theorem asWritten_var (symbol : Text) : (var symbol).AsWritten := fun _ _ _ h => nomatch h

theorem AsWritten.node (h : ∀ t ∈ parts, t.AsWritten) :
    (Term.node binder parts (written binder parts)).AsWritten := by
  intro b ps text hu
  cases hu with
  | self => rfl
  | part ht hu => exact h _ ht b ps text hu

theorem AsWritten.group (h : ∀ t ∈ parts, t.AsWritten) : (group parts).AsWritten :=
  AsWritten.node h

theorem AsWritten.lambda (binder : Text) (h : body.AsWritten) : (lambda binder body).AsWritten := by
  have hnode : (Term.node (some binder) [body] (written (some binder) [body])).AsWritten :=
    .node (List.forall_mem_singleton.2 h)
  rwa [written, printAll_singleton] at hnode

theorem Built.asWritten (h : t.Built p) : t.AsWritten := by
  induction h with
  | var _ => exact asWritten_var _
  | group _ ih => exact .group ih
  | lambda _ _ ih => exact .lambda _ ih

/-- Terms that were read, groups of them and lambdas over them. -/
inductive Composed : Term → Prop
  | parse {limit : UInt64} {s : Text} {ts : List Term} {t : Term}
      (h : ((Machine.standard limit).parse s).value = .ok ts) (ht : t ∈ ts) : Composed t
  | group {parts : List Term} (h : ∀ t ∈ parts, Composed t) : Composed (.group parts)
  | lambda (binder : Text) {body : Term} (h : Composed body) : Composed (.lambda binder body)

theorem Composed.asWritten (h : t.Composed) : t.AsWritten := by
  induction h with
  | parse h ht => exact (Machine.built_of_parse h _ ht).asWritten
  | group _ ih => exact .group ih
  | lambda binder _ ih => exact .lambda binder ih

/-! ## Terms of any origin -/

/-- Terms that are read or made from variables by the operations, and the parts of such terms,
whatever the names. A copy of a term is the term, so it needs no rule. -/
inductive Reached : Term → Prop
  | var (symbol : Text) : Reached (.var symbol)
  | group {parts : List Term} (h : ∀ t ∈ parts, Reached t) : Reached (.group parts)
  | lambda (binder : Text) {body : Term} (h : Reached body) : Reached (.lambda binder body)
  | substitute (target : Text) {t replacement : Term} (h : Reached t) (hr : Reached replacement) :
      Reached (t.substitute target replacement)
  | instantiate (target : Text) {binder : Option Text} {parts : List Term} {stored : Text}
      {replacement : Term} (h : Reached (.node binder parts stored)) (hr : Reached replacement) :
      Reached (.instantiate parts target replacement)
  | betaStep {t argument u : Term} (h : Reached t) (ha : Reached argument)
      (hu : t.betaStep? argument = some u) : Reached u
  | part {binder : Option Text} {parts : List Term} {stored : Text} {t : Term}
      (h : Reached (.node binder parts stored)) (ht : t ∈ parts) : Reached t
  | parse {limit : UInt64} {s : Text} {ts : List Term} {t : Term}
      (h : ((Machine.standard limit).parse s).value = .ok ts) (ht : t ∈ ts) : Reached t

theorem Composed.reached (h : t.Composed) : t.Reached := by
  induction h with
  | parse h ht => exact .parse h ht
  | group _ ih => exact .group ih
  | lambda binder _ ih => exact .lambda binder ih

theorem Built.consistent (h : t.Built p) : t.Consistent fun _ => True := by
  induction h with
  | var _ => exact .var trivial
  | group _ ih => exact .group ih
  | lambda _ _ ih => exact .lambda trivial ih

theorem Reached.consistent (h : t.Reached) : t.Consistent fun _ => True := by
  induction h with
  | var _ => exact .var trivial
  | group _ ih => exact .group ih
  | lambda _ _ ih => exact .lambda trivial ih
  | substitute target _ _ ih _ => exact ih.substitute target _
  | instantiate target _ _ ih _ => exact ih.instantiate target _
  | betaStep _ _ hu ih _ => exact ih.betaStep hu
  | part _ ht ih => exact ih.of_mem ht
  | parse h ht => exact (Machine.built_of_parse h _ ht).consistent

/-- **Nodes hold what their parts print.** Every node that occurs in a term, whatever made the term,
holds a text written from the printed forms of its parts, in one of two ways, and a bound node has
one part. In what was read, and in groups of and lambdas over it, the text is written in the first
way. -/
theorem stored_of_reached (h : t.Reached) (hu : Occurs (.node binder parts stored) t) :
    (stored = written binder parts ∨ stored = rewritten binder parts) ∧
      (∀ b, binder = some b → parts.length = 1) ∧
      (t.Composed → stored = written binder parts) := by
  have hnode := h.consistent.of_occurs hu
  cases hnode with
  | node _ hk _ =>
    refine ⟨hk.eq_written_or_eq_rewritten, ?_, fun hc => hc.asWritten binder parts stored hu⟩
    rintro b rfl
    exact hk.length_eq_one

/-- A lambda that was read, and what substitution makes of it: the body of the one holds `(A1B2C)`,
the body of the other `λ.(A1B2C)`. -/
theorem stored_of_reached_after_substitution :
    let parts := [var "A1".toList, group [var "B2".toList], var "C".toList]
    let t := lambda "X1".toList (group parts)
    let u := t.substitute "A1".toList (var "Z9".toList)
    let parts' := [var "A1".toList, node none [var "B2".toList] "λ.(B2)".toList, var "C".toList]
    ((Machine.standard 2).parse "lx1.(a1(b2)c)".toList).value = .ok [t] ∧
      (t.Reached ∧ t.Composed ∧ Occurs (node none parts "(A1B2C)".toList) t ∧
        "(A1B2C)".toList = written none parts) ∧
      u.Reached ∧ Occurs (node none parts' "λ.(A1B2C)".toList) u ∧
        ("λ.(A1B2C)".toList = written none parts' ∨
          "λ.(A1B2C)".toList = rewritten none parts') := by
  intro parts t u parts'
  have hread : ((Machine.standard 2).parse "lx1.(a1(b2)c)".toList).value = .ok [t] := by cbv
  have ht : t.Composed := .parse hread (List.mem_singleton_self t)
  have hu : u.Reached := .substitute _ ht.reached (.var _)
  have hbody : Occurs (node none parts "(A1B2C)".toList) t :=
    .part (List.mem_singleton_self _) .self
  have hbody' : Occurs (node none parts' "λ.(A1B2C)".toList) u :=
    .part (List.mem_singleton_self _) .self
  exact ⟨hread, ⟨ht.reached, ht, hbody, (stored_of_reached ht.reached hbody).2.2 ht⟩, hu, hbody',
    (stored_of_reached hu hbody').1⟩

end Term

end LambdaNotation
